import Modall.Execution.LockOrder

/-!
# Deadlocks

What holds all along the scripts of the transactions: a row that belongs to a run or a workspace is
locked under the lock of that run or workspace, so nobody waits for it, and nothing is awaited after
a nonce. Only runs and workspaces are left to wait for, and a cycle must pass from a workspace to a
run through a route that cancels the run.
-/
namespace Modall.Locks

open Library Library.Locking Relation

/-- The row under whose lock a row is locked. -/
def LockedRow.guard : LockedRow → Option LockedRow
  | .job r | .attempt r | .idempotencyRecord r _ => some (.run r)
  | .apiIdempotencyRecord w _ | .serverConnection w _
  | .capability w _ | .discoveryRefreshJob w _
  | .registryEntry w _ => some (.workspace w)
  | .systemExecutionState | .run _ | .workspace _ | .confirmationNonce _ => none

/-- Rows are held with their guards, and only the state of the system is shared. -/
structure Sound (held : Held LockedRow) : Prop where
  guarded : ∀ row m, (row, m) ∈ held → ∀ g, row.guard = some g → (g, .exclusive) ∈ held
  system : ∀ m, (.systemExecutionState, m) ∈ held → m = .shared
  exclusive : ∀ row m, (row, m) ∈ held → row ≠ .systemExecutionState → m = .exclusive

/-- What a transaction holds when it asks for a row. -/
structure Requestable (t : Transaction) (held : Held LockedRow) (mode : Mode) (row : LockedRow) :
    Prop where
  guard : ∀ g, row.guard = some g → (g, .exclusive) ∈ held
  system : row = .systemExecutionState → mode = .shared
  nonce : ∀ nonceDigest m, (.confirmationNonce nonceDigest, m) ∉ held
  run : ∀ run, row = .run run → (∀ other m, (.run other, m) ∉ held) ∧
    ∀ workspaceId m, (.workspace workspaceId, m) ∈ held →
      t.Cancels run ∧ run.workspaceId = workspaceId
  workspace : ∀ workspaceId, row = .workspace workspaceId →
    (.workspace workspaceId, .exclusive) ∈ held ∨
      (∀ other m, (.workspace other, m) ∉ held) ∧
        ∀ run m, (.run run, m) ∈ held → t.Brings run workspaceId

structure Disciplined (t : Transaction) (held : Held LockedRow) (script : LockScript) : Prop where
  sound : Sound held
  requestable : ∀ mode row next, script = .lock mode row next → Requestable t held mode row

namespace Sound

variable {held : Held LockedRow} {row : LockedRow}

lemma nil : Sound [] := ⟨nofun, nofun, nofun⟩

lemma cons (h : Sound held) (hguard : ∀ g, row.guard = some g → (g, .exclusive) ∈ held)
    (hrow : row ≠ .systemExecutionState) : Sound ((row, .exclusive) :: held) := by
  refine ⟨fun r m hr g hg => ?_, fun m hm => ?_, fun r m hr hne => ?_⟩
  · obtain heq | hold := List.mem_cons.mp hr
    · cases heq
      exact List.mem_cons_of_mem _ (hguard g hg)
    · exact List.mem_cons_of_mem _ (h.guarded r m hold g hg)
  · obtain heq | hold := List.mem_cons.mp hm
    · cases heq
      exact absurd rfl hrow
    · exact h.system m hold
  · obtain heq | hold := List.mem_cons.mp hr
    · cases heq
      rfl
    · exact h.exclusive r m hold hne

lemma shared (h : Sound held) : Sound ((.systemExecutionState, .shared) :: held) := by
  refine ⟨fun r m hr g hg => ?_, fun m hm => ?_, fun r m hr hne => ?_⟩
  · obtain heq | hold := List.mem_cons.mp hr
    · cases heq
      cases hg
    · exact List.mem_cons_of_mem _ (h.guarded r m hold g hg)
  · obtain heq | hold := List.mem_cons.mp hm
    · cases heq
      rfl
    · exact h.system m hold
  · obtain heq | hold := List.mem_cons.mp hr
    · cases heq
      exact absurd rfl hne
    · exact h.exclusive r m hold hne

end Sound

/-! ### Scripts of locks -/

section scripts
variable {t : Transaction} {held : Held LockedRow} {row : LockedRow} {next : LockScript}

lemma always_done (h : Sound held) : Script.Always (Disciplined t) held .done := ⟨h, nofun⟩

lemma always_forUpdate (h : Sound held) (hrow : row ≠ .systemExecutionState)
    (hrequest : Requestable t held .exclusive row)
    (hnext : Sound ((row, .exclusive) :: held) →
      next.Always (Disciplined t) ((row, .exclusive) :: held)) :
    (forUpdate row next).Always (Disciplined t) held := by
  refine ⟨⟨h, fun mode row' next' heq => ?_⟩, hnext (h.cons hrequest.guard hrow)⟩
  cases heq
  exact hrequest

/-- A row whose guard is held may be asked for. -/
lemma always_guarded {g : LockedRow} (h : Sound held) (hguard : row.guard = some g)
    (hheld : (g, .exclusive) ∈ held)
    (hnonce : ∀ nonceDigest m, (.confirmationNonce nonceDigest, m) ∉ held)
    (hnext : Sound ((row, .exclusive) :: held) →
      next.Always (Disciplined t) ((row, .exclusive) :: held)) :
    (forUpdate row next).Always (Disciplined t) held := by
  have hrow : ∀ r : LockedRow, r.guard = none → row ≠ r := by
    rintro r hr rfl
    rw [hguard] at hr
    cases hr
  refine always_forUpdate h (hrow _ rfl) ⟨?_, ?_, hnonce, ?_, ?_⟩ hnext
  · intro g' hg'
    rw [hguard] at hg'
    cases hg'
    exact hheld
  · exact fun heq => absurd heq (hrow _ rfl)
  · exact fun run heq => absurd heq (hrow _ rfl)
  · exact fun workspaceId heq => absurd heq (hrow _ rfl)

lemma always_executionState (h : (next.Always (Disciplined t) [(.systemExecutionState, .shared)])) :
    (executionState next).Always (Disciplined t) [] := by
  refine ⟨⟨.nil, fun mode row next' heq => ?_⟩, h⟩
  cases heq
  exact ⟨nofun, fun _ => rfl, nofun, nofun, nofun⟩

lemma always_either {left right : LockScript} (h : Sound held)
    (hleft : left.Always (Disciplined t) held) (hright : right.Always (Disciplined t) held) :
    (Script.either left right).Always (Disciplined t) held := ⟨⟨h, nofun⟩, hleft, hright⟩

/-- Nothing is awaited after a nonce. -/
def NonceFree (held : Held LockedRow) : Prop :=
  ∀ nonceDigest m, (.confirmationNonce nonceDigest, m) ∉ held

lemma NonceFree.cons (h : NonceFree held) {m : Mode}
    (hrow : ∀ nonceDigest, row ≠ .confirmationNonce nonceDigest) :
    NonceFree ((row, m) :: held) := by
  intro nonceDigest m' hmem
  obtain heq | hold := List.mem_cons.mp hmem
  · cases heq
    exact hrow _ rfl
  · exact h nonceDigest m' hold

lemma always_terminalizeRun {run : RunKey} (h : Sound held) (hrun : (.run run, .exclusive) ∈ held)
    (hnonce : NonceFree held)
    (hnext : Sound ((.attempt run, .exclusive) :: (.job run, .exclusive) :: held) →
      next.Always (Disciplined t) ((.attempt run, .exclusive) :: (.job run, .exclusive) :: held)) :
    (terminalizeRun run next).Always (Disciplined t) held :=
  always_guarded h rfl hrun hnonce fun hjob =>
    always_guarded hjob rfl (List.mem_cons_of_mem _ hrun) (hnonce.cons nofun) hnext

/-- A workspace that is held already, or is asked for with runs only that the transaction may bring
to it. -/
lemma always_workspace {workspaceId : Uuid} (h : Sound held) (hnonce : NonceFree held)
    (hworkspace : (.workspace workspaceId, .exclusive) ∈ held ∨
      (∀ other m, (.workspace other, m) ∉ held) ∧
        ∀ run m, (.run run, m) ∈ held → t.Brings run workspaceId)
    (hnext : Sound ((.workspace workspaceId, .exclusive) :: held) →
      next.Always (Disciplined t) ((.workspace workspaceId, .exclusive) :: held)) :
    (forUpdate (.workspace workspaceId) next).Always (Disciplined t) held := by
  refine always_forUpdate h nofun ⟨nofun, nofun, hnonce, nofun, fun _ heq => ?_⟩ hnext
  cases heq
  exact hworkspace

/-- Rows of a workspace that is held. -/
lemma always_rows {workspaceId : Uuid} {rows : List LockedRow} (h : Sound held)
    (hheld : (.workspace workspaceId, .exclusive) ∈ held) (hnonce : NonceFree held)
    (hrows : ∀ row ∈ rows, row = .workspace workspaceId ∨
      row.guard = some (.workspace workspaceId)) :
    (rows.foldr forUpdate .done).Always (Disciplined t) held := by
  induction rows generalizing held with
  | nil => exact always_done h
  | cons row rows ih =>
    have hrest := fun r hr => hrows r (List.mem_cons_of_mem _ hr)
    obtain rfl | hguard := hrows row List.mem_cons_self
    · exact always_workspace h hnonce (.inl hheld) fun hsound =>
        ih hsound (List.mem_cons_of_mem _ hheld) (hnonce.cons nofun) hrest
    · refine always_guarded h hguard hheld hnonce fun hsound =>
        ih hsound (List.mem_cons_of_mem _ hheld) (hnonce.cons ?_) hrest
      rintro nonceDigest rfl
      cases hguard

/-- A mutation of the registry locks rows of its workspace only. -/
lemma own_registryMutation {workspaceId : Uuid} {mutation : RegistryMutation} {row : LockedRow}
    (h : row ∈ mutation.rows workspaceId) :
    row = .workspace workspaceId ∨ row.guard = some (.workspace workspaceId) := by
  cases mutation <;>
    simp only [RegistryMutation.rows, versionRows, List.mem_append, List.mem_cons, List.mem_map,
      List.mem_flatMap, List.not_mem_nil, or_false] at h <;>
    grind [LockedRow.guard]

/-- It locks the workspace first. -/
lemma registryMutation_first (workspaceId : Uuid) (mutation : RegistryMutation) :
    ∃ rows, mutation.rows workspaceId = .workspace workspaceId :: rows := by
  cases mutation <;> exact ⟨_, rfl⟩

/-! ### The scripts of the transactions -/

lemma always_registryMutation (workspaceId : Uuid) (mutation : RegistryMutation) (h : Sound held)
    (hnonce : NonceFree held)
    (hworkspace : held = [] ∨ (.workspace workspaceId, .exclusive) ∈ held) :
    (registryMutation workspaceId mutation).Always (Disciplined t) held := by
  obtain ⟨rows, hrows⟩ := registryMutation_first workspaceId mutation
  have hown : ∀ row ∈ rows, row = .workspace workspaceId ∨
      row.guard = some (.workspace workspaceId) := by
    intro row hrow
    have hmem : row ∈ mutation.rows workspaceId := hrows ▸ List.mem_cons_of_mem _ hrow
    exact own_registryMutation hmem
  rw [registryMutation, hrows, List.foldr_cons]
  refine always_workspace h hnonce ?_ fun hsound =>
    always_rows hsound List.mem_cons_self (hnonce.cons nofun) hown
  obtain rfl | hheld := hworkspace
  · exact .inr ⟨nofun, nofun⟩
  · exact .inl hheld

lemma always_idempotentMutation {workspaceId : Uuid} {existing : Option Uuid} {answered : Bool}
    {operation : LockScript}
    (h : existing = none ∨ answered = false → ∀ held, Sound held → NonceFree held →
      (.workspace workspaceId, .exclusive) ∈ held →
      (∀ run m, (.run run, m) ∉ held) →
      (∀ other m, (.workspace other, m) ∈ held → other = workspaceId) →
      operation.Always (Disciplined t) held) :
    (idempotentMutation workspaceId existing answered operation).Always (Disciplined t) [] := by
  refine always_workspace .nil nofun (.inr ⟨nofun, nofun⟩) fun hsound => ?_
  cases existing with
  | none => exact h (.inl rfl) _ hsound (by simp [NonceFree]) (by simp) (by simp) (by simp)
  | some recordId =>
    refine always_guarded hsound rfl List.mem_cons_self (by simp) fun hrecord => ?_
    cases answered with
    | true => exact always_done hrecord
    | false => exact h (.inr rfl) _ hrecord (by simp [NonceFree]) (by simp) (by simp) (by simp)

lemma always_cancelRoute (workspaceId runId : Uuid) (existing : Option Uuid) (answered : Bool) :
    (idempotentMutation workspaceId existing answered (cancelRun workspaceId runId)).Always
      (Disciplined (.cancelRoute workspaceId runId existing answered)) [] := by
  refine always_idempotentMutation fun hoperation held h hnonce hheld hruns hother => ?_
  refine always_forUpdate h nofun ⟨nofun, nofun, hnonce, fun run heq => ?_, nofun⟩ fun hrun => ?_
  · cases heq
    exact ⟨hruns, fun other m hmem => ⟨⟨rfl, hoperation⟩, (hother other m hmem).symm⟩⟩
  · refine always_workspace hrun (hnonce.cons nofun) (.inl (List.mem_cons_of_mem _ hheld))
      fun hserial => ?_
    exact always_terminalizeRun hserial (by simp)
      ((hnonce.cons (by simp)).cons (by simp)) always_done

lemma always_lockedLeaseLineage {lease : JobLease} {next : LockScript}
    (hnext : ∀ held : Held LockedRow, held = [(.job (runOf lease), .exclusive),
      (.run (runOf lease), .exclusive), (.systemExecutionState, .shared)] → Sound held →
      next.Always (Disciplined t) held) :
    (executionState (lockedLeaseLineage lease next)).Always (Disciplined t) [] := by
  refine always_executionState (always_forUpdate Sound.nil.shared nofun ?_ fun hrun => ?_)
  · exact ⟨nofun, nofun, by simp, by simp, nofun⟩
  · exact always_guarded hrun rfl List.mem_cons_self (by simp) fun hjob => hnext _ rfl hjob

lemma always_lockTarget {T : Targets} {run : RunKey} (h : Sound held) (hnonce : NonceFree held)
    (hworkspace : ∀ other m, (.workspace other, m) ∉ held)
    (hbrings : ∀ other m, (.run other, m) ∈ held → t.Brings other run.workspaceId)
    (hnext : ∀ rows, Sound (rows ++ held) → NonceFree (rows ++ held) →
      next.Always (Disciplined t) (rows ++ held)) :
    (lockTarget T run next).Always (Disciplined t) held := by
  refine always_workspace h hnonce (.inr ⟨hworkspace, hbrings⟩) fun hserial => ?_
  have hfree : NonceFree ((.workspace run.workspaceId, .exclusive) :: held) :=
    hnonce.cons nofun
  refine always_guarded hserial rfl List.mem_cons_self hfree fun hcapability => ?_
  refine always_guarded hcapability rfl (by simp) (hfree.cons (by simp)) fun hconnection => ?_
  exact hnext [_, _, _] hconnection ((hfree.cons (by simp)).cons (by simp))

lemma always_fenceAttempt (T : Targets) (lease : JobLease)
    (hbrings : t.Brings (runOf lease) lease.workspaceId) :
    (fenceAttempt T lease).Always (Disciplined t) [] := by
  refine always_lockedLeaseLineage fun held hheld hsound => ?_
  subst hheld
  refine always_lockTarget hsound (by simp [NonceFree]) (by simp) (fun other m hmem => ?_)
    fun rows htarget hnonce => always_guarded htarget rfl (by simp) hnonce always_done
  simp only [List.mem_cons, Prod.mk.injEq, reduceCtorEq, false_and, LockedRow.run.injEq,
    List.not_mem_nil, or_false, false_or] at hmem
  rw [hmem.1]
  exact hbrings

lemma always_completeLease (lease : JobLease) :
    (completeLease lease).Always (Disciplined t) [] := by
  refine always_lockedLeaseLineage fun held hheld hsound => ?_
  subst hheld
  refine always_either hsound ?_ ?_
  · exact always_terminalizeRun hsound (by simp) (by simp [NonceFree]) always_done
  · exact always_guarded hsound rfl (by simp) (by simp) always_done

lemma always_replayExistingRun {workspaceId : Uuid} {nonceDigest : Digest} {admitted : Admitted}
    (hbrings : t.Brings ⟨workspaceId, admitted.runId⟩ workspaceId) :
    (replayExistingRun workspaceId nonceDigest admitted).Always (Disciplined t)
      [(.systemExecutionState, .shared)] := by
  refine always_forUpdate Sound.nil.shared nofun ⟨nofun, nofun, by simp, by simp, nofun⟩
    fun hrun => ?_
  refine always_guarded hrun rfl List.mem_cons_self (by simp) fun hrecord => ?_
  refine always_workspace hrecord (by simp [NonceFree]) (.inr ⟨by simp, fun run m hmem => ?_⟩)
    fun hserial => ?_
  · simp only [List.mem_cons, Prod.mk.injEq, reduceCtorEq, false_and, LockedRow.run.injEq,
      List.not_mem_nil, or_false, false_or] at hmem
    rw [hmem.1]
    exact hbrings
  · exact always_forUpdate hserial (by simp) ⟨by simp [LockedRow.guard], by simp, by simp, by simp,
      by simp⟩ always_done

lemma always_createRun (workspaceId : Uuid) (nonceDigest : Digest)
    (existing serialized : Option Admitted) :
    (createRun workspaceId nonceDigest existing serialized).Always
      (Disciplined (.createRun workspaceId nonceDigest existing serialized)) [] := by
  refine always_executionState ?_
  cases existing with
  | some admitted =>
    exact always_replayExistingRun ⟨rfl, rfl, admitted, .inl rfl, rfl⟩
  | none =>
    refine always_workspace Sound.nil.shared (by simp [NonceFree]) (.inr ⟨by simp, by simp⟩)
      fun hserial => ?_
    cases serialized with
    | none =>
      exact always_forUpdate hserial (by simp) ⟨by simp [LockedRow.guard], by simp, by simp,
        by simp, by simp⟩ always_done
    | some admitted =>
      refine ⟨⟨hserial, nofun⟩, ?_⟩
      have hreleased : Held.without [(LockedRow.workspace workspaceId, Mode.exclusive),
          (.systemExecutionState, .shared)] (.workspace workspaceId) =
          [(.systemExecutionState, .shared)] := by
        simp [Held.without]
      rw [hreleased]
      exact always_replayExistingRun ⟨rfl, rfl, admitted, .inr ⟨rfl, rfl⟩, rfl⟩

/-- What `claim_job` holds before it comes to the workspace. -/
structure Claiming (runs : List RunKey) (held : Held LockedRow) : Prop where
  sound : Sound held
  nonce : NonceFree held
  workspace : ∀ workspaceId m, (.workspace workspaceId, m) ∉ held
  runs : ∀ run m, (.run run, m) ∈ held → run ∈ runs

lemma Claiming.begin : Claiming [] [(.systemExecutionState, .shared)] :=
  ⟨Sound.nil.shared, by simp [NonceFree], by simp, by simp⟩

lemma Claiming.cons {runs : List RunKey} (h : Claiming runs held) {run : RunKey}
    (hguard : row.guard = some (.run run)) (hrun : (.run run, .exclusive) ∈ held) :
    Claiming runs ((row, .exclusive) :: held) := by
  have hrow : ∀ r : LockedRow, r.guard = none → r ≠ row := by
    rintro r hr rfl
    rw [hguard] at hr
    cases hr
  refine ⟨h.sound.cons ?_ (hrow _ rfl).symm, h.nonce.cons fun _ => (hrow _ rfl).symm, ?_, ?_⟩
  · intro g hg
    rw [hguard] at hg
    cases hg
    exact hrun
  · intro workspaceId m hmem
    obtain heq | hold := List.mem_cons.mp hmem
    · cases heq
      exact hrow _ rfl rfl
    · exact h.workspace workspaceId m hold
  · intro other m hmem
    obtain heq | hold := List.mem_cons.mp hmem
    · cases heq
      exact absurd rfl (hrow _ rfl)
    · exact h.runs other m hold

/-- A selection adds some of its runs. -/
lemma Claiming.taking {runs candidates : List RunKey} (h : Claiming runs held)
    {rows : List LockedRow} (hrows : ∀ row ∈ rows, row ∈ candidates.map .run) :
    Claiming (candidates ++ runs) (Locking.taking rows ++ held) := by
  induction rows with
  | nil => exact ⟨h.sound, h.nonce, h.workspace, fun run m hmem =>
      List.mem_append_right _ (h.runs run m hmem)⟩
  | cons row rows ih =>
    have hrest := ih fun r hr => hrows r (List.mem_cons_of_mem _ hr)
    obtain ⟨run, hrun, rfl⟩ := List.mem_map.mp (hrows row List.mem_cons_self)
    refine ⟨hrest.sound.cons nofun nofun, hrest.nonce.cons nofun, fun workspaceId m hmem => ?_,
      fun other m hmem => ?_⟩
    · obtain heq | hold := List.mem_cons.mp hmem
      · cases heq
      · exact hrest.workspace workspaceId m hold
    · obtain heq | hold := List.mem_cons.mp hmem
      · cases heq
        exact List.mem_append_left _ hrun
      · exact hrest.runs other m hold

lemma always_terminalizeRuns {runs : List RunKey} (todo : List RunKey) (h : Claiming runs held)
    (htodo : ∀ run ∈ todo, (.run run, .exclusive) ∈ held)
    (hnext : ∀ held', Claiming runs held' → next.Always (Disciplined t) held') :
    (terminalizeRuns todo next).Always (Disciplined t) held := by
  induction todo generalizing held with
  | nil => exact hnext held h
  | cons run todo ih =>
    have hrun := htodo run List.mem_cons_self
    refine always_terminalizeRun h.sound hrun h.nonce fun _ => ?_
    refine ih ((h.cons rfl hrun).cons rfl (List.mem_cons_of_mem _ hrun)) fun other hother => ?_
    exact List.mem_cons_of_mem _ (List.mem_cons_of_mem _
      (htodo other (List.mem_cons_of_mem _ hother)))

lemma held_of_runsOf {rows : List LockedRow} {run : RunKey} (h : run ∈ runsOf rows) :
    (.run run, .exclusive) ∈ taking rows ++ held := by
  obtain ⟨row, hrow, heq⟩ := List.mem_filterMap.mp h
  refine List.mem_append_left _ (mem_taking.mpr ⟨?_, rfl⟩)
  cases row <;> simp_all

lemma claimed_of_runsOf {taken : List LockedRow} {claimable rest : List RunKey} {run : RunKey}
    (hlimit : taken.length ≤ 1) (htaken : ∀ row ∈ taken, row ∈ claimable.map LockedRow.run)
    (h : runsOf taken = run :: rest) : taken = [.run run] ∧ run ∈ claimable := by
  match taken, hlimit with
  | [], _ => cases h
  | [row], _ =>
    obtain ⟨claimed, hclaimed, rfl⟩ := List.mem_map.mp (htaken row List.mem_cons_self)
    cases h
    exact ⟨rfl, hclaimed⟩

lemma always_claimJob (T : Targets) (batchSize : Nat) (expired abandoned claimable : List RunKey) :
    (claimJob T batchSize expired abandoned claimable).Always
      (Disciplined (.claimJob batchSize expired abandoned claimable)) [] := by
  refine always_executionState ⟨⟨Sound.nil.shared, nofun⟩, fun taken _ htaken => ?_⟩
  refine always_terminalizeRuns _ (Claiming.begin.taking htaken) (fun _ => held_of_runsOf)
    fun held hheld => ?_
  refine ⟨⟨hheld.sound, nofun⟩, fun taken _ htaken => ?_⟩
  refine always_terminalizeRuns _ (hheld.taking htaken) (fun _ => held_of_runsOf)
    fun held hheld => ?_
  refine ⟨⟨hheld.sound, nofun⟩, fun taken hlimit htaken => ?_⟩
  cases hruns : runsOf taken with
  | nil =>
    simp only [hruns]
    exact always_done (hheld.taking htaken).sound
  | cons run rest =>
    have htake : taken = [.run run] ∧ run ∈ claimable := claimed_of_runsOf hlimit htaken hruns
    obtain ⟨rfl, hclaimable⟩ := htake
    have hclaim : Claiming ([run] ++ (abandoned ++ (expired ++ [])))
        (taking [.run run] ++ held) := hheld.taking (by simp)
    have hrun : (.run run, .exclusive) ∈ taking [.run run] ++ held := by simp [taking]
    refine always_guarded hclaim.sound rfl hrun hclaim.nonce fun _ => ?_
    have hguard : (LockedRow.job run).guard = some (.run run) := rfl
    have hjob := hclaim.cons hguard hrun
    have hrun' := List.mem_cons_of_mem (.job run, .exclusive) hrun
    refine always_either hjob.sound ?_ ?_
    · exact always_terminalizeRun hjob.sound hrun' hjob.nonce always_done
    · refine always_lockTarget hjob.sound hjob.nonce hjob.workspace (fun other m hmem => ?_)
        fun rows htarget hnonce => ?_
      · have hother := hjob.runs other m hmem
        simp only [List.mem_append, List.mem_singleton, List.not_mem_nil, or_false] at hother
        obtain rfl | habandoned | hexpired := hother
        · exact .inr ⟨hclaimable, rfl⟩
        · exact .inl ⟨.inr habandoned, run, hclaimable, rfl⟩
        · exact .inl ⟨.inl hexpired, run, hclaimable, rfl⟩
      · have hlast := List.mem_append_right rows hrun'
        refine always_either htarget ?_ ?_
        · exact always_terminalizeRun htarget hlast hnonce always_done
        · exact always_guarded htarget rfl hlast hnonce always_done

theorem always_script (T : Targets) (t : Transaction) :
    (t.script T).Always (Disciplined t) [] := by
  cases t with
  | cancelRoute workspaceId runId existing answered =>
    exact always_cancelRoute workspaceId runId existing answered
  | claimJob batchSize expired abandoned claimable =>
    exact always_claimJob T batchSize expired abandoned claimable
  | fenceSession lease => exact always_fenceAttempt T lease ⟨rfl, rfl⟩
  | fenceDispatch lease => exact always_fenceAttempt T lease ⟨rfl, rfl⟩
  | heartbeat lease =>
    exact always_lockedLeaseLineage fun _ _ hsound => always_done hsound
  | completeLease lease => exact always_completeLease lease
  | createRun workspaceId nonceDigest existing serialized =>
    exact always_createRun workspaceId nonceDigest existing serialized
  | registryRoute workspaceId existing answered mutation =>
    exact always_idempotentMutation fun _ held h hnonce hheld _ _ =>
      always_registryMutation workspaceId mutation h hnonce (.inr hheld)
  | registry workspaceId mutation =>
    exact always_registryMutation workspaceId mutation .nil (by simp [NonceFree]) (.inl rfl)

end scripts

/-! ### Waiting -/

section waiting
variable {ι : Type} {T : Targets} {transactions : ι → Transaction} {s : State ι LockedRow}
  {i j : ι}

/-- The row a transaction waits for. -/
def Wants (s : State ι LockedRow) (i : ι) (row : LockedRow) : Prop :=
  ∃ mode next, s.script i = .lock mode row next

lemma Wants.unique {row row' : LockedRow} (h : Wants s i row) (h' : Wants s i row') :
    row = row' := by
  obtain ⟨mode, next, hscript⟩ := h
  obtain ⟨mode', next', hscript'⟩ := h'
  rw [hscript] at hscript'
  cases hscript'
  rfl

/-- What holds in every state the transactions reach. -/
structure Orderly (transactions : ι → Transaction) (s : State ι LockedRow) : Prop where
  alone : Exclusive s
  disciplined : ∀ i, Disciplined (transactions i) (s.held i) (s.script i)

theorem orderly_of_reached [DecidableEq ι] (h : Reached T transactions s) : Orderly transactions s := by
  obtain ⟨halone, hdisciplined⟩ := always_of_reachable
    (P := fun i => Disciplined (transactions i)) (fun _ => ⟨.nil, nofun⟩)
    (fun i => always_script T (transactions i)) h
  exact ⟨halone, hdisciplined⟩

namespace Orderly

/-- Nobody waits for a row with a guard, for the state of the system, or for a row it holds. -/
lemma waits (h : Orderly transactions s) (hwaits : Waits s i j) :
    ∃ row, Wants s i row ∧ row.guard = none ∧ row ≠ .systemExecutionState ∧
      (row, .exclusive) ∈ s.held j ∧ (row, .exclusive) ∉ s.held i := by
  obtain ⟨mode, row, next, m, hscript, hne, hheld, hconflict⟩ := hwaits
  have hrequest := (h.disciplined i).requestable mode row next hscript
  have hsystem : row ≠ .systemExecutionState := by
    rintro rfl
    rw [hrequest.system rfl, (h.disciplined j).sound.system m hheld] at hconflict
    simp [Mode.Conflicts] at hconflict
  obtain rfl := (h.disciplined j).sound.exclusive row m hheld hsystem
  refine ⟨row, ⟨mode, next, hscript⟩, ?_, hsystem, hheld, fun hmine =>
    h.alone i j hne row _ _ hmine hheld (.inl rfl)⟩
  by_contra hguard
  obtain ⟨g, hg⟩ := Option.ne_none_iff_exists'.mp hguard
  exact h.alone i j hne g _ _ (hrequest.guard g hg)
    ((h.disciplined j).sound.guarded row _ hheld g hg) (.inl rfl)

lemma request (h : Orderly transactions s) {row : LockedRow} (hwants : Wants s i row) :
    ∃ mode, Requestable (transactions i) (s.held i) mode row := by
  obtain ⟨mode, next, hscript⟩ := hwants
  exact ⟨mode, (h.disciplined i).requestable mode row next hscript⟩

def WantsRun (s : State ι LockedRow) (i : ι) : Prop := ∃ run, Wants s i (.run run)

def WantsWorkspace (s : State ι LockedRow) (i : ι) : Prop :=
  ∃ workspaceId, Wants s i (.workspace workspaceId)

/-- The edges of a cycle: those who are waited for wait as well, and so do those they wait for. -/
def Blocks (s : State ι LockedRow) (i j : ι) : Prop :=
  (Waits s i j ∧ ∃ k, Waits s j k) ∧ ∃ k, Waits s j k ∧ ∃ l, Waits s k l

/-- Who waits on, waits for a run or a workspace. -/
lemma wants_of_waits (h : Orderly transactions s) {k l : ι} (hwaits : Waits s i k)
    (hnext : Waits s k l) : ∃ row, Wants s i row ∧ (row, .exclusive) ∈ s.held k ∧
      ((∃ run, row = .run run) ∨ ∃ workspaceId, row = .workspace workspaceId) := by
  obtain ⟨row, hwants, hguard, hsystem, hheld, -⟩ := h.waits hwaits
  obtain ⟨next, hwants', -⟩ := h.waits hnext
  obtain ⟨mode, hrequest⟩ := h.request hwants'
  refine ⟨row, hwants, hheld, ?_⟩
  cases row with
  | run run => exact .inl ⟨run, rfl⟩
  | workspace workspaceId => exact .inr ⟨workspaceId, rfl⟩
  | confirmationNonce nonceDigest => exact absurd hheld (hrequest.nonce nonceDigest _)
  | systemExecutionState => exact absurd rfl hsystem
  | job | attempt | idempotencyRecord | apiIdempotencyRecord | serverConnection | capability
  | discoveryRefreshJob | registryEntry => cases hguard

lemma blocks_edge (h : Orderly transactions s) (hblocks : Blocks s i j) :
    WantsRun s i ∧ WantsWorkspace s j ∨ WantsWorkspace s i ∧ WantsRun s j := by
  obtain ⟨⟨hij, -⟩, k, hjk, l, hkl⟩ := hblocks
  obtain ⟨row, hi, hheld, hrow⟩ := h.wants_of_waits hij hjk
  obtain ⟨next, hj, -, hnext⟩ := h.wants_of_waits hjk hkl
  obtain ⟨mode, hrequest⟩ := h.request hj
  obtain ⟨mine, hmine, -, -, -, hmissing⟩ := h.waits hjk
  obtain rfl := hmine.unique hj
  obtain ⟨run, rfl⟩ | ⟨workspaceId, rfl⟩ := hrow
  · obtain ⟨other, rfl⟩ | ⟨workspaceId, rfl⟩ := hnext
    · exact absurd hheld ((hrequest.run other rfl).1 run _)
    · exact .inl ⟨⟨run, hi⟩, workspaceId, hj⟩
  · obtain ⟨run, rfl⟩ | ⟨other, rfl⟩ := hnext
    · exact .inr ⟨⟨workspaceId, hi⟩, run, hj⟩
    · obtain hheld' | ⟨hnone, -⟩ := hrequest.workspace other rfl
      · exact absurd hheld' hmissing
      · exact absurd hheld (hnone workspaceId _)

lemma held_of_waits (h : Orderly transactions s) (hwaits : Waits s i j) {row : LockedRow}
    (hwants : Wants s i row) : (row, .exclusive) ∈ s.held j ∧ (row, .exclusive) ∉ s.held i := by
  obtain ⟨row', hwants', -, -, hheld, hmissing⟩ := h.waits hwaits
  obtain rfl := hwants.unique hwants'
  exact ⟨hheld, hmissing⟩

/-- Waiting for a workspace whose holder waits for a run: the holder is a route that cancels it. -/
lemma crossing (h : Orderly transactions s) {a b c : ι} {first second : Uuid}
    (ha : Wants s a (.workspace first)) (hb : WantsRun s b) (hc : Wants s c (.workspace second))
    (hab : Blocks s a b) (hbc : Blocks s b c) : Crossing transactions first second := by
  obtain ⟨run, hrun⟩ := hb
  obtain ⟨mode, hrequest⟩ := h.request hrun
  obtain ⟨mode', hrequest'⟩ := h.request hc
  have hworkspace := (h.held_of_waits hab.1.1 ha).1
  obtain ⟨hcancels, hown⟩ := (hrequest.run run rfl).2 first _ hworkspace
  have hheld := (h.held_of_waits hbc.1.1 hrun).1
  obtain ⟨k, hck⟩ := hbc.1.2
  have hne : c ≠ b := by
    obtain ⟨-, -, -, -, -, hne, -⟩ := hbc.1.1
    exact hne
  obtain hmine | ⟨-, hbrings⟩ := hrequest'.workspace second rfl
  · exact absurd hmine (h.held_of_waits hck hc).2
  · exact ⟨b, c, run, hne, hcancels, hown, hbrings run _ hheld⟩

/-- A cycle in the wait-for graph is a circle of workspaces. -/
theorem circle_of_deadlocked (h : Orderly transactions s) (hdeadlock : Deadlocked s) :
    ∃ workspaceId, TransGen (Crossing transactions) workspaceId workspaceId := by
  obtain ⟨i, hcycle⟩ := hdeadlock
  have hblocks : TransGen (Blocks s) i i := transGen_leading (transGen_leading hcycle)
  have hdisjoint : ∀ i, WantsRun s i → ¬ WantsWorkspace s i := by
    rintro i ⟨run, hrun⟩ ⟨workspaceId, hworkspace⟩
    cases hrun.unique hworkspace
  obtain ⟨j, ⟨workspaceId, hj⟩, hpairs⟩ :=
    transGen_pairs hdisjoint (fun _ _ => h.blocks_edge) hblocks
  have hcircle : ∀ {k}, TransGen (fun a c => WantsWorkspace s a ∧ WantsWorkspace s c ∧
      ∃ b, WantsRun s b ∧ Blocks s a b ∧ Blocks s b c) j k → ∀ {second},
      Wants s k (.workspace second) → TransGen (Crossing transactions) workspaceId second := by
    intro k hpath
    induction hpath with
    | single hpair =>
      obtain ⟨-, -, b, hb, hjb, hbk⟩ := hpair
      exact fun hk => .single (h.crossing hj hb hk hjb hbk)
    | tail hpath hpair ih =>
      obtain ⟨⟨middle, ha⟩, -, b, hb, hab, hbk⟩ := hpair
      exact fun hk => (ih ha).tail (h.crossing ha hb hk hab hbk)
  exact ⟨workspaceId, hcircle hpairs hj⟩

end Orderly

end waiting

/-! ### A route that cancels meets a worker that fences -/

namespace Sample

def targets : Targets := ⟨fun _ => 5, fun _ => 6⟩

/-- Run 7 is cancelled while a worker fences a run of the same workspace. -/
def meeting (runId : Uuid) : Bool → Transaction
  | false => .cancelRoute 1 7 none false
  | true => .fenceSession ⟨3, runId, 1, 4, "worker", 1, 1, 0⟩

def start (runId : Uuid) : State Bool LockedRow :=
  ⟨fun _ => [], fun i => (meeting runId i).script targets⟩

/-- The worker has its run and its job, and the route its workspace. -/
def met (runId : Uuid) : State Bool LockedRow :=
  (((start runId).put true [(.systemExecutionState, .shared)]
    (lockedLeaseLineage ⟨3, runId, 1, 4, "worker", 1, 1, 0⟩ <|
      lockTarget targets ⟨1, runId⟩ <| activeAttempt ⟨1, runId⟩ .done)).put true
    [(.run ⟨1, runId⟩, .exclusive), (.systemExecutionState, .shared)]
    (forUpdate (.job ⟨1, runId⟩) <|
      lockTarget targets ⟨1, runId⟩ <| activeAttempt ⟨1, runId⟩ .done)).put true
    [(.job ⟨1, runId⟩, .exclusive), (.run ⟨1, runId⟩, .exclusive),
      (.systemExecutionState, .shared)]
    (lockTarget targets ⟨1, runId⟩ <| activeAttempt ⟨1, runId⟩ .done) |>.put false
    [(.workspace 1, .exclusive)] (cancelRun 1 7)

lemma met_reached (runId : Uuid) : Reached targets (meeting runId) (met runId) := by
  have hfree : ∀ (s : State Bool LockedRow) (i : Bool) (mode : Mode) (row : LockedRow),
      (∀ m, (row, m) ∉ s.held (!i)) → s.Free i mode row := by
    intro s i mode row hnone j hne m hmem
    rw [Bool.eq_not.mpr hne] at hmem
    exact absurd hmem (hnone m)
  have hstart : Path Locking.Step (start runId) [] (start runId) := .nil _
  have hstate := hstart.snoc (.locks .shared .systemExecutionState _ rfl
    (hfree _ true _ _ fun _ => List.not_mem_nil))
  have hrun := hstate.snoc (.locks .exclusive (.run ⟨1, runId⟩) _ rfl
    (hfree _ true _ _ fun _ => List.not_mem_nil))
  have hjob := hrun.snoc (.locks .exclusive (.job ⟨1, runId⟩) _ rfl
    (hfree _ true _ _ fun _ => List.not_mem_nil))
  have hother : ∀ m, (LockedRow.workspace 1, m) ∉ [(LockedRow.job ⟨1, runId⟩, Mode.exclusive),
      (.run ⟨1, runId⟩, .exclusive), (.systemExecutionState, .shared)] := by simp
  have hworkspace := hjob.snoc (.locks .exclusive (.workspace 1) _ rfl
    (hfree _ false _ _ hother))
  exact ⟨start runId, _, rfl, hworkspace⟩

end Sample

end Modall.Locks
