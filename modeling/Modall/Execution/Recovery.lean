import Modall.Execution.Safety

/-!
# Recovery from a restore

Entering the quarantine, reconciling in batches and clearing it again. The batches are selected with
`SKIP LOCKED`, so what another transaction holds is left for a later batch; when nothing is held,
each batch ends as many active runs as it may take, and the quarantine can be cleared after enough
of them. None of these calls raises, whatever state the ledger was restored in.
-/
namespace Modall
open Library

/-! ## Runs that have not ended -/

/-- The status of a run that the store holds. -/
def Store.statusOf (s : Store) (r : Uuid) : Option RunStatus :=
  (s.lineage r).runs.head?.map Run.status

/-- The runs that have not ended. -/
def Store.activeIds (s : Store) : Finset Uuid :=
  ((s.runs.filter fun run => run.status.active).map Run.id).toFinset

/-- What a restore makes of the status of a run. -/
def restoredStatus (status : RunStatus) : RunStatus :=
  if status.active then restoreStatus status else status

theorem restoreStatus_inactive (status : RunStatus) : (restoreStatus status).active = false := by
  unfold restoreStatus
  split <;> rfl

theorem restoreStatus_terminal (status : RunStatus) : (restoreStatus status).terminal = true := by
  unfold restoreStatus
  split <;> rfl

theorem restoredStatus_restoreStatus (status : RunStatus) :
    restoredStatus (restoreStatus status) = restoreStatus status := by
  rw [restoredStatus, restoreStatus_inactive]
  rfl

section Stores
variable {limits : ExecutionLimits} {clock : Time} {s t : Store} {run : Run} {job : Job}

theorem Lineage.Valid.statusOf (valid : (s.lineage run.id).Valid limits run job) :
    s.statusOf run.id = some run.status := by simp [Store.statusOf, valid.runs]

theorem Store.statusOf_congr {r : Uuid} (h : t.lineage r = s.lineage r) :
    t.statusOf r = s.statusOf r := by rw [statusOf, statusOf, h]

theorem Store.Sound.mem_activeIds (sound : s.Sound limits clock) {r : Uuid} :
    r ∈ s.activeIds ↔ ∃ status, s.statusOf r = some status ∧ status.active = true := by
  rw [activeIds, List.mem_toFinset, List.mem_map]
  constructor
  · rintro ⟨run, mem, rfl⟩
    rw [List.mem_filter] at mem
    obtain ⟨job, valid, -⟩ := sound.of_mem_runs mem.1
    exact ⟨run.status, valid.statusOf, mem.2⟩
  · rintro ⟨status, found, active⟩
    rw [statusOf, Option.map_eq_some_iff] at found
    obtain ⟨run, hrun, rfl⟩ := found
    obtain ⟨mem, rfl⟩ := mem_lineage_runs.mp (List.mem_of_head? hrun)
    exact ⟨run, List.mem_filter.mpr ⟨mem, active⟩, rfl⟩

theorem Store.Sound.card_activeIds (sound : s.Sound limits clock) :
    s.activeIds.card = (s.runs.filter fun run => run.status.active).length := by
  rw [activeIds, List.toFinset_card_of_nodup, List.length_map]
  exact (List.filter_sublist.map _).nodup sound.nodup_runs

theorem Store.Sound.activeIds_congr {clock' : Time} (sound : s.Sound limits clock)
    (sound' : t.Sound limits clock') (same : ∀ r, t.lineage r = s.lineage r) :
    t.activeIds = s.activeIds := by
  ext r
  rw [sound.mem_activeIds, sound'.mem_activeIds, statusOf_congr (same r)]

theorem Store.Sound.find?_run (sound : s.Sound limits clock) (mem : run ∈ s.runs) :
    s.runs.find? (fun r => r.id == run.id) = some run :=
  find?_eq_some_of_only mem (beq_self_eq_true _) fun other there same =>
    List.inj_on_of_nodup_map sound.nodup_runs there mem (by simpa using same)

end Stores

/-! ## Statements that meet nobody -/

section Statements
variable {limits : ExecutionLimits} {clock : Time} {s : Session}

/-- When no row is held, every candidate that has not changed is locked in turn. -/
theorem lockEach_free {γ : Type} {p : Run → γ → Bool} (free : s.held = [])
    {candidates : List (Run × γ)} (latest : ∀ c ∈ candidates,
      s.rows.runs.find? (fun r => r.id == c.1.id) = some c.1 ∧ p c.1 c.2 = true) (n : Nat) :
    lockEach p s n candidates = candidates.take n := by
  induction candidates generalizing n with
  | nil => cases n <;> rfl
  | cons candidate rest ih =>
    cases n with
    | zero => rfl
    | succ n =>
      obtain ⟨found, holds⟩ := latest candidate List.mem_cons_self
      rw [List.take_succ_cons, ← ih fun c mem => latest c (List.mem_cons_of_mem _ mem)]
      obtain ⟨run, joined⟩ := candidate
      simp only at found holds
      simp [lockEach, free, found, holds]

theorem lockRuns_free (alone : s.commits = []) (free : s.held = [])
    (sound : s.rows.Sound limits clock) (p : Run → Bool) (before : Run → Run → Prop)
    [DecidableRel before] (n : Nat) :
    lockRuns p before n s = .ok ((orderedBy before (s.rows.runs.filter p)).take n) s := by
  unfold lockRuns
  rw [bind_of_ok (query_apply _ _), bind_of_ok (othersCommit_alone alone), query_apply,
    lockEach_free free, ← List.map_take, List.map_map]
  · exact congrArg (EStateM.Result.ok · s) (List.map_id _)
  · intro c mem
    obtain ⟨run, there, rfl⟩ := List.mem_map.mp mem
    rw [mem_orderedBy, List.mem_filter] at there
    exact ⟨sound.find?_run there.1, there.2⟩

theorem durableNow_held (s : Session) :
    ∃ now t, durableNow s = .ok now t ∧ t.held = s.held := by
  unfold durableNow
  cases s.ticks <;> exact ⟨_, _, rfl, rfl⟩

theorem executionState_returns (s : Session) :
    ∃ state t, executionState s = .ok state t ∧ t.held = s.held := by
  unfold executionState
  rw [bind_of_ok (query_apply _ _)]
  cases s.rows.system with
  | some state => exact ⟨state, s, rfl, rfl⟩
  | none =>
    obtain ⟨now, t, ht, held⟩ := durableNow_held s
    simp only [bind_of_ok ht, bind_of_ok (assign_apply _ _), bind_of_ok (flush_apply _)]
    exact ⟨_, _, rfl, held⟩

end Statements

/-! ## The three calls -/

section Calls
variable {limits : ExecutionLimits} {s : Session} {service : ExecutionService}

theorem raiseIf_passes {c : Prop} [Decidable c] (failure : Failure) (h : ¬c) (s : Session) :
    (raiseIf c failure : Tx Unit) s = .ok () s := raiseIf_eq_ok.mpr ⟨h, rfl⟩

theorem requireSystemAuthority_ok (authority : service.systemAuthority = true) :
    service.requireSystemAuthority s = .ok () s := raiseIf_passes _ (by simp [authority]) s

theorem enterRestoreQuarantine_returns (authority : service.systemAuthority = true) :
    ∃ epoch t, service.enterRestoreQuarantine s = .ok epoch t := by
  obtain ⟨now, u, hu, -⟩ := durableNow_held s
  obtain ⟨state, v, hv, -⟩ := executionState_returns u
  unfold ExecutionService.enterRestoreQuarantine
  rw [bind_of_ok (requireSystemAuthority_ok authority), bind_of_ok hu, bind_of_ok hv,
    bind_of_ok (assign_apply _ _), bind_of_ok (flush_apply _)]
  exact ⟨_, _, rfl⟩

theorem clearRestoreQuarantine_returns (settled : s.Settled)
    (sound : s.rows.Sound limits s.clock) (authority : service.systemAuthority = true)
    (quarantined : s.rows.quarantined = true) (idle : s.rows.activeIds = ∅) :
    ∃ epoch t, service.clearRestoreQuarantine s = .ok epoch t := by
  obtain ⟨state, u, hu, -⟩ := executionState_returns s
  obtain ⟨opened, -, -, hquarantine⟩ := executionState_ok settled hu
  obtain ⟨now, v, hv, -⟩ := durableNow_held u
  have ended : (u.rows.runs.any fun run => run.status.active) = false := by
    rw [List.any_eq_false]
    intro run mem active
    have there := (sound.activeIds_congr (opened.evolves.sound sound) opened.lineage).symm
    have listed : run.id ∈ u.rows.activeIds := List.mem_toFinset.mpr
      (List.mem_map_of_mem (List.mem_filter.mpr ⟨mem, active⟩))
    rw [← there, idle] at listed
    cases listed
  unfold ExecutionService.clearRestoreQuarantine
  rw [bind_of_ok (requireSystemAuthority_ok authority), bind_of_ok hu,
    bind_of_ok (query_apply _ _),
    bind_of_ok (raiseIf_passes _ (by rw [hquarantine, quarantined, ended]; decide) u),
    bind_of_ok hv, bind_of_ok (assign_apply _ _), bind_of_ok (flush_apply _)]
  exact ⟨_, _, rfl⟩

/-- Ending the locked runs of a batch. -/
theorem restoreEach_ok (settled : s.Settled) {locked : List Run} (now : Time)
    (distinct : (locked.map Run.id).Nodup) (each : ∀ run ∈ locked, run.status.active = true ∧
      ∃ job, (s.rows.lineage run.id).Valid limits run job) :
    ∃ o, forM locked (fun run => terminalizeRun run (restoreStatus run.status) now
        .restoreReconciliation .restoreReconciled) s = .ok () { s with objects := o } ∧
      o.system = s.rows.system ∧
      (∀ run ∈ locked, o.statusOf run.id = some (restoreStatus run.status)) ∧
      ∀ r ∉ locked.map Run.id, o.lineage r = s.rows.lineage r := by
  have body : ∀ (run : Run) (u : Session), u.rows = s.rows →
      u.objects.lineage run.id = s.rows.lineage run.id → run ∈ locked →
      ∃ o, terminalizeRun run (restoreStatus run.status) now .restoreReconciliation
          .restoreReconciled u = .ok () { u with objects := o } ∧
        u.objects.Edits run.id (fun l => l.finish run (restoreStatus run.status)
          (some .restoreReconciliation) .restoreReconciled now) o := by
    intro run u hrows hlineage mem
    obtain ⟨active, job, valid⟩ := each run mem
    rw [← hrows] at valid hlineage
    exact terminalizeRun_ok valid (.of_lineage_eq hlineage)
      (mayEnd_restore (by simpa using active) none).terminal now _ _
  obtain ⟨o, ho, -, hsystem, hself, hother⟩ := forM_edits body distinct s rfl
    fun run _ => by rw [settled.flushed]
  refine ⟨o, ho, hsystem.trans (congrArg _ settled.flushed), fun run mem => ?_, fun r mem => ?_⟩
  · obtain ⟨-, job, valid⟩ := each run mem
    rw [Store.statusOf, hself run mem, Lineage.finish_runs, valid.runs]
    rfl
  · rw [hother r mem, settled.flushed]

/-- The runs that one batch has ended. -/
structure Reconciled (batch : Nat) (s t : Store) (ids : Finset Uuid) : Prop where
  active : ids ⊆ s.activeIds
  card : ids.card = min batch s.activeIds.card
  ended : ∀ r ∈ ids, t.statusOf r = (s.statusOf r).map restoreStatus
  other : ∀ r ∉ ids, t.statusOf r = s.statusOf r
  quarantined : t.quarantined = s.quarantined
  epoch : t.executionEpoch = s.executionEpoch

theorem reconcileRestoreQuarantine_returns (settled : s.Settled) (free : s.held = [])
    (sound : s.rows.Sound limits s.clock) (authority : service.systemAuthority = true)
    (quarantined : s.rows.quarantined = true) {batchSize : Int} (positive : 0 < batchSize)
    (bounded : batchSize ≤ 1000) :
    ∃ count t ids, service.reconcileRestoreQuarantine batchSize s = .ok count t ∧
      Reconciled batchSize.toNat s.rows t.objects ids := by
  obtain ⟨state, u, hu, freeu⟩ := executionState_returns s
  obtain ⟨opened, -, -, hquarantine⟩ := executionState_ok settled hu
  obtain ⟨now, v, hv, freev⟩ := durableNow_held u
  obtain ⟨opened₂, -⟩ := Reads.opened .durableNow opened.settled hv
  have both := opened.trans opened₂
  have sound' := both.evolves.sound sound
  have hlock := lockRuns_free opened₂.settled.alone (freev.trans (freeu.trans free)) sound'
    (fun run => run.status.active) runBeforeCreation batchSize.toNat
  generalize hrows : (orderedBy runBeforeCreation
    (v.rows.runs.filter fun run => run.status.active)).take batchSize.toNat = locked at hlock
  have each : ∀ run ∈ locked, run.status.active = true ∧
      ∃ job, (v.rows.lineage run.id).Valid limits run job := by
    intro run mem
    rw [← hrows] at mem
    have there := mem_orderedBy.mp (List.mem_of_mem_take mem)
    rw [List.mem_filter] at there
    obtain ⟨job, valid, -⟩ := sound'.of_mem_runs there.1
    exact ⟨there.2, job, valid⟩
  have distinct : (locked.map Run.id).Nodup := by
    rw [← hrows]
    refine ((List.take_sublist _ _).map _).nodup (nodup_map_orderedBy.mpr ?_)
    exact (List.filter_sublist.map _).nodup sound'.nodup_runs
  obtain ⟨o, ho, hsystem, hself, hother⟩ := restoreEach_ok opened₂.settled now distinct each
  have hstatus : ∀ r, v.rows.statusOf r = s.rows.statusOf r :=
    fun r => Store.statusOf_congr (both.lineage r)
  have hactive := sound.activeIds_congr sound' both.lineage
  refine ⟨locked.length, { v with objects := o, rows := o }, (locked.map Run.id).toFinset, ?_, ?_⟩
  · unfold ExecutionService.reconcileRestoreQuarantine
    rw [bind_of_ok (requireSystemAuthority_ok authority),
      bind_of_ok (raiseIf_passes _ (by omega) s), bind_of_ok hu,
      bind_of_ok (raiseIf_passes _ (by simp [hquarantine, quarantined]) u), bind_of_ok hv,
      bind_of_ok hlock, bind_of_ok ho, bind_of_ok (flush_apply _)]
    rfl
  refine ⟨?_, ?_, ?_, ?_, ?_, ?_⟩
  · intro r mem
    rw [List.mem_toFinset, List.mem_map] at mem
    obtain ⟨run, mem, rfl⟩ := mem
    obtain ⟨active, job, valid⟩ := each run mem
    rw [← hactive, sound'.mem_activeIds]
    exact ⟨run.status, valid.statusOf, active⟩
  · rw [List.toFinset_card_of_nodup distinct, List.length_map, ← hactive, sound'.card_activeIds,
      ← hrows, List.length_take, orderedBy, List.length_insertionSort]
  · intro r mem
    rw [List.mem_toFinset, List.mem_map] at mem
    obtain ⟨run, mem, rfl⟩ := mem
    obtain ⟨-, job, valid⟩ := each run mem
    rw [← hstatus, valid.statusOf, hself run mem]
    rfl
  · intro r mem
    rw [List.mem_toFinset] at mem
    rw [← hstatus, Store.statusOf_congr (hother r mem)]
  · rw [← both.system.quarantined, Store.quarantined, Store.quarantined, hsystem]
  · rw [← both.system.executionEpoch, Store.executionEpoch, Store.executionEpoch, hsystem]

end Calls

/-! ## The recovery as a run of calls -/

/-- A call that meets no other transaction: no row is held, and nothing commits meanwhile. Any time
may pass in it and after it. -/
inductive Alone (P : Platform) (service : ExecutionService) :
    World → Call × Except Failure Reply → World → Prop where
  | call {w : World} {call : Call} {outcome : Outcome Reply} (ticks : List Nat) (later : Time) :
      transact (call.run service P) (.begin w.store w.clock ticks [] []) = outcome →
      w.clock ≤ later → outcome.clock ≤ later →
      Alone P service w (call, outcome.result)
        ⟨outcome.store, later, call.draws ++ w.drawn, call.nonces ++ w.nonces⟩

/-- The calls of a recovery. -/
def restoreCalls (batchSize : Int) (batches : Nat) : List Call :=
  .enterRestoreQuarantine :: List.replicate batches (.reconcileRestoreQuarantine batchSize) ++
    [.clearRestoreQuarantine]

section Runs
variable {P : Platform} {service : ExecutionService} {w w' : World} {call : Call}
  {result : Except Failure Reply}

/-- A call that draws no identifiers. -/
theorem Alone.step (h : Alone P service w (call, result) w') (draws : call.draws = [])
    (nonces : call.nonces = []) : Step P service.limits w (.call service call result) w' := by
  cases h with
  | call ticks later houtcome hclock hlater =>
    exact .call ticks [] later rfl (by simp [draws]) (by simp [nonces]) houtcome hclock hlater

/-- The session of such a call, and what comes of it when the call returns. -/
theorem Alone.session (h : Alone P service w (call, result) w') :
    ∃ s : Session, s.Settled ∧ s.held = [] ∧ s.rows = w.store ∧ s.clock = w.clock ∧
      ∀ reply t, call.run service P s = .ok reply t →
        result = .ok reply ∧ w'.store = t.objects := by
  cases h with
  | call ticks later houtcome hclock hlater =>
    refine ⟨.begin w.store w.clock ticks [] [], ⟨rfl, rfl⟩, rfl, rfl, rfl, ?_⟩
    intro reply t hreturns
    rw [transact, hreturns] at houtcome
    subst houtcome
    exact ⟨rfl, rfl⟩

theorem Alone.enter (h : Alone P service w (.enterRestoreQuarantine, result) w')
    (authority : service.systemAuthority = true) (inv : w.Invariant service.limits) :
    (∃ n, result = .ok (.number n)) ∧ w'.Invariant service.limits ∧
      w'.store.quarantined = true ∧ w'.store.executionEpoch = w.store.executionEpoch + 1 ∧
      ∀ r, w'.store.lineage r = w.store.lineage r := by
  obtain ⟨s, settled, -, hrows, -, hcall⟩ := h.session
  obtain ⟨epoch, t, ht⟩ := enterRestoreQuarantine_returns (s := s) authority
  obtain ⟨hresult, hstore⟩ := hcall (.number epoch) t (bind_of_ok ht)
  obtain ⟨now, set⟩ := enterRestoreQuarantine_ok settled ht
  rw [set.settled.flushed] at hstore
  refine ⟨⟨epoch, hresult⟩, (h.step rfl rfl).invariant inv, ?_, ?_, fun r => ?_⟩
  · rw [hstore, Store.quarantined_of_system set.system]
  · rw [hstore, Store.executionEpoch_of_system set.system, hrows]
  · rw [hstore, set.lineage, hrows]

theorem Alone.reconcile {batchSize : Int}
    (h : Alone P service w (.reconcileRestoreQuarantine batchSize, result) w')
    (authority : service.systemAuthority = true) (positive : 0 < batchSize)
    (bounded : batchSize ≤ 1000) (inv : w.Invariant service.limits)
    (quarantined : w.store.quarantined = true) :
    (∃ n, result = .ok (.number n)) ∧ w'.Invariant service.limits ∧
      ∃ ids, Reconciled batchSize.toNat w.store w'.store ids := by
  obtain ⟨s, settled, free, hrows, hclock, hcall⟩ := h.session
  have sound := inv.sound
  rw [← hrows, ← hclock] at sound
  rw [← hrows] at quarantined
  obtain ⟨count, t, ids, ht, reconciled⟩ :=
    reconcileRestoreQuarantine_returns settled free sound authority quarantined positive bounded
  obtain ⟨hresult, hstore⟩ := hcall (.number count) t (bind_of_ok ht)
  rw [hrows, ← hstore] at reconciled
  exact ⟨⟨count, hresult⟩, (h.step rfl rfl).invariant inv, ids, reconciled⟩

theorem Alone.clear (h : Alone P service w (.clearRestoreQuarantine, result) w')
    (authority : service.systemAuthority = true) (inv : w.Invariant service.limits)
    (quarantined : w.store.quarantined = true) (idle : w.store.activeIds = ∅) :
    (∃ n, result = .ok (.number n)) ∧ w'.store.quarantined = false ∧
      w'.store.executionEpoch = w.store.executionEpoch ∧
      ∀ r, w'.store.lineage r = w.store.lineage r := by
  obtain ⟨s, settled, -, hrows, hclock, hcall⟩ := h.session
  have sound := inv.sound
  rw [← hrows, ← hclock] at sound
  rw [← hrows] at quarantined idle
  obtain ⟨epoch, t, ht⟩ :=
    clearRestoreQuarantine_returns settled sound authority quarantined idle
  obtain ⟨hresult, hstore⟩ := hcall (.number epoch) t (bind_of_ok ht)
  obtain ⟨-, -, now, set⟩ := clearRestoreQuarantine_ok settled ht
  rw [set.settled.flushed] at hstore
  refine ⟨⟨epoch, hresult⟩, ?_, ?_, fun r => ?_⟩
  · rw [hstore, Store.quarantined_of_system set.system]
  · rw [hstore, Store.executionEpoch_of_system set.system, hrows]
  · rw [hstore, set.lineage, hrows]

/-- Where a restore stands: what is left to reconcile, and that nothing has ended otherwise. -/
structure Restoring (service : ExecutionService) (w w' : World) (left : Nat) : Prop where
  invariant : w'.Invariant service.limits
  quarantined : w'.store.quarantined = true
  epoch : w'.store.executionEpoch = w.store.executionEpoch + 1
  card : w'.store.activeIds.card ≤ left
  status : ∀ r, (w'.store.statusOf r).map restoredStatus = (w.store.statusOf r).map restoredStatus

section Batches
variable {limits : ExecutionLimits} {clock clock' : Time} {s t : Store} {batch : Nat}
  {ids : Finset Uuid}

theorem Reconciled.activeIds_eq (h : Reconciled batch s t ids) (sound : s.Sound limits clock)
    (sound' : t.Sound limits clock') : t.activeIds = s.activeIds \ ids := by
  ext r
  rw [Finset.mem_sdiff, sound.mem_activeIds, sound'.mem_activeIds]
  by_cases mem : r ∈ ids
  · obtain ⟨status, found, -⟩ := sound.mem_activeIds.mp (h.active mem)
    simp [mem, h.ended r mem, found, restoreStatus_terminal]
  · simp [mem, h.other r mem]

theorem Reconciled.card_activeIds (h : Reconciled batch s t ids) (sound : s.Sound limits clock)
    (sound' : t.Sound limits clock') : t.activeIds.card = s.activeIds.card - batch := by
  rw [h.activeIds_eq sound sound', Finset.card_sdiff_of_subset h.active, h.card]
  omega

theorem Reconciled.status (h : Reconciled batch s t ids) (sound : s.Sound limits clock) (r : Uuid) :
    (t.statusOf r).map restoredStatus = (s.statusOf r).map restoredStatus := by
  by_cases mem : r ∈ ids
  · obtain ⟨status, found, active⟩ := sound.mem_activeIds.mp (h.active mem)
    rw [h.ended r mem, found, Option.map_some, Option.map_some, Option.map_some,
      restoredStatus_restoreStatus, restoredStatus, if_pos active]
  · rw [h.other r mem]

/-- With no active run, a restore has nothing more to change. -/
theorem Store.Sound.restored (sound : s.Sound limits clock) (idle : s.activeIds = ∅) (r : Uuid) :
    (s.statusOf r).map restoredStatus = s.statusOf r := by
  cases found : s.statusOf r with
  | none => rfl
  | some status =>
    have inactive : ¬status.active = true := by
      intro active
      have listed := sound.mem_activeIds.mpr ⟨status, found, active⟩
      rw [idle] at listed
      cases listed
    rw [Option.map_some, restoredStatus, if_neg inactive]

end Batches

/-- The last step of a run whose labels are known by a part of them. -/
theorem Library.Path.unsnoc {σ ℓ κ : Type} {step : σ → ℓ → σ → Prop} {f : ℓ → κ} {a b : σ}
    {ls : List ℓ} {ks : List κ} {k : κ} (h : Path step a ls b) (labels : ls.map f = ks ++ [k]) :
    ∃ ms l c, ls = ms ++ [l] ∧ ms.map f = ks ∧ f l = k ∧ Path step a ms c ∧ step c l b := by
  cases h with
  | nil => simp at labels
  | snoc first last =>
    rw [List.map_append, List.map_singleton] at labels
    obtain ⟨hinit, hlast⟩ := List.append_inj' labels rfl
    exact ⟨_, _, _, rfl, hinit, List.singleton_injective hlast, first, last⟩

theorem Library.Path.eq_of_nil {σ ℓ : Type} {step : σ → ℓ → σ → Prop} {a b : σ}
    (h : Path step a [] b) : b = a := by
  generalize hls : ([] : List ℓ) = ls at h
  cases h with
  | nil => rfl
  | snoc => simp at hls

variable {calls : List (Call × Except Failure Reply)} {batchSize : Int} {batches : Nat}

/-- The quarantine is entered, and the batches end one run after the other. -/
theorem restoring_of_path (path : Path (Alone P service) w calls w')
    (order : calls.map Prod.fst = .enterRestoreQuarantine ::
      List.replicate batches (.reconcileRestoreQuarantine batchSize))
    (authority : service.systemAuthority = true) (positive : 0 < batchSize)
    (bounded : batchSize ≤ 1000) (inv : w.Invariant service.limits) :
    (∀ c ∈ calls, ∃ n, c.2 = .ok (.number n)) ∧
      Restoring service w w' (w.store.activeIds.card - batches * batchSize.toNat) := by
  induction batches generalizing calls w' with
  | zero =>
    rw [List.replicate_zero, ← List.nil_append [Call.enterRestoreQuarantine]] at order
    obtain ⟨none, ⟨call, result⟩, u, rfl, hnone, rfl, first, last⟩ := path.unsnoc order
    rw [List.map_eq_nil_iff] at hnone
    subst hnone
    obtain rfl := first.eq_of_nil
    obtain ⟨returned, inv', quarantined, epoch, same⟩ := last.enter authority inv
    refine ⟨by simpa using returned, inv', quarantined, epoch, ?_, fun r => ?_⟩
    · rw [inv.sound.activeIds_congr inv'.sound same, Nat.zero_mul, Nat.sub_zero]
    · rw [Store.statusOf_congr (same r)]
  | succ batches ih =>
    rw [List.replicate_succ', ← List.cons_append] at order
    obtain ⟨before, ⟨call, result⟩, u, rfl, hbefore, rfl, first, last⟩ := path.unsnoc order
    obtain ⟨returns, restoring⟩ := ih first hbefore
    obtain ⟨returned, inv', ids, reconciled⟩ := last.reconcile authority positive bounded
      restoring.invariant restoring.quarantined
    have sound := restoring.invariant.sound
    refine ⟨?_, inv', ?_, ?_, ?_, fun r => ?_⟩
    · intro c mem
      rcases List.mem_append.mp mem with mem | mem
      · exact returns c mem
      · rw [List.mem_singleton.mp mem]
        exact returned
    · rw [reconciled.quarantined, restoring.quarantined]
    · rw [reconciled.epoch, restoring.epoch]
    · have card := restoring.card
      rw [reconciled.card_activeIds sound inv'.sound, Nat.succ_mul]
      omega
    · rw [reconciled.status sound, restoring.status]

/-- A restore comes to an end. From any state of the ledger, entering the quarantine, enough batches
and clearing it again all return when nothing else is under way. Then no quarantine is left, the
epoch is the next one, and each run that had not ended was cancelled, or is indeterminate if its
dispatch had been fenced; the others have kept their status. -/
theorem restore_recovers {limits : ExecutionLimits} (reached : w.Reached P limits)
    (same : service.limits = limits) (authority : service.systemAuthority = true)
    (positive : 0 < batchSize) (bounded : batchSize ≤ 1000)
    (enough : w.store.activeIds.card ≤ batches * batchSize.toNat)
    (path : Path (Alone P service) w calls w')
    (order : calls.map Prod.fst = restoreCalls batchSize batches) :
    (∀ c ∈ calls, ∃ n, c.2 = .ok (.number n)) ∧ w'.store.quarantined = false ∧
      w'.store.executionEpoch = w.store.executionEpoch + 1 ∧
      ∀ r, w'.store.statusOf r = (w.store.statusOf r).map restoredStatus := by
  subst same
  obtain ⟨before, ⟨call, result⟩, u, rfl, hbefore, rfl, first, last⟩ := path.unsnoc order
  obtain ⟨returns, restoring⟩ :=
    restoring_of_path first hbefore authority positive bounded reached.invariant
  have idle : u.store.activeIds = ∅ := by
    have card := restoring.card
    rw [← Finset.card_eq_zero]
    omega
  obtain ⟨returned, cleared, epoch, lineage⟩ :=
    last.clear authority restoring.invariant restoring.quarantined idle
  refine ⟨?_, cleared, epoch.trans restoring.epoch, fun r => ?_⟩
  · intro c mem
    rcases List.mem_append.mp mem with mem | mem
    · exact returns c mem
    · rw [List.mem_singleton.mp mem]
      exact returned
  · rw [Store.statusOf_congr (lineage r), ← restoring.status,
      restoring.invariant.sound.restored idle]

theorem Alone.after (P : Platform) (service : ExecutionService) (ticks : List Nat) (call : Call)
    (w : World) : Alone P service w
      (call, (transact (call.run service P) (.begin w.store w.clock ticks [] [])).result)
      (w.after P service ticks call) :=
  .call ticks _ rfl (Int.le_max_left ..) (Int.le_max_right ..)

end Runs

namespace Sample

def quarantine : World := dispatched.after platform service [] .enterRestoreQuarantine
def reconciled : World := quarantine.after platform service [] (.reconcileRestoreQuarantine 1)
def restored : World := reconciled.after platform service [] .clearRestoreQuarantine

end Sample

/-- A run whose dispatch was fenced before the restore. -/
theorem restore_recovers_dispatched :
    Sample.dispatched.store.statusOf 100 = some .dispatchFenced ∧
      Sample.restored.store.statusOf 100 = some .indeterminate ∧
      Sample.restored.store.quarantined = false := by
  have path := Path.snoc (.snoc (.single (Alone.after Sample.platform Sample.service [] _ _))
    (Alone.after Sample.platform Sample.service [] (.reconcileRestoreQuarantine 1) _))
    (Alone.after Sample.platform Sample.service [] .clearRestoreQuarantine Sample.reconciled)
  have fenced : Sample.dispatched.store.statusOf 100 = some .dispatchFenced := by decide
  obtain ⟨-, cleared, -, statuses⟩ := restore_recovers Sample.dispatched_reached rfl rfl
    (by decide) (by decide) (by decide) path (rfl : _ = restoreCalls 1 1)
  refine ⟨fenced, ?_, cleared⟩
  exact (statuses 100).trans (by rw [fenced]; rfl)

end Modall
