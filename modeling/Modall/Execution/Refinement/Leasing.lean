import Modall.Execution.Leasing
import Modall.Execution.Statements

/-!
# Worker operations take steps of their run

Each operation of `Leasing`, run without interference on a sound store, is traced to the steps
of `Lineage.Step` it takes, together with what its guards have established when it returns.
-/
namespace Modall
open Library

section Leases
variable {limits : ExecutionLimits} {clock : Time} {s t : Session}

/-- The job of a lease is found by its own identifier and must be that of the lease's run. -/
theorem lockedJob_ok (settled : s.Settled) (sound : s.rows.Sound limits clock) {lease : JobLease}
    {job : Job} (h : lockedJob lease s = .ok job t) :
    t = s ∧ job.id = lease.jobId ∧ job.workspaceId = lease.workspaceId ∧
      job.runId = lease.runId ∧ job ∈ s.rows.jobs := by
  unfold lockedJob at h
  obtain ⟨found, u, hu, hmatch⟩ := bind_eq_ok.mp h
  cases found with
  | none => cases hmatch
  | some found =>
    obtain ⟨⟨⟩, v, hv, hreturn⟩ := bind_eq_ok.mp hmatch
    obtain ⟨hrun, rfl⟩ := raiseIf_eq_ok.mp hv
    injection hreturn with hj ht
    subst hj ht
    obtain ⟨rfl, row, hrow, hm⟩ := scalar_ok hu
    rw [settled.flushed] at hm
    have mem := List.mem_of_find?_eq_some hrow
    have same : row = found := by
      have hid : row.runId = found.runId := by simpa using List.find?_some hm
      exact List.inj_on_of_nodup_map sound.nodup_jobs mem (List.mem_of_find?_eq_some hm) hid
    subst same
    have hp : row.id = lease.jobId ∧ row.workspaceId = lease.workspaceId := by
      simpa using List.find?_some hrow
    exact ⟨rfl, hp.1, hp.2, not_not.mp hrun, mem⟩

theorem lockedLeaseLineage_ok (settled : s.Settled) (sound : s.rows.Sound limits clock)
    {lease : JobLease} {run : Run} {job : Job} (h : lockedLeaseLineage lease s = .ok (run, job) t) :
    t = s ∧ run.id = lease.runId ∧ run.createdAt ≤ clock ∧ job.id = lease.jobId ∧
      (s.rows.lineage run.id).Valid limits run job := by
  unfold lockedLeaseLineage at h
  rw [bind_of_ok (selectRow_apply ..)] at h
  obtain ⟨⟨⟩, u, hu, hlock⟩ := bind_eq_ok.mp h
  obtain ⟨-, rfl⟩ := raiseIf_eq_ok.mp hu
  obtain ⟨found, v, hv, hmatch⟩ := bind_eq_ok.mp hlock
  cases found with
  | none => cases hmatch
  | some found =>
    obtain ⟨job', w, hw, hreturn⟩ := bind_eq_ok.mp hmatch
    injection hreturn with hp ht
    obtain ⟨rfl, rfl⟩ := Prod.mk.inj hp
    obtain ⟨rfl, hid, hc, job, valid⟩ := lockRun_ok settled sound hv
    obtain ⟨rfl, hjob, -, hrun, mem⟩ := lockedJob_ok settled sound hw
    simp only [Bool.and_eq_true, beq_iff_eq] at hid
    have same : job' = job := by
      have : job' ∈ (w.rows.lineage found.id).jobs :=
        Store.mem_lineage_jobs.mpr ⟨mem, hrun.trans hid.1.symm⟩
      rwa [valid.jobs, List.mem_singleton] at this
    subst same
    exact ⟨ht.symm, hid.1, hc, hjob, valid⟩


/-- The store still honours the lease: its job is leased, in the lease's epochs. -/
def Store.Honours (store : Store) (lease : JobLease) : Prop :=
  (∃ job ∈ store.jobs, job.id = lease.jobId ∧ job.runId = lease.runId ∧ job.status = .leased ∧
    job.leaseEpoch = lease.leaseEpoch) ∧ store.executionEpoch = lease.executionEpoch

theorem leasedTo_iff {job : Job} {lease : JobLease} : job.leasedTo lease = true ↔
    job.status = .leased ∧ job.leaseOwner = some lease.workerId ∧
      job.leaseEpoch = lease.leaseEpoch ∧ job.leaseExpiresAt.isSome = true := by
  simp [Job.leasedTo, and_assoc]

/-- The job locked for a lease is among the rows, so the lease is honoured when it matches. -/
theorem honours_of_leasedTo {u : Session} (opened : s.Opened u) {lease : JobLease} {run : Run}
    {job : Job} (valid : (u.rows.lineage run.id).Valid limits run job)
    (hrun : run.id = lease.runId) (hjob : job.id = lease.jobId)
    (leased : job.leasedTo lease = true) (epoch : s.rows.executionEpoch = lease.executionEpoch) :
    s.rows.Honours lease := by
  obtain ⟨status, -, leaseEpoch, -⟩ := leasedTo_iff.mp leased
  refine ⟨⟨job, ?_, hjob, valid.runId.trans hrun, status, leaseEpoch⟩, epoch⟩
  have : job ∈ (u.rows.lineage run.id).jobs := by simp [valid.jobs]
  rw [opened.lineage] at this
  exact (Store.mem_lineage_jobs.mp this).1

/-- What `_fence_attempt` has established when it does not refuse. -/
structure FenceHolds (limits : ExecutionLimits) (s t : Session) (lease : JobLease)
    (expected : RunStatus) (run : Run) (job : Job) (attempt : RunAttempt) (now : Time) :
    Prop where
  opened : s.Opened t
  read : now = t.clock
  valid : (t.rows.lineage run.id).Valid limits run job
  created : run.createdAt ≤ now
  released : s.rows.quarantined = false
  honours : s.rows.Honours lease
  runId : run.id = lease.runId
  status : run.status = expected
  current : s.rows.registry.targetIsCurrent run = true
  attemptRun : attempt.runId = run.id
  active : ∀ f, (t.objects.lineage run.id).setAttempt attempt.sequence f =
    (t.objects.lineage run.id).settle f

theorem fenceGuard_ok (settled : s.Settled) (sound : s.rows.Sound limits s.clock)
    {lease : JobLease} {expected : RunStatus} {run : Run} {attempt : RunAttempt} {now : Time}
    (attempting : expected.attempting = true)
    (h : fenceGuard lease expected s = .ok (run, attempt, now) t) :
    ∃ job, FenceHolds limits s t lease expected run job attempt now := by
  unfold fenceGuard at h
  rw [bind_eq_ok] at h
  obtain ⟨state, u, hu, h⟩ := h
  obtain ⟨opened, -, epoch, quarantine⟩ := executionState_ok settled hu
  have sound' := opened.advanced.sound sound
  rw [bind_of_ok (selectRow_apply ..), bind_eq_ok] at h
  obtain ⟨⟨⟩, v, hv, h⟩ := h
  obtain ⟨-, rfl⟩ := raiseIf_eq_ok.mp hv
  rw [bind_eq_ok] at h
  obtain ⟨⟨run', job⟩, w, hw, h⟩ := h
  obtain ⟨rfl, hrun, hcreated, hjob, valid⟩ := lockedLeaseLineage_ok opened.settled sound' hw
  dsimp only at h
  rw [bind_of_ok (query_apply _ _), bind_eq_ok] at h
  obtain ⟨found, x, hx, h⟩ := h
  rw [bind_eq_ok] at h
  obtain ⟨now', y, hy, h⟩ := h
  rw [bind_eq_ok] at h
  obtain ⟨⟨⟩, z, hz, h⟩ := h
  obtain ⟨guard, rfl⟩ := raiseIf_eq_ok.mp hz
  simp only [not_or, Bool.not_eq_true, ne_eq, not_not, Bool.not_eq_false] at guard
  obtain ⟨released, hepoch, -, leased, -, -, -, status, current⟩ := guard
  -- the run is attempting, so its attempt is the one found
  obtain ⟨a, ha, hattempt, -, -, -, active⟩ := activeAttempt_ok valid
    (by rw [opened.settled.flushed]) (status ▸ attempting)
  obtain ⟨rfl, rfl⟩ : some a = found ∧ w = x := by
    rw [ha] at hx
    injection hx with h₁ h₂
    exact ⟨h₁, h₂⟩
  rw [bind_eq_ok] at h
  obtain ⟨⟨⟩, z, hz, h⟩ := h
  obtain ⟨-, rfl⟩ := raiseIf_eq_ok.mp hz
  injection h with hp ht
  obtain ⟨rfl, rfl, rfl⟩ : run' = run ∧ a = attempt ∧ now' = now := by simpa using hp
  subst ht
  obtain ⟨hnow, hr, ho, hc, -, hclock⟩ := durableNow_eq_ok hy
  have opened' := opened.trans (opened.settled.opened hr ho hc hclock)
  refine ⟨job, ?_⟩
  exact {
    opened := opened'
    read := hnow
    valid := by rw [hr]; exact valid
    created := hcreated.trans (hnow ▸ hclock)
    released := quarantine ▸ released
    honours := honours_of_leasedTo opened valid hrun hjob leased (epoch ▸ hepoch)
    runId := hrun
    status := status
    current := opened.registry ▸ current
    attemptRun := hattempt
    active := by rw [ho]; exact active }

/-- Fencing moves the run and its attempt on together. -/
theorem fenceAttempt_ok (settled : s.Settled) (sound : s.rows.Sound limits s.clock)
    {lease : JobLease} {expected target : RunStatus} {eventType : RunEventType} {result : Run}
    (attempting : expected.attempting = true)
    (h : fenceAttempt lease expected target eventType s = .ok result t) :
    ∃ u run job attempt now, FenceHolds limits s u lease expected run job attempt now ∧
      t.Settled ∧ t.clock = u.clock ∧
      u.rows.Edits run.id (fun l => l.fence run target eventType now) t.rows := by
  unfold fenceAttempt at h
  rw [bind_eq_ok] at h
  obtain ⟨⟨run, attempt, now⟩, u, hu, h⟩ := h
  obtain ⟨job, holds⟩ := fenceGuard_ok settled sound attempting hu
  refine ⟨u, run, job, attempt, now, holds, ?_⟩
  dsimp only at h
  rw [holds.attemptRun, bind_of_ok (assign_apply _ _), bind_of_ok (assign_apply _ _)] at h
  let fenced : Run → Run := fun r => { r with status := target, updatedAt := now }
  let moved : RunAttempt → RunAttempt := fun a => { a with status := target }
  have edits := (Store.edits_setRun u.objects run.id fenced fun _ => rfl).trans
    (Store.edits_setAttempt (u.objects.setRun run.id fenced) run.id attempt.sequence moved
      fun _ => rfl)
  obtain ⟨o, ho, noted⟩ := appendNextEvent_ok
    (s := { u with
      objects := (u.objects.setRun run.id fenced).setAttempt run.id attempt.sequence moved })
    holds.valid.journal.numbered
    (by rw [edits.self, holds.opened.settled.flushed]; rfl) eventType target none now
  rw [bind_of_ok ho, bind_of_ok (flush_apply _)] at h
  injection h with _ ht
  subst ht
  refine ⟨⟨rfl, holds.opened.settled.alone⟩, rfl, ?_⟩
  rw [← holds.opened.settled.flushed]
  refine (edits.trans noted).congr ?_
  exact congrArg (fun l : Lineage => (l.setRun fenced).note run eventType target none now)
    (holds.active moved)

/-- Both fences advance the store. -/
theorem fenceSession_ok (settled : s.Settled) (sound : s.rows.Sound limits s.clock)
    {lease : JobLease} {result : Run} (h : fenceSession lease s = .ok result t) :
    s.Advanced t ∧ ∃ u run job attempt now,
      FenceHolds limits s u lease .preparing run job attempt now := by
  obtain ⟨u, run, job, attempt, now, holds, settled', hclock, edits⟩ :=
    fenceAttempt_ok settled sound rfl h
  refine ⟨?_, u, run, job, attempt, now, holds⟩
  refine ⟨settled', hclock ▸ holds.opened.clock, holds.opened.evolves.trans (.of_edits edits ?_)⟩
  exact .single (.fenceSession now holds.valid.runs holds.status)

theorem fenceDispatch_ok (settled : s.Settled) (sound : s.rows.Sound limits s.clock)
    {lease : JobLease} {result : Run} (h : fenceDispatch lease s = .ok result t) :
    s.Advanced t ∧ ∃ u run job attempt now,
      FenceHolds limits s u lease .sessionFenced run job attempt now := by
  obtain ⟨u, run, job, attempt, now, holds, settled', hclock, edits⟩ :=
    fenceAttempt_ok settled sound rfl h
  refine ⟨?_, u, run, job, attempt, now, holds⟩
  refine ⟨settled', hclock ▸ holds.opened.clock, holds.opened.evolves.trans (.of_edits edits ?_)⟩
  exact .single (.fenceDispatch now holds.valid.runs holds.status)

theorem heartbeatGuard_ok (settled : s.Settled) (sound : s.rows.Sound limits s.clock)
    {lease : JobLease} {leaseDuration : Int} {job : Job} {now : Time}
    (h : heartbeatGuard lease leaseDuration s = .ok (job, now) t) :
    s.Opened t ∧ s.rows.quarantined = false ∧ s.rows.Honours lease ∧ job.id = lease.jobId ∧
      job.status = .leased ∧ ∃ run, run.id = lease.runId ∧
        (t.rows.lineage run.id).Valid limits run job := by
  unfold heartbeatGuard at h
  rw [bind_eq_ok] at h
  obtain ⟨⟨⟩, v, hv, h⟩ := h
  obtain ⟨-, rfl⟩ := raiseIf_eq_ok.mp hv
  rw [bind_eq_ok] at h
  obtain ⟨state, u, hu, h⟩ := h
  obtain ⟨opened, -, epoch, quarantine⟩ := executionState_ok settled hu
  rw [bind_eq_ok] at h
  obtain ⟨⟨run, job'⟩, w, hw, h⟩ := h
  obtain ⟨rfl, hrun, -, hjob, valid⟩ :=
    lockedLeaseLineage_ok opened.settled (opened.advanced.sound sound) hw
  dsimp only at h
  rw [bind_eq_ok] at h
  obtain ⟨now', y, hy, h⟩ := h
  obtain ⟨hnow, hr, ho, hc, -, hclock⟩ := durableNow_eq_ok hy
  rw [bind_eq_ok] at h
  obtain ⟨⟨⟩, z, hz, h⟩ := h
  obtain ⟨guard, rfl⟩ := raiseIf_eq_ok.mp hz
  simp only [not_or, Bool.not_eq_true, ne_eq, not_not, Bool.not_eq_false] at guard
  obtain ⟨released, hepoch, leased, -, -⟩ := guard
  rw [bind_eq_ok] at h
  obtain ⟨⟨⟩, z, hz, h⟩ := h
  obtain ⟨-, rfl⟩ := raiseIf_eq_ok.mp hz
  injection h with hp ht
  obtain ⟨rfl, rfl⟩ := Prod.mk.inj hp
  subst ht
  have opened' := opened.trans (opened.settled.opened hr ho hc hclock)
  rw [← hr] at valid
  exact ⟨opened', quarantine ▸ released,
    honours_of_leasedTo opened' valid hrun hjob leased (epoch ▸ hepoch), hjob,
    (leasedTo_iff.mp leased).1, run, hrun, valid⟩

/-- A heartbeat moves the expiry of the lease and nothing else. -/
theorem heartbeat_ok (settled : s.Settled) (sound : s.rows.Sound limits s.clock)
    {lease renewed : JobLease} {leaseDuration : Int}
    (h : heartbeat lease leaseDuration s = .ok renewed t) :
    s.Advanced t ∧ s.rows.quarantined = false ∧ s.rows.Honours lease ∧
      renewed = { lease with expiresAt := renewed.expiresAt, workspaceId := renewed.workspaceId } := by
  unfold heartbeat at h
  rw [bind_eq_ok] at h
  obtain ⟨⟨job, now⟩, u, hu, h⟩ := h
  obtain ⟨opened, released, honours, hjob, leased, run, hrun, valid⟩ :=
    heartbeatGuard_ok settled sound hu
  dsimp only at h
  rw [bind_of_ok (assign_apply _ _), bind_of_ok (flush_apply _)] at h
  injection h with hl ht
  subst ht
  have runId : job.runId = run.id := valid.runId
  have edits := Store.edits_setJob u.objects run.id (fun j => { j with
    leaseExpiresAt := some (min (now + leaseDuration) job.deadline) }) fun _ => rfl
  rw [opened.settled.flushed] at edits
  refine ⟨⟨⟨rfl, opened.settled.alone⟩, opened.clock, opened.evolves.trans ?_⟩, released, honours,
    ?_⟩
  · simp only [opened.settled.flushed, runId]
    exact .of_edits edits (.single (.renew _ valid.jobs leased (min_le_right _ _)))
  · rw [← hl, hjob, runId, hrun]

/-! ## Completion -/

/-- The completions a worker may report are ends of its run. -/
theorem mayEnd_of_validWorkerCompletion {run : Run} {attempt : RunAttempt} {status : RunStatus}
    {code : Option RunFailureCode} (live : run.status.terminal = false)
    (h : validWorkerCompletion run attempt status code = true) :
    MayEnd run.status status code := by
  refine ⟨live, ?_⟩
  unfold validWorkerCompletion at h
  rw [Bool.and_eq_true] at h
  obtain ⟨-, h⟩ := h
  cases status with
  | queued | preparing | sessionFenced | dispatchFenced | timedOut => cases h
  | succeeded | indeterminate =>
    simp only [Bool.and_eq_true, beq_iff_eq] at h
    exact h.1
  | cancelled =>
    simp only [Bool.and_eq_true, Bool.or_eq_true, beq_iff_eq] at h
    obtain ⟨⟨-, hs | hs⟩, -⟩ := h <;> simp [hs]
  | failed =>
    dsimp only at h ⊢
    split at h <;> simp_all [RunFailureCode.afterDispatch, RunFailureCode.beforeDispatch]

theorem completionGuard_ok (settled : s.Settled) (sound : s.rows.Sound limits s.clock)
    {lease : JobLease} {status : RunStatus} {code : Option RunFailureCode} {run : Run} {job : Job}
    {now : Time} (h : completionGuard lease status code s = .ok (run, job, now) t) :
    s.Opened t ∧ s.rows.Honours lease ∧ run.status.terminal = false ∧ run.createdAt ≤ now ∧
      run.id = lease.runId ∧ (t.rows.lineage run.id).Valid limits run job := by
  unfold completionGuard at h
  rw [bind_eq_ok] at h
  obtain ⟨⟨⟩, v, hv, h⟩ := h
  obtain ⟨-, rfl⟩ := raiseIf_eq_ok.mp hv
  rw [bind_eq_ok] at h
  obtain ⟨⟨⟩, v, hv, h⟩ := h
  obtain ⟨-, rfl⟩ := raiseIf_eq_ok.mp hv
  rw [bind_eq_ok] at h
  obtain ⟨state, u, hu, h⟩ := h
  obtain ⟨opened, -, epoch, -⟩ := executionState_ok settled hu
  rw [bind_eq_ok] at h
  obtain ⟨⟨run', job'⟩, w, hw, h⟩ := h
  obtain ⟨rfl, hrun, hcreated, hjob, valid⟩ :=
    lockedLeaseLineage_ok opened.settled (opened.advanced.sound sound) hw
  dsimp only at h
  rw [bind_eq_ok] at h
  obtain ⟨now', y, hy, h⟩ := h
  obtain ⟨hnow, hr, ho, hc, -, hclock⟩ := durableNow_eq_ok hy
  rw [bind_eq_ok] at h
  obtain ⟨⟨⟩, z, hz, h⟩ := h
  obtain ⟨guard, rfl⟩ := raiseIf_eq_ok.mp hz
  simp only [not_or, ne_eq, not_not, Bool.not_eq_false] at guard
  obtain ⟨hepoch, leased⟩ := guard
  rw [bind_eq_ok] at h
  obtain ⟨⟨⟩, z, hz, h⟩ := h
  obtain ⟨live, rfl⟩ := raiseIf_eq_ok.mp hz
  injection h with hp ht
  obtain ⟨rfl, rfl, rfl⟩ : run' = run ∧ job' = job ∧ now' = now := by simpa using hp
  subst ht
  have opened' := opened.trans (opened.settled.opened hr ho hc hclock)
  rw [← hr] at valid
  exact ⟨opened', honours_of_leasedTo opened' valid hrun hjob leased (epoch ▸ hepoch),
    Bool.not_eq_true _ ▸ live, hcreated.trans (hnow ▸ hclock), hrun, valid⟩

/-- `_terminalize_run` followed by a flush, in a session with nothing else pending. -/
theorem terminalizeRun_flush (settled : s.Settled) {run : Run} {job : Job}
    (valid : (s.rows.lineage run.id).Valid limits run job) {status : RunStatus} {now : Time}
    {code : RunFailureCode} (eventType : RunEventType)
    (ends : MayEnd run.status status (some code)) (neutral : eventType.neutral = true)
    (other : eventType ≠ .contentExpired) (created : run.createdAt ≤ now) :
    ∃ o, terminalizeRun run status now code eventType s = .ok () { s with objects := o } ∧
      s.Advanced { s with rows := o, objects := o } ∧
      s.rows.Edits run.id (fun l => l.finish run status (some code) eventType now) o := by
  obtain ⟨o, ho, edits⟩ := terminalizeRun_ok valid (settled.synced _) ends.terminal now code
    eventType
  rw [settled.flushed] at edits
  refine ⟨o, ho, ⟨⟨rfl, settled.alone⟩, le_refl _, .of_edits edits ?_⟩, edits⟩
  exact .single (.finish eventType now valid.runs ends neutral other created)

/-- How a run that meets its deadline ends. -/
theorem mayEnd_deadline {status : RunStatus} (live : status.terminal = false)
    (code : Option RunFailureCode) : MayEnd status (deadlineStatus status) code := by
  refine ⟨live, ?_⟩
  unfold deadlineStatus
  split_ifs with hs <;> exact hs

theorem completeLate_ok (settled : s.Settled) {run result : Run} {job : Job} {now : Time}
    (valid : (s.rows.lineage run.id).Valid limits run job) (live : run.status.terminal = false)
    (created : run.createdAt ≤ now) (h : completeLate run now s = .ok result t) :
    s.Advanced t ∧ result.id = run.id ∧ (t.rows.lineage run.id).runs = [result] ∧
      (t.rows.lineage run.id).results = [] := by
  obtain ⟨o, ho, advanced, edits⟩ := terminalizeRun_flush settled valid .terminal
    (mayEnd_deadline live (some .deadlineExceeded)) rfl nofun created
  unfold completeLate at h
  rw [bind_of_ok ho, bind_of_ok (flush_apply _)] at h
  injection h with hr ht
  subst hr ht
  refine ⟨advanced, rfl, ?_, ?_⟩
  · simp [edits.self, Lineage.finish_runs, valid.runs]
  · rw [edits.self]
    exact valid.unanswered (RunStatus.ne_succeeded_of_live live)

/-- The writes of an accepted completion end the run. -/
theorem completeRun_ok (settled : s.Settled) {run result : Run} {job : Job}
    {attempt : RunAttempt} {status : RunStatus} {code : Option RunFailureCode} {now : Time}
    (valid : (s.rows.lineage run.id).Valid limits run job) (attemptRun : attempt.runId = run.id)
    (active : ∀ f, (s.objects.lineage run.id).setAttempt attempt.sequence f =
      (s.objects.lineage run.id).settle f)
    (ends : MayEnd run.status status code) (created : run.createdAt ≤ now)
    (h : completeRun run job attempt status code now s = .ok result t) :
    s.Advanced t ∧ result.id = run.id ∧ (t.rows.lineage run.id).runs = [result] ∧
      (t.rows.lineage run.id).results = [] := by
  unfold completeRun at h
  rw [attemptRun, bind_of_ok (assign_apply _ _), bind_of_ok (assign_apply _ _)] at h
  let ended : Run → Run := fun r =>
    { r with status := status, safeErrorCode := code, updatedAt := now, terminalAt := some now }
  let closed : RunAttempt → RunAttempt := fun a =>
    { a with status := status, safeErrorCode := code, terminalAt := some now }
  have edits := (Store.edits_setRun s.objects run.id ended fun _ => rfl).trans
    (Store.edits_setAttempt (s.objects.setRun run.id ended) run.id attempt.sequence closed
      fun _ => rfl)
  obtain ⟨o, ho, jobEdits⟩ := terminalizeJob_ok ends.terminal now job
    { s with objects := (s.objects.setRun run.id ended).setAttempt run.id attempt.sequence closed }
  rw [valid.runId] at jobEdits
  have edits' := edits.trans jobEdits
  obtain ⟨o', ho', noted⟩ := appendNextEvent_ok (s := { s with objects := o })
    valid.journal.numbered (by rw [edits'.self, settled.flushed]; rfl) .terminal status code now
  rw [bind_of_ok ho, bind_of_ok ho', bind_of_ok (flush_apply _)] at h
  injection h with hr ht
  subst hr ht
  have all : s.rows.Edits run.id (fun l => l.finish run status code .terminal now) o' := by
    rw [← settled.flushed]
    refine (edits'.trans noted).congr ?_
    exact congrArg (fun l : Lineage => ((l.setRun ended).setJob fun j =>
      { j with status := status.jobStatus, leaseOwner := none, leaseExpiresAt := none,
               completedAt := some now }).note run .terminal status code now) (active closed)
  exact ⟨⟨⟨rfl, settled.alone⟩, le_refl _,
    .of_edits all (.single (.finish .terminal now valid.runs ends rfl nofun created))⟩, rfl,
    by simp [all.self, Lineage.finish_runs, valid.runs],
    by rw [all.self]; exact valid.unanswered (RunStatus.ne_succeeded_of_live ends.1)⟩

theorem completeInTime_ok (settled : s.Settled) {lease : JobLease} {run result : Run} {job : Job}
    {status : RunStatus} {code : Option RunFailureCode} {now : Time}
    (valid : (s.rows.lineage run.id).Valid limits run job) (live : run.status.terminal = false)
    (created : run.createdAt ≤ now)
    (h : completeInTime lease run job status code now s = .ok result t) :
    s.Advanced t ∧ result.id = run.id ∧ (t.rows.lineage run.id).runs = [result] ∧
      (t.rows.lineage run.id).results = [] := by
  unfold completeInTime at h
  rw [bind_eq_ok] at h
  obtain ⟨⟨⟩, v, hv, h⟩ := h
  obtain ⟨-, rfl⟩ := raiseIf_eq_ok.mp hv
  cases attempting : run.status.attempting with
  | false =>
    -- a run that is not attempted has no attempt to complete
    rw [bind_of_ok (activeAttempt_idle valid (by rw [settled.flushed]) attempting).1] at h
    cases h
  | true =>
    obtain ⟨a, ha, attemptRun, -, -, -, active⟩ := activeAttempt_ok valid
      (by rw [settled.flushed]) attempting
    rw [bind_of_ok ha] at h
    dsimp only at h
    rw [bind_eq_ok] at h
    obtain ⟨⟨⟩, v, hv, h⟩ := h
    obtain ⟨-, rfl⟩ := raiseIf_eq_ok.mp hv
    rw [bind_eq_ok] at h
    obtain ⟨⟨⟩, v, hv, h⟩ := h
    obtain ⟨accepted, rfl⟩ := raiseIf_eq_ok.mp hv
    have ends := mayEnd_of_validWorkerCompletion live (by simpa using accepted)
    exact completeRun_ok settled valid attemptRun active ends created h

theorem completeLease_ok (settled : s.Settled) (sound : s.rows.Sound limits s.clock)
    {lease : JobLease} {status : RunStatus} {code : Option RunFailureCode} {result : Run}
    (h : completeLease lease status code s = .ok result t) :
    s.Advanced t ∧ s.rows.Honours lease ∧ (t.rows.lineage result.id).runs = [result] ∧
      (t.rows.lineage result.id).results = [] := by
  unfold completeLease at h
  rw [bind_eq_ok] at h
  obtain ⟨⟨run, job, now⟩, u, hu, h⟩ := h
  obtain ⟨opened, honours, live, created, -, valid⟩ := completionGuard_ok settled sound hu
  dsimp only at h
  split_ifs at h with late
  · obtain ⟨advanced, hid, kept⟩ := completeLate_ok opened.settled valid live created h
    exact ⟨opened.advanced.trans advanced, honours, hid ▸ kept⟩
  · obtain ⟨advanced, hid, kept⟩ := completeInTime_ok opened.settled valid live created h
    exact ⟨opened.advanced.trans advanced, honours, hid ▸ kept⟩

/-- The accepted content is kept beside the run. -/
theorem addAcceptedResult_ok (settled : s.Settled) {service : ExecutionService} {run result : Run}
    {accepted : AcceptedToolResult} (runs : (s.rows.lineage run.id).runs = [run])
    (succeeded : run.status = .succeeded) (ended : run.terminalAt.isSome = true)
    (none : (s.rows.lineage run.id).results = [])
    (h : service.addAcceptedResult run accepted s = .ok result t) : s.Advanced t := by
  unfold ExecutionService.addAcceptedResult at h
  rw [bind_eq_ok] at h
  obtain ⟨capturedAt, u, hu, h⟩ := h
  obtain ⟨terminalAt, hterminal⟩ := Option.isSome_iff_exists.mp ended
  rw [captureTime, hterminal] at hu
  cases hu
  rw [bind_of_ok (assign_apply _ _), bind_of_ok (flush_apply _)] at h
  injection h with _ ht
  subst ht
  have edits := Store.edits_addResult s.objects
    { runId := run.id, workspaceId := run.workspaceId, payload := accepted.payload,
      canonicalDigest := accepted.canonicalDigest, byteCount := accepted.byteCount, capturedAt,
      expiresAt := capturedAt + days service.limits.resultRetentionDays }
  refine ⟨⟨rfl, settled.alone⟩, le_refl _, ?_⟩
  rw [settled.flushed] at edits ⊢
  exact .of_edits edits (.single (.keepResult _ runs succeeded hterminal none))

theorem completeInvocationSuccess_ok (settled : s.Settled)
    (sound : s.rows.Sound limits s.clock) {service : ExecutionService} {P : Platform}
    {lease : JobLease} {accepted : AcceptedToolResult} {result : Run}
    (h : service.completeInvocationSuccess P lease accepted s = .ok result t) :
    s.Advanced t ∧ s.rows.Honours lease := by
  unfold ExecutionService.completeInvocationSuccess at h
  rw [bind_eq_ok] at h
  obtain ⟨⟨⟩, v, hv, h⟩ := h
  obtain ⟨-, rfl⟩ := raiseIf_eq_ok.mp hv
  rw [bind_eq_ok] at h
  obtain ⟨run, u, hu, h⟩ := h
  obtain ⟨advanced, honours, runs, none⟩ := completeLease_ok settled sound hu
  split_ifs at h with hs
  · injection h with _ ht
    exact ⟨ht ▸ advanced, honours⟩
  · have succeeded := not_not.mp hs
    have ended : run.terminalAt.isSome = true := by
      rcases advanced.sound sound run.id with he | ⟨row, job, valid, -⟩
      · simp [he, Lineage.empty] at runs
      · rw [valid.eq_run runs, ← valid.ended, ← valid.eq_run runs, succeeded]
        rfl
    exact ⟨advanced.trans (addAcceptedResult_ok advanced.settled runs succeeded ended none h),
      honours⟩

/-! ## Cancellation -/

theorem lockedRun_ok (settled : s.Settled) (sound : s.rows.Sound limits s.clock)
    {workspaceId runId : Uuid} {run : Run} (h : lockedRun workspaceId runId s = .ok run t) :
    t = s ∧ run.createdAt ≤ s.clock ∧ ∃ job, (s.rows.lineage run.id).Valid limits run job := by
  unfold lockedRun at h
  rw [bind_eq_ok] at h
  obtain ⟨found, u, hu, h⟩ := h
  cases found with
  | none => cases h
  | some found =>
    injection h with hr ht
    subst hr ht
    obtain ⟨rfl, -, created, job, valid⟩ := lockRun_ok settled sound hu
    exact ⟨rfl, created, job, valid⟩

/-- An active run is ended by its cancellation, or keeps its dispatch and notes the request. -/
theorem cancelActive_ok {run : Run} {job : Job} (now : Time)
    (valid : (s.rows.lineage run.id).Valid limits run job)
    (marked : s.objects.lineage run.id = (s.rows.lineage run.id).setRun fun r =>
      { r with cancellationRequested := true })
    (live : run.status.terminal = false) (created : run.createdAt ≤ now) :
    ∃ o g, cancelActive run now s = .ok () { s with objects := o } ∧
      s.objects.Edits run.id g o ∧
      Lineage.Steps (s.objects.lineage run.id) (g (s.objects.lineage run.id)) := by
  have sync : s.Synced run.id := ⟨by rw [marked]; rfl, by rw [marked]; rfl, by rw [marked]; rfl⟩
  have runs : (s.objects.lineage run.id).runs = [{ run with cancellationRequested := true }] := by
    rw [marked]
    simp [Lineage.setRun, valid.runs]
  unfold cancelActive
  split_ifs with late undispatched
  · have ends := mayEnd_deadline live (some .deadlineExceeded)
    obtain ⟨o, ho, edits⟩ := terminalizeRun_ok valid sync ends.terminal now .deadlineExceeded
      .terminal
    have step := Lineage.Step.finish .terminal now runs ends rfl (fun h => by cases h) created
    exact ⟨o, _, ho, edits, .single step⟩
  · have ends : MayEnd run.status .cancelled (some .cancelledBeforeDispatch) := by
      refine ⟨live, ?_⟩
      rintro heq
      rw [heq] at undispatched
      cases undispatched
    obtain ⟨o, ho, edits⟩ := terminalizeRun_ok valid sync ends.terminal now
      .cancelledBeforeDispatch .cancelRequested
    have step := Lineage.Step.finish .cancelRequested now runs ends rfl (fun h => by cases h)
      created
    exact ⟨o, _, ho, edits, .single step⟩
  · have touched := Store.edits_setRun s.objects run.id (fun r => { r with updatedAt := now })
      fun _ => rfl
    obtain ⟨o, ho, noted⟩ := appendNextEvent_ok
      (s := { s with objects := s.objects.setRun run.id fun r => { r with updatedAt := now } })
      valid.journal.numbered (by rw [touched.self]; exact sync.events) .cancelRequested run.status none now
    refine ⟨o, _, (bind_of_ok (assign_apply _ _)).trans ho, touched.trans noted, ?_⟩
    refine .tail (.single (.touch now (by simp [runs]))) ?_
    have runs' : ((s.objects.lineage run.id).setRun fun r => { r with updatedAt := now }).runs =
        [{ run with cancellationRequested := true, updatedAt := now }] := by
      simp [Lineage.setRun, runs]
    have step := Lineage.Step.remark .cancelRequested none now runs' rfl fun h => by cases h
    exact step

theorem cancelRun_ok (settled : s.Settled) (sound : s.rows.Sound limits s.clock)
    {context : WorkspaceContext} {runId correlationId : Uuid} {result : Run}
    (h : cancelRun context runId correlationId s = .ok result t) : s.Advanced t := by
  unfold cancelRun at h
  rw [bind_eq_ok] at h
  obtain ⟨⟨⟩, u, hu, h⟩ := h
  obtain ⟨opened, -⟩ := Reads.opened (.requireCurrentRole _ _ _) settled hu
  rw [bind_eq_ok] at h
  obtain ⟨run, v, hv, h⟩ := h
  obtain ⟨rfl, created, job, valid⟩ :=
    lockedRun_ok opened.settled (opened.advanced.sound sound) hv
  rw [bind_eq_ok] at h
  obtain ⟨⟨⟩, w, hw, h⟩ := h
  obtain ⟨opened', hrows⟩ := Reads.opened (.requireCurrentRole _ _ _) opened.settled hw
  split_ifs at h with terminal
  · injection h with _ ht
    exact ht ▸ (opened.trans opened').advanced
  · rw [bind_eq_ok] at h
    obtain ⟨now, x, hx, h⟩ := h
    obtain ⟨hnow, hr, ho, hc, -, hclock⟩ := durableNow_eq_ok hx
    have settled' : x.Settled := ⟨by rw [ho, hr, opened'.settled.flushed],
      hc.trans opened'.settled.alone⟩
    rw [← hrows, ← hr] at valid
    have marked := Store.edits_setRun x.objects run.id
      (fun r => { r with cancellationRequested := true }) fun _ => rfl
    obtain ⟨o, g, hcancel, edits, steps⟩ := cancelActive_ok
      (s := { x with objects := x.objects.setRun run.id fun r =>
        { r with cancellationRequested := true } })
      now valid (by rw [marked.self, settled'.flushed]) (by simpa using terminal)
      (created.trans (opened'.clock.trans (hnow ▸ hclock)))
    rw [bind_of_ok (assign_apply _ _), bind_of_ok hcancel] at h
    rw [show mappedRun run = query fun s =>
      (s.objects.runs.find? fun r => r.id == run.id).getD run from rfl,
      bind_of_ok (query_apply _ _), bind_of_ok (assign_apply _ _), bind_of_ok (flush_apply _)] at h
    injection h with _ ht
    subst ht
    refine (opened.trans opened').advanced.trans
      ⟨⟨rfl, settled'.alone⟩, hclock, ?_⟩
    have all := marked.trans edits
    rw [settled'.flushed, hr] at all
    refine .trans (.of_edits all (.head (.requestCancel ?_) ?_)) ⟨rfl, .inl rfl, fun _ => .refl⟩
    · rw [← hr, valid.runs]
      simp
    · rw [marked.self, settled'.flushed, hr] at steps
      exact steps

end Leases
end Modall
