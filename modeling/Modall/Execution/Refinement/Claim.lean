import Modall.Execution.Refinement.Leasing

/-!
# Claiming a job takes steps of its runs

`claim_job` ends the runs it finds past their deadline, ends the dispatches it finds abandoned,
and then ends or leases one run. Each of the three parts starts from what the part before it
has flushed.
-/
namespace Modall
open Library

variable {limits : ExecutionLimits} {clock : Time} {s t : Session}

/-! ## The reconciliation passes -/

/-- A run whose job is queued or leased has not ended. -/
theorem live_of_jobStatus {status : RunStatus}
    (h : status.jobStatus = .queued ∨ status.jobStatus = .leased) : status.terminal = false := by
  cases status <;> simp [RunStatus.jobStatus, RunStatus.terminal] at *

theorem terminalizeExpiredJobs_ok (settled : s.Settled) (sound : s.rows.Sound limits clock)
    (service : ExecutionService) {now : Time} (later : clock ≤ now)
    {reconciled : List ReconciledJob}
    (h : service.terminalizeExpiredJobs now s = .ok reconciled t) :
    s.Advanced { t with rows := t.objects } := by
  unfold ExecutionService.terminalizeExpiredJobs at h
  obtain ⟨rows, hrows, distinct, each⟩ := lockRunJobs_ok settled.alone sound (pastDeadline now)
    beforeDeadline service.limits.reconciliationBatchSize.toNat
  rw [bind_of_ok hrows] at h
  obtain ⟨o, ho, evolves⟩ := terminalizeEach_ok settled.flushed (fun row : Run × Job => row.1)
    (fun row => deadlineStatus row.1.status) now .deadlineExceeded .terminal rfl nofun distinct (by
      intro row mem
      obtain ⟨past, created, valid⟩ := each row mem
      refine ⟨mayEnd_deadline (live_of_jobStatus ?_) _, created.trans later, row.2, valid⟩
      rw [← valid.status]
      simp only [pastDeadline, Bool.and_eq_true, Bool.or_eq_true, beq_iff_eq] at past
      exact past.1)
  rw [bind_of_ok ho] at h
  injection h with _ ht
  subst ht
  exact settled.advanced evolves

theorem terminalizeAbandonedDispatches_ok (settled : s.Settled)
    (sound : s.rows.Sound limits clock) (service : ExecutionService) {now : Time}
    (later : clock ≤ now) {reconciled : List ReconciledJob}
    (h : service.terminalizeAbandonedDispatches now s = .ok reconciled t) : s.Advanced t := by
  unfold ExecutionService.terminalizeAbandonedDispatches at h
  obtain ⟨rows, hrows, distinct, each⟩ := lockRunJobs_ok settled.alone sound
    (abandonedDispatch now) beforeLeaseExpiry service.limits.reconciliationBatchSize.toNat
  rw [bind_of_ok hrows] at h
  obtain ⟨o, ho, evolves⟩ := terminalizeEach_ok settled.flushed (fun row : Run × Job => row.1)
    (fun _ => .indeterminate) now .workerLostAfterDispatch .terminal rfl nofun distinct (by
      intro row mem
      obtain ⟨abandoned, created, valid⟩ := each row mem
      simp only [abandonedDispatch, Bool.and_eq_true, beq_iff_eq] at abandoned
      exact ⟨⟨by rw [abandoned.2]; rfl, abandoned.2⟩, created.trans later, row.2, valid⟩)
  rw [bind_of_ok ho, bind_of_ok (flush_apply _)] at h
  injection h with _ ht
  subst ht
  exact settled.advanced evolves

/-! ## The claim itself -/

/-- The run has been leased by this lease. -/
structure Leases (limits : ExecutionLimits) (s t : Store) (lease : JobLease) (run : Run)
    (job : Job) : Prop where
  valid : (s.lineage run.id).Valid limits run job
  jobId : lease.jobId = job.id
  runId : lease.runId = run.id
  leaseEpoch : lease.leaseEpoch = job.leaseEpoch + 1
  executionEpoch : lease.executionEpoch = job.executionEpoch
  leased : ∃ job', (t.lineage run.id).jobs = [job'] ∧ job'.id = job.id ∧
    job'.leaseEpoch = lease.leaseEpoch ∧ job'.status = .leased

/-- Granting a lease, on rows whose attempts and events are numbered. -/
theorem grantLease_ok (settled : s.Settled) {run : Run} {job : Job} (workerId : String)
    (leaseDuration : Int) (now : Time) (runId : job.runId = run.id)
    (attempts : Numbered RunAttempt.sequence (s.rows.lineage run.id).attempts)
    (events : Numbered RunEvent.sequence (s.rows.lineage run.id).events) :
    ∃ o, grantLease run job workerId leaseDuration now s =
        .ok { jobId := job.id, runId := job.runId, workspaceId := job.workspaceId,
              correlationId := run.correlationId, workerId, leaseEpoch := job.leaseEpoch + 1,
              executionEpoch := job.executionEpoch,
              expiresAt := min (now + leaseDuration) job.deadline }
          { s with rows := o, objects := o } ∧
      s.rows.Edits run.id (fun l => l.grant run job workerId
        (min (now + leaseDuration) job.deadline) now) o := by
  let expiresAt := min (now + leaseDuration) job.deadline
  let leased : Job → Job := fun j =>
    { j with status := .leased, leaseOwner := some workerId, leaseEpoch := j.leaseEpoch + 1,
             leaseExpiresAt := some expiresAt }
  let attempt : RunAttempt :=
    { workspaceId := run.workspaceId, runId := run.id, jobId := job.id,
      sequence := (s.rows.lineage run.id).attempts.length + 1, leaseEpoch := job.leaseEpoch + 1,
      status := .preparing, startedAt := now, terminalAt := none, safeErrorCode := none }
  let preparing : Run → Run := fun r => { r with status := .preparing, updatedAt := now }
  have number : maximum ((s.rows.attempts.filter fun a => a.runId == run.id).map
      RunAttempt.sequence) = (s.rows.lineage run.id).attempts.length := attempts.maximum_eq
  have edits := ((Store.edits_setJob s.rows run.id leased fun _ => rfl).trans
    (Store.edits_addAttempt (s.rows.setJob run.id leased) attempt)).trans
    (Store.edits_setRun ((s.rows.setJob run.id leased).addAttempt attempt) run.id preparing
      fun _ => rfl)
  obtain ⟨o, ho, noted⟩ := appendNextEvent_ok
    (s := { s with
      objects := ((s.rows.setJob run.id leased).addAttempt attempt).setRun run.id preparing })
    events (by rw [edits.self]; rfl) .attemptStarted .preparing none now
  refine ⟨o, ?_, (edits.trans noted).congr rfl⟩
  unfold grantLease
  rw [bind_of_ok (assign_apply _ _), bind_of_ok (query_apply _ _), bind_of_ok (assign_apply _ _),
    bind_of_ok (assign_apply _ _)]
  simp only [number, runId, settled.flushed]
  rw [bind_of_ok ho, bind_of_ok (flush_apply _)]
  rfl

/-- Closing the previous attempt of a reclaimed job. A queued run has none. What is left is
ready for the next attempt. -/
theorem reclaim_ok (settled : s.Settled) {run : Run} {job : Job} (now : Time)
    (valid : (s.rows.lineage run.id).Valid limits run job)
    (claimable : run.status.claimable = true) :
    ∃ u g, reclaim run job now s = .ok () u ∧ u.Settled ∧ u.clock = s.clock ∧
      s.rows.Edits run.id g u.rows ∧ (g (s.rows.lineage run.id)).jobs = [job] ∧
      Numbered RunAttempt.sequence (g (s.rows.lineage run.id)).attempts ∧
      Numbered RunEvent.sequence (g (s.rows.lineage run.id)).events ∧
      ∀ workerId expiresAt, expiresAt ≤ job.deadline → Lineage.Step (s.rows.lineage run.id)
        ((g (s.rows.lineage run.id)).grant run job workerId expiresAt now) := by
  unfold reclaim
  by_cases leased : job.status = .leased
  · have undispatched : run.status ≠ .dispatchFenced := by
      intro heq
      rw [heq] at claimable
      cases claimable
    have attempting : run.status.attempting = true := by
      have := valid.status
      rw [leased] at this
      revert this
      cases run.status <;> simp [RunStatus.jobStatus, RunStatus.attempting]
    obtain ⟨a, ha, attemptRun, -, -, -, active⟩ := activeAttempt_ok valid
      (by rw [settled.flushed]) attempting
    let lost : RunAttempt → RunAttempt := fun a =>
      { a with status := .failed, safeErrorCode := some .workerLostBeforeDispatch,
               terminalAt := some now }
    have edits : s.objects.Edits run.id (fun l => l.settle lost)
        (s.objects.setAttempt run.id a.sequence lost) :=
      (Store.edits_setAttempt s.objects run.id a.sequence lost fun _ => rfl).congr (active lost)
    obtain ⟨o, ho, noted⟩ := appendNextEvent_ok
      (s := { s with objects := s.objects.setAttempt run.id a.sequence lost })
      valid.journal.numbered (by rw [edits.self, settled.flushed]; rfl) .leaseLost run.status
      (some .workerLostBeforeDispatch) now
    have all := edits.trans noted
    rw [settled.flushed] at all
    refine ⟨{ s with rows := o, objects := o }, fun l => l.lose run now, ?_,
      ⟨rfl, settled.alone⟩, rfl, all, valid.jobs, ?_, ?_, ?_⟩
    · rw [runIf_pos leased, bind_of_ok ha, runSome_some]
      unfold loseLease
      rw [attemptRun, bind_of_ok (assign_apply _ _), bind_of_ok ho]
      rfl
    · exact valid.numbered.updateWhere fun _ _ => rfl
    · exact valid.journal.numbered.append rfl
    · intro workerId expiresAt bounded
      exact .restart workerId expiresAt now valid.runs valid.jobs attempting undispatched bounded
  · have queued : run.status = .queued := by
      have := valid.status
      revert leased claimable
      rw [this]
      cases run.status <;> simp [RunStatus.jobStatus, RunStatus.claimable]
    refine ⟨s, fun l => l, ?_, settled, rfl, ⟨rfl, rfl, rfl, fun _ _ => rfl⟩, valid.jobs,
      valid.numbered, valid.journal.numbered, ?_⟩
    · rw [runIf_neg leased]
      rfl
    · intro workerId expiresAt bounded
      exact .start workerId expiresAt now valid.runs valid.jobs queued bounded

/-- The locked run is leased: its previous attempt is closed and the next one starts. -/
theorem leaseRun_ok (settled : s.Settled) {run : Run} {job : Job} {workerId : String}
    {leaseDuration : Int} {now : Time} {lease : JobLease}
    (valid : (s.rows.lineage run.id).Valid limits run job)
    (claimable : run.status.claimable = true)
    (h : (do reclaim run job now; grantLease run job workerId leaseDuration now) s =
      .ok lease t) :
    s.Advanced t ∧ Leases limits s.rows t.rows lease run job := by
  obtain ⟨u, g, hu, settled', hclock, edits, jobs, attempts, events, step⟩ :=
    reclaim_ok settled now valid claimable
  rw [bind_of_ok hu] at h
  rw [← edits.self] at attempts events
  obtain ⟨o, ho, granted⟩ := grantLease_ok settled' workerId leaseDuration now
    valid.runId attempts events
  rw [ho] at h
  injection h with hl ht
  subst hl ht
  have all := edits.trans granted
  refine ⟨⟨⟨rfl, settled'.alone⟩, hclock.symm.le, .of_edits all ?_⟩, ?_⟩
  · exact .single (step workerId _ (min_le_right _ _))
  · refine ⟨valid, rfl, valid.runId, rfl, rfl, ?_⟩
    rw [all.self]
    refine ⟨{ job with status := .leased, leaseOwner := some workerId,
                       leaseEpoch := job.leaseEpoch + 1,
                       leaseExpiresAt := some (min (now + leaseDuration) job.deadline) }, ?_, rfl,
      rfl, rfl⟩
    change (g (s.rows.lineage run.id)).jobs.map _ = _
    rw [jobs]
    rfl

theorem endClaim_ok (settled : s.Settled) {run : Run} {job : Job} {status : RunStatus}
    {now : Time} {code : RunFailureCode} {reconciled : List ReconciledJob}
    {result : Option JobLease × List ReconciledJob}
    (valid : (s.rows.lineage run.id).Valid limits run job)
    (ends : MayEnd run.status status (some code)) (created : run.createdAt ≤ now)
    (h : endClaim run job status now code reconciled s = .ok result t) :
    s.Advanced t ∧ result.1 = none := by
  obtain ⟨o, ho, advanced, -⟩ := terminalizeRun_flush settled valid .terminal ends rfl nofun
    created
  unfold endClaim at h
  rw [bind_of_ok ho, bind_of_ok (flush_apply _)] at h
  injection h with hr ht
  subst hr ht
  exact ⟨advanced, rfl⟩

/-- A claimable run ends without a dispatch. -/
theorem mayEnd_of_claimable {status : RunStatus} (claimable : status.claimable = true) :
    MayEnd status .timedOut (some .deadlineExceeded) ∧
      MayEnd status .failed (some .preparationFailed) := by
  cases status <;> simp_all [RunStatus.claimable, MayEnd, RunStatus.terminal,
    RunFailureCode.beforeDispatch]

theorem claimLocked_ok (settled : s.Settled) {run : Run} {job : Job} {workerId : String}
    {leaseDuration : Int} {reconciled : List ReconciledJob}
    {result : Option JobLease × List ReconciledJob}
    (valid : (s.rows.lineage run.id).Valid limits run job)
    (claimable : run.status.claimable = true) (created : run.createdAt ≤ s.clock)
    (h : claimLocked run job workerId leaseDuration reconciled s = .ok result t) :
    s.Advanced t ∧ ∀ lease, result.1 = some lease →
      Leases limits s.rows t.rows lease run job ∧
      s.rows.registry.targetIsCurrent run = true := by
  obtain ⟨timesOut, fails⟩ := mayEnd_of_claimable claimable
  unfold claimLocked at h
  rw [bind_eq_ok] at h
  obtain ⟨now, u, hu, h⟩ := h
  obtain ⟨opened, hrows⟩ := Reads.opened .durableNow settled hu
  have created₁ : run.createdAt ≤ now := by
    rw [(durableNow_eq_ok hu).1]
    exact created.trans opened.clock
  rw [← hrows] at valid
  split_ifs at h with late
  · obtain ⟨advanced, hnone⟩ := endClaim_ok opened.settled valid timesOut created₁ h
    exact ⟨opened.advanced.trans advanced, by simp [hnone]⟩
  rw [show claimTargetIsCurrent run = query fun s => s.rows.registry.targetIsCurrent run from rfl,
    bind_of_ok (query_apply _ _), bind_eq_ok] at h
  obtain ⟨now₂, v, hv, h⟩ := h
  obtain ⟨opened₂, hrows₂⟩ := Reads.opened .durableNow opened.settled hv
  have created₂ : run.createdAt ≤ now₂ := by
    rw [(durableNow_eq_ok hv).1]
    exact created.trans (opened.clock.trans opened₂.clock)
  rw [← hrows₂] at valid
  have both := opened.trans opened₂
  split_ifs at h with late₂ stale
  · obtain ⟨advanced, hnone⟩ := endClaim_ok opened₂.settled valid timesOut created₂ h
    exact ⟨both.advanced.trans advanced, by simp [hnone]⟩
  · obtain ⟨advanced, hnone⟩ := endClaim_ok opened₂.settled valid fails created₂ h
    exact ⟨both.advanced.trans advanced, by simp [hnone]⟩
  · have hlease : ∃ lease, (reclaim run job now₂ >>= fun _ =>
          grantLease run job workerId leaseDuration now₂) v = .ok lease t ∧
        result = (some lease, reconciled) := by
      rw [bind_eq_ok] at h
      obtain ⟨⟨⟩, w, hw, h⟩ := h
      rw [bind_eq_ok] at h
      obtain ⟨lease, x, hx, h⟩ := h
      injection h with hr ht
      subst hr ht
      exact ⟨lease, (bind_of_ok hw).trans hx, rfl⟩
    obtain ⟨lease, hrun, rfl⟩ := hlease
    obtain ⟨advanced, leases⟩ := leaseRun_ok opened₂.settled valid claimable hrun
    refine ⟨both.advanced.trans advanced, ?_⟩
    rintro _ ⟨⟩
    rw [hrows₂, hrows] at leases
    exact ⟨leases, by rw [← hrows]; simpa using stale⟩

theorem lockClaimable_ok (settled : s.Settled) (sound : s.rows.Sound limits clock)
    {state : SystemExecutionState} {now : Time} {claimed : Option (Run × Job)}
    (h : lockClaimable state now s = .ok claimed t) :
    t = s ∧ ∀ run job, claimed = some (run, job) →
      (s.rows.lineage run.id).Valid limits run job ∧ run.createdAt ≤ clock ∧
        claimable state now run job = true := by
  unfold lockClaimable at h
  obtain ⟨rows, hrows, -, each⟩ := lockRunJobs_ok settled.alone sound (claimable state now)
    beforeCreation 1
  rw [bind_of_ok hrows] at h
  cases rows with
  | nil =>
    injection h with hc ht
    subst hc ht
    exact ⟨rfl, by simp⟩
  | cons row rest =>
    obtain ⟨hp, created, valid⟩ := each row (by simp)
    dsimp only [List.head?_cons] at h
    rw [bind_of_ok (jobOfRun_ok valid (by rw [settled.flushed]) rfl)] at h
    injection h with hc ht
    subst hc ht
    refine ⟨rfl, ?_⟩
    rintro run job ⟨⟩
    exact ⟨valid, created, hp⟩

/-- What a successful claim has established: it grants a lease on a run that was claimable in
the current epoch and whose pinned target is current. -/
structure ClaimGrants (limits : ExecutionLimits) (s t : Store) (lease : JobLease) (u : Store)
    (run : Run) (job : Job) : Prop where
  before : s.Evolves u
  after : u.Evolves t
  leases : Leases limits u t lease run job
  claimable : run.status.claimable = true
  epoch : job.executionEpoch = s.executionEpoch
  current : s.registry.targetIsCurrent run = true

theorem openClaim_ok (settled : s.Settled) {workerId : String} {leaseDuration : Int} {now : Time}
    {state : SystemExecutionState} (h : openClaim workerId leaseDuration s = .ok (now, state) t) :
    s.Opened t ∧ s.clock ≤ now ∧ state.executionEpoch = s.rows.executionEpoch ∧
      s.rows.quarantined = false := by
  unfold openClaim at h
  rw [bind_eq_ok] at h
  obtain ⟨⟨⟩, u, hu, h⟩ := h
  obtain ⟨-, hs⟩ := raiseIf_eq_ok.mp hu
  subst u
  rw [bind_eq_ok] at h
  obtain ⟨now', u, hu, h⟩ := h
  obtain ⟨opened, -⟩ := Reads.opened .durableNow settled hu
  have later := opened.clock
  rw [← (durableNow_eq_ok hu).1] at later
  rw [bind_eq_ok] at h
  obtain ⟨state', v, hv, h⟩ := h
  obtain ⟨opened₂, -, epoch, quarantine⟩ := executionState_ok opened.settled hv
  rw [bind_eq_ok] at h
  obtain ⟨⟨⟩, w, hw, h⟩ := h
  obtain ⟨released, rfl⟩ := raiseIf_eq_ok.mp hw
  injection h with hp ht
  obtain ⟨rfl, rfl⟩ := Prod.mk.inj hp
  subst ht
  refine ⟨opened.trans opened₂, later, epoch.trans opened.system.executionEpoch, ?_⟩
  rw [← opened.system.quarantined, ← quarantine]
  simpa using released

theorem sweepExpired_ok (settled : s.Settled) (sound : s.rows.Sound limits s.clock)
    {service : ExecutionService} {workerId : String} {leaseDuration : Int} {now : Time}
    {state : SystemExecutionState} {reconciled : List ReconciledJob}
    (h : service.sweepExpired workerId leaseDuration s = .ok (now, state, reconciled) t) :
    s.Advanced t ∧ s.clock ≤ now ∧ state.executionEpoch = s.rows.executionEpoch ∧
      s.rows.quarantined = false := by
  unfold ExecutionService.sweepExpired at h
  rw [bind_eq_ok] at h
  obtain ⟨⟨now', state'⟩, v, hv, h⟩ := h
  obtain ⟨opened, later, epoch, released⟩ := openClaim_ok settled hv
  dsimp only at h
  rw [bind_eq_ok] at h
  obtain ⟨expired, w, hw, h⟩ := h
  have advanced := terminalizeExpiredJobs_ok opened.settled (opened.evolves.sound sound) service
    later hw
  rw [bind_of_ok (flush_apply _)] at h
  injection h with hp ht
  obtain ⟨rfl, rest⟩ := Prod.mk.inj hp
  obtain ⟨rfl, rfl⟩ := Prod.mk.inj rest
  subst ht
  exact ⟨opened.advanced.trans advanced, later, epoch, released⟩

theorem sweep_ok (settled : s.Settled) (sound : s.rows.Sound limits s.clock)
    {service : ExecutionService} {workerId : String} {leaseDuration : Int} {now : Time}
    {state : SystemExecutionState} {reconciled : List ReconciledJob}
    (h : service.sweep workerId leaseDuration s = .ok (now, state, reconciled) t) :
    s.Advanced t ∧ state.executionEpoch = s.rows.executionEpoch ∧ s.rows.quarantined = false := by
  unfold ExecutionService.sweep at h
  rw [bind_eq_ok] at h
  obtain ⟨⟨now', state', expired⟩, u, hu, h⟩ := h
  obtain ⟨advanced, later, epoch, released⟩ := sweepExpired_ok settled sound hu
  dsimp only at h
  rw [bind_eq_ok] at h
  obtain ⟨abandoned, x, hx, h⟩ := h
  have advanced₂ := terminalizeAbandonedDispatches_ok advanced.settled
    (advanced.evolves.sound sound) service later hx
  injection h with hp ht
  obtain ⟨rfl, rest⟩ := Prod.mk.inj hp
  obtain ⟨rfl, rfl⟩ := Prod.mk.inj rest
  subst ht
  exact ⟨advanced.trans advanced₂, epoch, released⟩

theorem claimJob_ok (settled : s.Settled) (sound : s.rows.Sound limits s.clock)
    {service : ExecutionService} {workerId : String} {leaseDuration : Int}
    {result : Option JobLease × List ReconciledJob}
    (h : service.claimJob workerId leaseDuration s = .ok result t) :
    s.Advanced t ∧ s.rows.quarantined = false ∧ ∀ lease, result.1 = some lease →
      ∃ u run job, ClaimGrants limits s.rows t.rows lease u run job := by
  unfold ExecutionService.claimJob at h
  rw [bind_eq_ok] at h
  obtain ⟨⟨now, state, reconciled⟩, x, hx, h⟩ := h
  obtain ⟨passes, epoch, free⟩ := sweep_ok settled sound hx
  dsimp only at h
  rw [bind_eq_ok] at h
  obtain ⟨claimed, y, hy, h⟩ := h
  obtain ⟨rfl, locked⟩ := lockClaimable_ok passes.settled (passes.evolves.sound sound) hy
  cases claimed with
  | none =>
    injection h with hr ht
    subst hr ht
    exact ⟨passes, free, by simp⟩
  | some row =>
    obtain ⟨run, job⟩ := row
    obtain ⟨valid, created, hp⟩ := locked run job rfl
    simp only [claimable, Bool.and_eq_true, beq_iff_eq] at hp
    obtain ⟨⟨⟨⟨hepoch, -⟩, -⟩, hclaim⟩, -⟩ := hp
    obtain ⟨advanced, grants⟩ := claimLocked_ok passes.settled valid hclaim
      (created.trans passes.clock) h
    refine ⟨passes.trans advanced, free, fun lease hl => ?_⟩
    obtain ⟨leases, current⟩ := grants lease hl
    refine ⟨y.rows, run, job, passes.evolves, advanced.evolves, leases, hclaim,
      hepoch.trans epoch, ?_⟩
    rw [← passes.evolves.registry]
    exact current

end Modall
