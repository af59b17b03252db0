import Modall.Execution.Ledger

/-!
# Leasing, fencing and completion

The worker side of `ExecutionService`: `claim_job` with its two reconciliation passes, the
session and dispatch fences, heartbeats, completion and cancellation.
-/
namespace Modall
open Library

/-- `QUALIFIED_PROTOCOL_REVISION`. -/
def qualifiedProtocolRevision : String := "2025-06-18"

def reconciledJob (run : Run) (job : Job) (status : RunStatus) : ReconciledJob :=
  { jobId := job.id, runId := run.id, workspaceId := run.workspaceId,
    correlationId := run.correlationId, leaseEpoch := job.leaseEpoch, status }

/-- The predicate of `_terminalize_expired_jobs`. -/
def pastDeadline (now : Time) (_ : Run) (job : Job) : Bool :=
  (job.status == .queued || job.status == .leased) && decide (job.deadline ≤ now)

/-- `Job.lease_expires_at <= now`, false on a null column. -/
def Job.leaseExpired (job : Job) (now : Time) : Bool :=
  match job.leaseExpiresAt with
  | some expiresAt => decide (expiresAt ≤ now)
  | none => false

/-- The predicate of `_terminalize_abandoned_dispatches`. -/
def abandonedDispatch (now : Time) (run : Run) (job : Job) : Bool :=
  job.status == .leased && job.leaseExpired now && run.status == .dispatchFenced

/-- The predicate of the claim itself. -/
def claimable (state : SystemExecutionState) (now : Time) (run : Run) (job : Job) : Bool :=
  job.executionEpoch == state.executionEpoch && decide (job.availableAt ≤ now) &&
    decide (now < job.deadline) && run.status.claimable &&
    (job.status == .queued || (job.status == .leased && job.leaseExpired now))

def beforeDeadline (a b : Job) : Prop :=
  a.deadline < b.deadline ∨ (a.deadline = b.deadline ∧ a.id ≤ b.id)

def beforeCreation (a b : Job) : Prop :=
  a.createdAt < b.createdAt ∨ (a.createdAt = b.createdAt ∧ a.id ≤ b.id)

/-- Null expiries sort last; the statement that orders by them selects none. -/
def beforeLeaseExpiry (a b : Job) : Prop :=
  match a.leaseExpiresAt, b.leaseExpiresAt with
  | some s, some t => s < t ∨ (s = t ∧ a.id ≤ b.id)
  | some _, none => True
  | none, some _ => False
  | none, none => a.id ≤ b.id

instance : DecidableRel beforeDeadline :=
  fun a b => inferInstanceAs (Decidable (_ < _ ∨ (_ = _ ∧ a.id ≤ b.id)))

instance : DecidableRel beforeCreation :=
  fun a b => inferInstanceAs (Decidable (_ < _ ∨ (_ = _ ∧ a.id ≤ b.id)))

instance : DecidableRel beforeLeaseExpiry := fun a b =>
  match ha : a.leaseExpiresAt, hb : b.leaseExpiresAt with
  | some s, some t => decidable_of_iff (s < t ∨ (s = t ∧ a.id ≤ b.id))
      (by simp [beforeLeaseExpiry, ha, hb])
  | some _, none => isTrue (by simp [beforeLeaseExpiry, ha, hb])
  | none, some _ => isFalse (by simp [beforeLeaseExpiry, ha, hb])
  | none, none => decidable_of_iff (a.id ≤ b.id) (by simp [beforeLeaseExpiry, ha, hb])

namespace ExecutionService

/-- `_terminalize_expired_jobs`. -/
def terminalizeExpiredJobs (service : ExecutionService) (now : Time) :
    Tx (List ReconciledJob) := do
  let rows ← lockRunJobs (pastDeadline now) beforeDeadline
    service.limits.reconciliationBatchSize.toNat
  forM rows fun row => terminalizeRun row.1 (deadlineStatus row.1.status) now
    .deadlineExceeded .terminal
  return rows.map fun row => reconciledJob row.1 row.2 (deadlineStatus row.1.status)

/-- `_terminalize_abandoned_dispatches`. -/
def terminalizeAbandonedDispatches (service : ExecutionService) (now : Time) :
    Tx (List ReconciledJob) := do
  let rows ← lockRunJobs (abandonedDispatch now) beforeLeaseExpiry
    service.limits.reconciliationBatchSize.toNat
  forM rows fun row => terminalizeRun row.1 .indeterminate now .workerLostAfterDispatch .terminal
  flush
  return rows.map fun row => reconciledJob row.1 row.2 .indeterminate

end ExecutionService

/-- Whether the authority and configuration pinned by an admitted run still hold: the guard
that `_fence_attempt` and `_claim_target_is_current` share. -/
def Registry.targetIsCurrent (registry : Registry) (run : Run) : Bool :=
  let membership := registry.memberships.find? fun m =>
    m.workspaceId == run.workspaceId && m.userId == run.actorUserId
  let capability := registry.capabilities.find? fun c =>
    c.id == run.capabilityId && c.workspaceId == run.workspaceId
  let connection := registry.connections.find? fun c =>
    c.id == run.connectionId && c.workspaceId == run.workspaceId
  let observed := connection.any fun connection =>
    connection.currentSnapshotId.any fun snapshotId =>
      registry.snapshotCapabilities.any fun row =>
        row.workspaceId == run.workspaceId && row.connectionId == run.connectionId &&
          row.connectionVersionId == run.connectionVersionId && row.snapshotId == snapshotId &&
          row.capabilityVersionId == run.capabilityVersionId
  let binding := registry.bindings.any fun b =>
    b.workspaceId == run.workspaceId && b.capabilityId == run.capabilityId &&
      b.capabilityVersionId == run.capabilityVersionId && b.connectionId == run.connectionId &&
      b.connectionVersionId == run.connectionVersionId &&
      b.protocolRevision == run.protocolRevision
  registry.workspaces.contains run.workspaceId &&
    run.protocolRevision == qualifiedProtocolRevision &&
    membership.any (fun m => m.role == .admin || m.role == .operator) &&
    capability.any (fun c => c.status == .enabled &&
      c.enabledVersionId == some run.capabilityVersionId && c.pendingVersionId == none &&
      c.statusEpoch == run.capabilityStatusEpoch) &&
    connection.any (fun c => c.lifecycle == .active && c.pendingVersionId == none &&
      c.verifiedVersionId == some run.connectionVersionId &&
      c.controlEpoch == run.connectionControlEpoch) &&
    observed && binding

/-- `_claim_target_is_current`. -/
def claimTargetIsCurrent (run : Run) : Tx Bool :=
  query fun s => s.rows.registry.targetIsCurrent run

/-- End a selected run instead of leasing it. -/
def endClaim (run : Run) (job : Job) (status : RunStatus) (now : Time) (code : RunFailureCode)
    (reconciled : List ReconciledJob) : Tx (Option JobLease × List ReconciledJob) := do
  terminalizeRun run status now code .terminal
  flush
  return (none, reconciled ++ [reconciledJob run job status])

/-- Close the attempt whose lease has expired. -/
def loseLease (run : Run) (now : Time) (previous : RunAttempt) : Tx Unit := do
  assign fun s => s.setAttempt previous.runId previous.sequence fun a =>
    { a with status := .failed, safeErrorCode := some .workerLostBeforeDispatch,
             terminalAt := some now }
  appendNextEvent run .leaseLost run.status (some .workerLostBeforeDispatch) now
  flush

/-- The part of `claim_job` that closes the previous attempt of a reclaimed job. -/
def reclaim (run : Run) (job : Job) (now : Time) : Tx Unit :=
  runIf (job.status = .leased) do
    let previous ← activeAttempt run.id
    runSome previous (loseLease run now)

/-- The part of `claim_job` that grants the lease. -/
def grantLease (run : Run) (job : Job) (workerId : String) (leaseDuration : Int) (now : Time) :
    Tx JobLease := do
  let expiresAt := min (now + leaseDuration) job.deadline
  assign fun s => s.setJob job.runId fun j =>
    { j with status := .leased, leaseOwner := some workerId, leaseEpoch := j.leaseEpoch + 1,
             leaseExpiresAt := some expiresAt }
  let latestAttempt ← query fun s =>
    maximum ((s.rows.attempts.filter fun a => a.runId == run.id).map RunAttempt.sequence)
  assign fun s => s.addAttempt
    { workspaceId := run.workspaceId, runId := run.id, jobId := job.id,
      sequence := latestAttempt + 1, leaseEpoch := job.leaseEpoch + 1, status := .preparing,
      startedAt := now, terminalAt := none, safeErrorCode := none }
  assign fun s => s.setRun run.id fun r => { r with status := .preparing, updatedAt := now }
  appendNextEvent run .attemptStarted .preparing none now
  flush
  return { jobId := job.id, runId := job.runId, workspaceId := job.workspaceId,
           correlationId := run.correlationId, workerId, leaseEpoch := job.leaseEpoch + 1,
           executionEpoch := job.executionEpoch, expiresAt }

/-- What `claim_job` does with the run and the job it has locked. -/
def claimLocked (run : Run) (job : Job) (workerId : String) (leaseDuration : Int)
    (reconciled : List ReconciledJob) : Tx (Option JobLease × List ReconciledJob) := do
  let now ← durableNow
  if job.deadline ≤ now then endClaim run job .timedOut now .deadlineExceeded reconciled
  else do
    let targetIsCurrent ← claimTargetIsCurrent run
    let now ← durableNow
    if job.deadline ≤ now then endClaim run job .timedOut now .deadlineExceeded reconciled
    else if targetIsCurrent = false then
      endClaim run job .failed now .preparationFailed reconciled
    else do
      reclaim run job now
      let lease ← grantLease run job workerId leaseDuration now
      return (some lease, reconciled)

/-- The locked run of the claim statement with its reloaded job. -/
def lockClaimable (state : SystemExecutionState) (now : Time) : Tx (Option (Run × Job)) := do
  let rows ← lockRunJobs (claimable state now) beforeCreation 1
  match rows.head? with
  | none => return none
  | some row =>
    let job ← jobOfRun row.1.id
    return job.map fun job => (row.1, job)

/-- `claim_job` up to its first reconciliation pass: the reading of the clock that all its
predicates use, and the system row. -/
def openClaim (workerId : String) (leaseDuration : Int) : Tx (Time × SystemExecutionState) := do
  raiseIf (workerId.length = 0 ∨ 128 < workerId.length ∨ leaseDuration ≤ 0)
    (.valueError "invalid worker lease")
  let now ← durableNow
  let state ← executionState
  raiseIf state.dispatchQuarantined (.execution .dispatchQuarantined)
  return (now, state)

namespace ExecutionService

/-- `claim_job` up to its second reconciliation pass. -/
def sweepExpired (service : ExecutionService) (workerId : String) (leaseDuration : Int) :
    Tx (Time × SystemExecutionState × List ReconciledJob) := do
  let (now, state) ← openClaim workerId leaseDuration
  let expired ← service.terminalizeExpiredJobs now
  flush
  return (now, state, expired)

/-- `claim_job` up to the claim itself. -/
def sweep (service : ExecutionService) (workerId : String) (leaseDuration : Int) :
    Tx (Time × SystemExecutionState × List ReconciledJob) := do
  let (now, state, expired) ← service.sweepExpired workerId leaseDuration
  let abandoned ← service.terminalizeAbandonedDispatches now
  return (now, state, expired ++ abandoned)

/-- `claim_job`, with the jobs it reconciled. -/
def claimJob (service : ExecutionService) (workerId : String) (leaseDuration : Int) :
    Tx (Option JobLease × List ReconciledJob) := do
  let (now, state, reconciled) ← service.sweep workerId leaseDuration
  let claimed ← lockClaimable state now
  match claimed with
  | none => return (none, reconciled)
  | some (run, job) => claimLocked run job workerId leaseDuration reconciled

end ExecutionService

/-! ## Leases in the hands of workers -/

/-- `_locked_job`. -/
def lockedJob (lease : JobLease) : Tx Job := do
  let job ← scalar (·.jobs) (fun a b => a.runId == b.runId) fun job =>
    job.id == lease.jobId && job.workspaceId == lease.workspaceId
  match job with
  | none => throw leaseLost
  | some job =>
    raiseIf (job.runId ≠ lease.runId) leaseLost
    return job

/-- `_locked_lease_lineage`. -/
def lockedLeaseLineage (lease : JobLease) : Tx (Run × Job) := do
  let row ← selectRow (·.jobs) fun job =>
    job.id == lease.jobId && job.workspaceId == lease.workspaceId
  raiseIf (row.map Job.runId ≠ some lease.runId) leaseLost
  let run ← lockRun fun run => run.id == lease.runId && run.workspaceId == lease.workspaceId
  match run with
  | none => throw leaseLost
  | some run =>
    let job ← lockedJob lease
    return (run, job)

/-- `job.lease_expires_at is None or job.lease_expires_at <= now`, which lets a lease lapse. -/
def Job.lapsed (job : Job) (now : Time) : Bool :=
  match job.leaseExpiresAt with
  | none => true
  | some expiresAt => decide (expiresAt ≤ now)

/-- The lease is the one the job is leased under, its expiry apart. -/
def Job.leasedTo (job : Job) (lease : JobLease) : Bool :=
  job.status == .leased && job.leaseOwner == some lease.workerId &&
    job.leaseEpoch == lease.leaseEpoch && job.leaseExpiresAt.isSome

/-- `_fence_attempt` up to its one refusal: what it has locked when it does not raise. -/
def fenceGuard (lease : JobLease) (expected : RunStatus) : Tx (Run × RunAttempt × Time) := do
  let state ← executionState
  let lineage ← selectRow (·.jobs) fun job =>
    job.id == lease.jobId && job.workspaceId == lease.workspaceId && job.runId == lease.runId
  raiseIf (lineage = none) leaseLost
  let (run, job) ← lockedLeaseLineage lease
  let targetIsCurrent ← query fun s => s.rows.registry.targetIsCurrent run
  let attempt ← activeAttempt run.id
  let now ← durableNow
  raiseIf (state.dispatchQuarantined = true ∨ state.executionEpoch ≠ lease.executionEpoch ∨
    job.executionEpoch ≠ lease.executionEpoch ∨ job.leasedTo lease = false ∨
    job.lapsed now = true ∨ job.deadline ≤ now ∨ run.cancellationRequested = true ∨
    run.status ≠ expected ∨ targetIsCurrent = false) leaseLost
  match attempt with
  | none => throw leaseLost
  | some attempt =>
    raiseIf (attempt.leaseEpoch ≠ lease.leaseEpoch ∨ attempt.status ≠ expected) leaseLost
    return (run, attempt, now)

/-- `_fence_attempt`. -/
def fenceAttempt (lease : JobLease) (expected target : RunStatus) (eventType : RunEventType) :
    Tx Run := do
  let (run, attempt, now) ← fenceGuard lease expected
  assign fun s => s.setRun run.id fun r => { r with status := target, updatedAt := now }
  assign fun s => s.setAttempt attempt.runId attempt.sequence fun a => { a with status := target }
  appendNextEvent run eventType target none now
  flush
  return { run with status := target, updatedAt := now }

def fenceSession (lease : JobLease) : Tx Run :=
  fenceAttempt lease .preparing .sessionFenced .sessionFenced

def fenceDispatch (lease : JobLease) : Tx Run :=
  fenceAttempt lease .sessionFenced .dispatchFenced .dispatchFenced

/-- The checks of `heartbeat`. -/
def heartbeatGuard (lease : JobLease) (leaseDuration : Int) : Tx (Job × Time) := do
  raiseIf (leaseDuration ≤ 0) (.valueError "invalid worker lease")
  let state ← executionState
  let (run, job) ← lockedLeaseLineage lease
  let now ← durableNow
  raiseIf (state.dispatchQuarantined = true ∨ state.executionEpoch ≠ lease.executionEpoch ∨
    job.leasedTo lease = false ∨ job.lapsed now = true ∨ job.deadline ≤ now) leaseLost
  raiseIf run.status.terminal leaseLost
  return (job, now)

def heartbeat (lease : JobLease) (leaseDuration : Int) : Tx JobLease := do
  let (job, now) ← heartbeatGuard lease leaseDuration
  let expiresAt := min (now + leaseDuration) job.deadline
  assign fun s => s.setJob job.runId fun j => { j with leaseExpiresAt := some expiresAt }
  flush
  return { lease with jobId := job.id, runId := job.runId, workspaceId := job.workspaceId,
                      expiresAt }

/-- `_valid_worker_completion`. -/
def validWorkerCompletion (run : Run) (attempt : RunAttempt) (status : RunStatus)
    (code : Option RunFailureCode) : Bool :=
  attempt.status == run.status &&
  match status with
  | .succeeded => run.status == .dispatchFenced && code == none
  | .failed =>
    match run.status, code with
    | .preparing, some .preparationFailed => true
    | .sessionFenced, some .sessionInitializationFailed => true
    | .dispatchFenced, some .toolCallFailed => true
    | .dispatchFenced, some .invalidToolResult => true
    | .dispatchFenced, some .unsupportedToolResult => true
    | .dispatchFenced, some .sensitiveToolResult => true
    | _, _ => false
  | .cancelled => run.cancellationRequested &&
      (run.status == .preparing || run.status == .sessionFenced) &&
      code == some .cancelledBeforeDispatch
  | .indeterminate => run.status == .dispatchFenced && code == some .upstreamOutcomeUnknown
  | _ => false

/-- The writes of an accepted completion. -/
def completeRun (run : Run) (job : Job) (attempt : RunAttempt) (status : RunStatus)
    (code : Option RunFailureCode) (now : Time) : Tx Run := do
  assign fun s => s.setRun run.id fun r =>
    { r with status := status, safeErrorCode := code, updatedAt := now, terminalAt := some now }
  assign fun s => s.setAttempt attempt.runId attempt.sequence fun a =>
    { a with status := status, safeErrorCode := code, terminalAt := some now }
  terminalizeJob status now job
  appendNextEvent run .terminal status code now
  flush
  return { run with status := status, safeErrorCode := code, updatedAt := now,
                    terminalAt := some now }

/-- The first checks of `complete_lease`, which do not ask whether the lease has expired. -/
def completionGuard (lease : JobLease) (status : RunStatus) (code : Option RunFailureCode) :
    Tx (Run × Job × Time) := do
  raiseIf (status.terminal = false) invalidTransition
  raiseIf (status = .succeeded ∧ code ≠ none) invalidTransition
  let state ← executionState
  let (run, job) ← lockedLeaseLineage lease
  let now ← durableNow
  raiseIf (state.executionEpoch ≠ lease.executionEpoch ∨ job.leasedTo lease = false) leaseLost
  raiseIf run.status.terminal invalidTransition
  return (run, job, now)

/-- `complete_lease` once the deadline has passed. -/
def completeLate (run : Run) (now : Time) : Tx Run := do
  terminalizeRun run (deadlineStatus run.status) now .deadlineExceeded .terminal
  flush
  return { run with status := deadlineStatus run.status, safeErrorCode := some .deadlineExceeded,
                    updatedAt := now, terminalAt := some now }

/-- `complete_lease` before the deadline. -/
def completeInTime (lease : JobLease) (run : Run) (job : Job) (status : RunStatus)
    (code : Option RunFailureCode) (now : Time) : Tx Run := do
  raiseIf (job.lapsed now) leaseLost
  let attempt ← activeAttempt run.id
  match attempt with
  | none => throw leaseLost
  | some attempt =>
    raiseIf (attempt.leaseEpoch ≠ lease.leaseEpoch) leaseLost
    raiseIf (validWorkerCompletion run attempt status code = false) invalidTransition
    completeRun run job attempt status code now

def completeLease (lease : JobLease) (status : RunStatus) (code : Option RunFailureCode) :
    Tx Run := do
  let (run, job, now) ← completionGuard lease status code
  if job.deadline ≤ now then completeLate run now
  else completeInTime lease run job status code now

/-- The screen of `complete_invocation_success`: every exception in it is one failure. -/
def Platform.acceptsResult (P : Platform) (limits : ExecutionLimits)
    (result : AcceptedToolResult) : Bool :=
  P.validateBoundedJson result.payload &&
  match P.canonicalJson result.payload with
  | none => false
  | some canonical =>
    canonical.utf8ByteSize != 0 &&
      decide ((canonical.utf8ByteSize : Int) ≤ limits.maxResultBytes) &&
      (canonical.utf8ByteSize : Int) == result.byteCount &&
      P.sha256 canonical == result.canonicalDigest &&
      P.containsSensitiveJson result.payload == some false

/-- `_utc(run.terminal_at) if run.terminal_at is not None else await self._durable_now()`. -/
def captureTime (run : Run) : Tx Time :=
  match run.terminalAt with
  | some terminalAt => pure terminalAt
  | none => durableNow

namespace ExecutionService

/-- Add the accepted content of a run that has succeeded. -/
def addAcceptedResult (service : ExecutionService) (run : Run) (result : AcceptedToolResult) :
    Tx Run := do
  let capturedAt ← captureTime run
  assign fun s => s.addResult
    { runId := run.id, workspaceId := run.workspaceId, payload := result.payload,
      canonicalDigest := result.canonicalDigest, byteCount := result.byteCount, capturedAt,
      expiresAt := capturedAt + days service.limits.resultRetentionDays }
  flush
  return run

def completeInvocationSuccess (service : ExecutionService) (P : Platform) (lease : JobLease)
    (result : AcceptedToolResult) : Tx Run := do
  raiseIf (P.acceptsResult service.limits result = false) (.execution .invalidArguments)
  let run ← completeLease lease .succeeded none
  if run.status ≠ .succeeded then return run
  else service.addAcceptedResult run result

end ExecutionService

/-- `_locked_run`. -/
def lockedRun (workspaceId runId : Uuid) : Tx Run := do
  let run ← lockRun fun run => run.id == runId && run.workspaceId == workspaceId
  match run with
  | none => throw invalidTransition
  | some run => return run

/-- The three ways `cancel_run` acts on an active run. -/
def cancelActive (run : Run) (now : Time) : Tx Unit :=
  if run.deadline ≤ now then
    terminalizeRun run (deadlineStatus run.status) now .deadlineExceeded .terminal
  else if run.status.claimable then
    terminalizeRun run .cancelled now .cancelledBeforeDispatch .cancelRequested
  else do
    assign fun s => s.setRun run.id fun r => { r with updatedAt := now }
    appendNextEvent run .cancelRequested run.status none now

/-- `cancel_run`; `correlationId` is the caller's or a fresh draw. -/
def cancelRun (context : WorkspaceContext) (runId correlationId : Uuid) : Tx Run := do
  requireCurrentRole context [.admin, .operator] false
  let run ← lockedRun context.workspaceId runId
  requireCurrentRole context [.admin, .operator] true
  if run.status.terminal then return run
  else do
    let now ← durableNow
    assign fun s => s.setRun run.id fun r => { r with cancellationRequested := true }
    cancelActive run now
    let run ← mappedRun run
    assign fun s => s.addAudit
      { workspaceId := context.workspaceId, actorUserId := context.actorUserId,
        action := if run.status = .cancelled then .runCancelled else .runCancellationRequested,
        resourceType := .run, resourceId := run.id, correlationId }
    flush
    return run

end Modall
