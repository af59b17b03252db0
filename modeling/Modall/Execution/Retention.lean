import Modall.Execution.Leasing

/-!
# Restore quarantine and retention

The system and cleanup operations of `ExecutionService`: entering, reconciling and clearing
the restore quarantine, and the three retention passes. `replay_projection` closes the file.
-/
namespace Modall
open Library

def invalidCleanupBatch : Failure := .valueError "invalid cleanup batch"

/-- `Run.created_at, Run.id`. -/
def runBeforeCreation (a b : Run) : Prop :=
  a.createdAt < b.createdAt ∨ (a.createdAt = b.createdAt ∧ a.id ≤ b.id)

/-- `Run.arguments_expires_at, Run.id`. -/
def runBeforeExpiry (a b : Run) : Prop :=
  a.argumentsExpiresAt < b.argumentsExpiresAt ∨
    (a.argumentsExpiresAt = b.argumentsExpiresAt ∧ a.id ≤ b.id)

/-- `Run.terminal_at, Run.id` over runs whose `terminal_at` is set. -/
def runBeforeTerminal (a b : Run) : Prop :=
  a.terminalAt.getD 0 < b.terminalAt.getD 0 ∨
    (a.terminalAt.getD 0 = b.terminalAt.getD 0 ∧ a.id ≤ b.id)

/-- `RunResult.expires_at, RunResult.run_id`. -/
def resultBeforeExpiry (a b : RunResult) : Prop :=
  a.expiresAt < b.expiresAt ∨ (a.expiresAt = b.expiresAt ∧ a.runId ≤ b.runId)

instance : DecidableRel runBeforeCreation :=
  fun a b => inferInstanceAs (Decidable (_ < _ ∨ (_ = _ ∧ a.id ≤ b.id)))
instance : DecidableRel runBeforeExpiry :=
  fun a b => inferInstanceAs (Decidable (_ < _ ∨ (_ = _ ∧ a.id ≤ b.id)))
instance : DecidableRel runBeforeTerminal :=
  fun a b => inferInstanceAs (Decidable (_ < _ ∨ (_ = _ ∧ a.id ≤ b.id)))
instance : DecidableRel resultBeforeExpiry :=
  fun a b => inferInstanceAs (Decidable (_ < _ ∨ (_ = _ ∧ a.runId ≤ b.runId)))

/-- How a restore ends an active run. -/
def restoreStatus (status : RunStatus) : RunStatus :=
  if status = .dispatchFenced then .indeterminate else .cancelled

/-- The branch of `expire_retained_content` on the status of the run. -/
def endContent (now : Time) (run : Run) : Tx Unit :=
  if run.status.terminal = false then
    terminalizeRun run (deadlineStatus run.status) now .contentRetentionDeadline .contentExpired
  else appendNextEvent run .contentExpired run.status run.safeErrorCode now

/-- One run of `expire_retained_content`. -/
def expireContent (now : Time) (run : Run) : Tx Unit := do
  endContent now run
  assign fun s => s.setRun run.id fun r =>
    { r with arguments := none, argumentDigest := none, updatedAt := now }

namespace ExecutionService

/-- `_require_system_authority`. -/
def requireSystemAuthority (service : ExecutionService) : Tx Unit :=
  raiseIf (service.systemAuthority = false)
    (.permissionError "system execution authority required")

def enterRestoreQuarantine (service : ExecutionService) : Tx Nat := do
  service.requireSystemAuthority
  let now ← durableNow
  let state ← executionState
  assign fun s => { s with system := some ⟨state.executionEpoch + 1, true, now⟩ }
  flush
  return state.executionEpoch + 1

def reconcileRestoreQuarantine (service : ExecutionService) (batchSize : Int) : Tx Nat := do
  service.requireSystemAuthority
  raiseIf (batchSize ≤ 0 ∨ 1000 < batchSize) (.valueError "invalid reconciliation batch")
  let state ← executionState
  raiseIf (state.dispatchQuarantined = false) invalidTransition
  let now ← durableNow
  let runs ← lockRuns (fun run => run.status.active) runBeforeCreation batchSize.toNat
  forM runs fun run => terminalizeRun run (restoreStatus run.status) now
    .restoreReconciliation .restoreReconciled
  flush
  return runs.length

def clearRestoreQuarantine (service : ExecutionService) : Tx Nat := do
  service.requireSystemAuthority
  let state ← executionState
  let unreconciled ← query fun s => s.rows.runs.any fun run => run.status.active
  raiseIf (state.dispatchQuarantined = false ∨ unreconciled = true) invalidTransition
  let now ← durableNow
  assign fun s => { s with system := some ⟨state.executionEpoch, false, now⟩ }
  flush
  return state.executionEpoch

def deleteExpiredRunMetadata (service : ExecutionService) (batchSize : Int) : Tx Nat := do
  raiseIf (batchSize ≤ 0 ∨ 1000 < batchSize) invalidCleanupBatch
  let now ← durableNow
  let cutoff := now - days service.limits.runRetentionDays
  let runs ← lockRuns (fun run => run.terminalAt.any fun terminalAt => decide (terminalAt ≤ cutoff))
    runBeforeTerminal batchSize.toNat
  execute fun s => s.deleteRuns (runs.map Run.id)
  return runs.length

end ExecutionService

def expireRetainedContent (batchSize : Int) : Tx Nat := do
  raiseIf (batchSize ≤ 0 ∨ 1000 < batchSize) invalidCleanupBatch
  let now ← durableNow
  let runs ← lockRuns
    (fun run => run.arguments.isSome && decide (run.argumentsExpiresAt ≤ now))
    runBeforeExpiry batchSize.toNat
  forM runs (expireContent now)
  flush
  return runs.length

def expireRetainedResults (batchSize : Int) : Tx Nat := do
  raiseIf (batchSize ≤ 0 ∨ 1000 < batchSize) invalidCleanupBatch
  let now ← durableNow
  let runIds ← query fun s => ((orderedBy resultBeforeExpiry (s.rows.results.filter fun result =>
    decide (result.expiresAt ≤ now) && !s.held.contains result.runId)).take
      batchSize.toNat).map RunResult.runId
  execute fun s => s.deleteResults runIds
  return runIds.length

/-- The loop of `replay_projection`, from the sequence it expects and the status so far. -/
def replayFrom : Nat → RunStatus → List RunEvent → Except Failure RunStatus
  | _, current, [] => .ok current
  | expected, _, event :: events =>
    if event.sequence ≠ expected then .error (.valueError "run event history is not contiguous")
    else replayFrom (expected + 1) event.status events

def replayProjection (events : List RunEvent) : Except Failure RunStatus :=
  if events = [] then .error (.valueError "run event history is empty")
  else replayFrom 1 .queued (orderedBy (fun a b => a.sequence ≤ b.sequence) events)

end Modall
