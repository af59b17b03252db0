import Modall.Platform
import Modall.Identity.Repository

/-!
# Statements of the execution ledger

The private helpers of `ExecutionService` that every operation is put together from: the
system row, row locks, the event log and the terminal projection.
-/
namespace Modall
open Library

/-- `ExecutionError(ExecutionFailureCode.LEASE_LOST)`. -/
def leaseLost : Failure := .execution .leaseLost
/-- `ExecutionError(ExecutionFailureCode.INVALID_TRANSITION)`. -/
def invalidTransition : Failure := .execution .invalidTransition

/-- `_execution_state`: the singleton row, inserted when it is not there yet. -/
def executionState : Tx SystemExecutionState := do
  match ← query (·.rows.system) with
  | some state => return state
  | none =>
    let now ← durableNow
    let state : SystemExecutionState := ⟨1, false, now⟩
    assign fun s => { s with system := some state }
    flush
    return state

/-- `SELECT ... FROM runs WHERE ... FOR UPDATE`, which waits for the row. -/
def lockRun (p : Run → Bool) : Tx (Option Run) := do
  othersCommit
  scalar (·.runs) (fun a b => a.id == b.id) p

/-- The mapped object of a run the session has loaded, as it stands now. -/
def mappedRun (run : Run) : Tx Run :=
  query fun s => (s.objects.runs.find? fun r => r.id == run.id).getD run

/-- `select(Job).where(Job.run_id == run.id).with_for_update()`. -/
def jobOfRun (runId : Uuid) : Tx (Option Job) :=
  scalar (·.jobs) (fun a b => a.runId == b.runId) fun job => job.runId == runId

/-- `_active_attempt`. -/
def activeAttempt (runId : Uuid) : Tx (Option RunAttempt) := query fun s =>
  let active := s.rows.attempts.filter fun a => a.runId == runId && a.status.attempting
  (orderedBy (fun a b => b.sequence ≤ a.sequence) active).head?.bind fun row =>
    s.objects.attempts.find? fun a => a.runId == row.runId && a.sequence == row.sequence

/-- `_append_event`. -/
def appendEvent (run : Run) (eventType : RunEventType) (status : RunStatus) (now : Time)
    (sequence : Nat) (safeErrorCode : Option RunFailureCode) : Tx Unit :=
  assign fun s => s.addEvent
    { workspaceId := run.workspaceId, runId := run.id, sequence, eventType, status,
      safeErrorCode, occurredAt := now }

/-- `_append_next_event`: the next number after the flushed events of the run. -/
def appendNextEvent (run : Run) (eventType : RunEventType) (status : RunStatus)
    (safeErrorCode : Option RunFailureCode) (now : Time) : Tx Unit := do
  let sequence ← query fun s =>
    maximum ((s.rows.events.filter fun e => e.runId == run.id).map RunEvent.sequence)
  appendEvent run eventType status now (sequence + 1) safeErrorCode

/-- `JobStatus(status.value)`. -/
def jobStatusOf (status : RunStatus) : Tx JobStatus :=
  match status.toJobStatus with
  | some jobStatus => pure jobStatus
  | none => throw (.valueError "not a valid JobStatus")

/-- The job half of `_terminalize_run`. -/
def terminalizeJob (status : RunStatus) (now : Time) (job : Job) : Tx Unit := do
  let jobStatus ← jobStatusOf status
  assign fun s => s.setJob job.runId fun j =>
    { j with status := jobStatus, leaseOwner := none, leaseExpiresAt := none,
             completedAt := some now }

/-- `_terminalize_run`. -/
def terminalizeRun (run : Run) (status : RunStatus) (now : Time) (code : RunFailureCode)
    (eventType : RunEventType) : Tx Unit := do
  assign fun s => s.setRun run.id fun r =>
    { r with status := status, safeErrorCode := some code, updatedAt := now,
             terminalAt := some now }
  let job ← jobOfRun run.id
  runSome job (terminalizeJob status now)
  let attempt ← activeAttempt run.id
  runSome attempt fun attempt => assign fun s =>
    s.setAttempt attempt.runId attempt.sequence fun a =>
      { a with status := status, safeErrorCode := some code, terminalAt := some now }
  appendNextEvent run eventType status (some code) now

/-- How a run that has met its deadline ends. -/
def deadlineStatus (status : RunStatus) : RunStatus :=
  if status = .dispatchFenced then .indeterminate else .timedOut

/-! ## Row locks that do not wait -/

/-- `runs JOIN jobs ON jobs.workspace_id = runs.workspace_id AND jobs.run_id = runs.id`. -/
def Store.runJobs (s : Store) : List (Run × Job) :=
  s.runs.flatMap fun run =>
    (s.jobs.filter fun job => job.workspaceId == run.workspaceId && job.runId == run.id).map
      fun job => (run, job)

/-- The rows that `SELECT ... FOR UPDATE OF runs SKIP LOCKED LIMIT n` locks under READ COMMITTED
out of the candidates of its snapshot. A row that another transaction holds is skipped;
otherwise the predicate is evaluated again on the latest version of the run and on the columns
`γ` joined from the snapshot. -/
def lockEach {γ : Type} (p : Run → γ → Bool) (s : Session) :
    Nat → List (Run × γ) → List (Run × γ)
  | 0, _ => []
  | _ + 1, [] => []
  | n + 1, (run, joined) :: rest =>
    match if run.id ∈ s.held then none else s.rows.runs.find? fun r => r.id == run.id with
    | none => lockEach p s (n + 1) rest
    | some latest =>
      if p latest joined then (latest, joined) :: lockEach p s n rest
      else lockEach p s (n + 1) rest

/-- The joined statements of `claim_job`. Other transactions may commit between the snapshot
and the row locks. One that commits after some of the rows are locked touches none of these,
so all of them are taken to commit before the first lock. -/
def lockRunJobs (p : Run → Job → Bool) (before : Job → Job → Prop) [DecidableRel before]
    (limit : Nat) : Tx (List (Run × Job)) := do
  let snapshot ← query fun s => orderedBy (fun a b => before a.2 b.2)
    (s.rows.runJobs.filter fun row => p row.1 row.2)
  othersCommit
  query fun s => lockEach p s limit snapshot

/-- The statements over `runs` alone. -/
def lockRuns (p : Run → Bool) (before : Run → Run → Prop) [DecidableRel before]
    (limit : Nat) : Tx (List Run) := do
  let snapshot ← query fun s => (orderedBy before (s.rows.runs.filter p)).map fun run => (run, ())
  othersCommit
  query fun s => (lockEach (fun run _ => p run) s limit snapshot).map Prod.fst

end Modall
