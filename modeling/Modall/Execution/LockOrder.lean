import Modall.Execution.Types
import Modall.Library.Locking

/-!
# The order of row locks

Which rows the transactions of the API and the worker lock, and in which order. Each function is
reduced to its `with_for_update` statements, with the locks of the functions it calls in their
places; `next` is what its caller goes on with. The rows a selection finds are arguments.

A run is meant to be locked before its workspace, and a workspace before its registry rows. The
route that cancels a run locks the workspace first, because `idempotent_mutation` does.
-/
namespace Modall.Locks

open Library Library.Locking

/-- A run, and the workspace its row belongs to. -/
structure RunKey where
  workspaceId : Uuid
  id : Uuid
deriving DecidableEq

def runOf (lease : JobLease) : RunKey := ⟨lease.workspaceId, lease.runId⟩

/-- The rows that are locked. A job and an attempt are named by their run; of a workspace's rows the
statements find only its own. -/
inductive LockedRow where
  | systemExecutionState
  | run (run : RunKey)
  | job (run : RunKey)
  | attempt (run : RunKey)
  | idempotencyRecord (run : RunKey) (id : Uuid)
  | workspace (id : Uuid)
  | apiIdempotencyRecord (workspaceId id : Uuid)
  | serverConnection (workspaceId id : Uuid)
  | capability (workspaceId id : Uuid)
  | discoveryRefreshJob (workspaceId id : Uuid)
  | registryEntry (workspaceId id : Uuid)
  | confirmationNonce (nonceDigest : Digest)
deriving DecidableEq

abbrev LockScript := Script LockedRow

/-- `select(...).with_for_update()` of one row. -/
def forUpdate (row : LockedRow) (next : LockScript) : LockScript := .lock .exclusive row next

/-- `require_current_role(..., serialize_workspace=True)`. -/
def serializeWorkspace (workspaceId : Uuid) (next : LockScript) : LockScript :=
  forUpdate (.workspace workspaceId) next

/-! ### `ExecutionService` -/

/-- `_execution_state(lock="shared")`. -/
def executionState (next : LockScript) : LockScript := .lock .shared .systemExecutionState next

/-- `_active_attempt`. -/
def activeAttempt (run : RunKey) (next : LockScript) : LockScript := forUpdate (.attempt run) next

/-- `_terminalize_run`. -/
def terminalizeRun (run : RunKey) (next : LockScript) : LockScript :=
  forUpdate (.job run) (activeAttempt run next)

def terminalizeRuns (runs : List RunKey) (next : LockScript) : LockScript :=
  runs.foldr terminalizeRun next

def runsOf (rows : List LockedRow) : List RunKey :=
  rows.filterMap fun
    | .run run => some run
    | _ => none

/-- `_locked_lease_lineage`. -/
def lockedLeaseLineage (lease : JobLease) (next : LockScript) : LockScript :=
  forUpdate (.run (runOf lease)) (forUpdate (.job (runOf lease)) next)

/-- The capability and the connection of a run, which its row never changes. -/
structure Targets where
  capabilityId : RunKey → Uuid
  connectionId : RunKey → Uuid

/-- The locks of the workspace, the capability and the connection that `_fence_attempt` and
`_claim_target_is_current` take alike. -/
def lockTarget (T : Targets) (run : RunKey) (next : LockScript) : LockScript :=
  forUpdate (.workspace run.workspaceId) <|
  forUpdate (.capability run.workspaceId (T.capabilityId run)) <|
  forUpdate (.serverConnection run.workspaceId (T.connectionId run)) next

/-- `_fence_attempt`. -/
def fenceAttempt (T : Targets) (lease : JobLease) : LockScript :=
  executionState <|
  lockedLeaseLineage lease <|
  lockTarget T (runOf lease) <|
  activeAttempt (runOf lease) .done

/-- `claim_job`, given the runs its three selections match. -/
def claimJob (T : Targets) (batchSize : Nat) (expired abandoned claimable : List RunKey) :
    LockScript :=
  executionState <|
  .skipLocked (expired.map .run) batchSize fun rows =>
  terminalizeRuns (runsOf rows) <|
  .skipLocked (abandoned.map .run) batchSize fun rows =>
  terminalizeRuns (runsOf rows) <|
  .skipLocked (claimable.map .run) 1 fun rows =>
  match runsOf rows with
  | [] => .done
  | run :: _ =>
    forUpdate (.job run) <|
    .either (terminalizeRun run .done) <|
    lockTarget T run <|
    .either (terminalizeRun run .done) (activeAttempt run .done)

def heartbeat (lease : JobLease) : LockScript :=
  executionState <| lockedLeaseLineage lease .done

def completeLease (lease : JobLease) : LockScript :=
  executionState <|
  lockedLeaseLineage lease <|
  .either (terminalizeRun (runOf lease) .done) (activeAttempt (runOf lease) .done)

/-- `cancel_run` of the service. -/
def cancelRun (workspaceId runId : Uuid) : LockScript :=
  forUpdate (.run ⟨workspaceId, runId⟩) <|
  serializeWorkspace workspaceId <|
  terminalizeRun ⟨workspaceId, runId⟩ .done

/-- The record of an admission and the run it names. -/
structure Admitted where
  recordId : Uuid
  runId : Uuid

/-- `_replay_existing_run`. -/
def replayExistingRun (workspaceId : Uuid) (nonceDigest : Digest) (admitted : Admitted) :
    LockScript :=
  forUpdate (.run ⟨workspaceId, admitted.runId⟩) <|
  forUpdate (.idempotencyRecord ⟨workspaceId, admitted.runId⟩ admitted.recordId) <|
  serializeWorkspace workspaceId <|
  forUpdate (.confirmationNonce nonceDigest) .done

/-- `create_run`, given the record it finds before it has the workspace, and the one it finds then;
to replay, it rolls back to the savepoint from before the workspace. -/
def createRun (workspaceId : Uuid) (nonceDigest : Digest) (existing serialized : Option Admitted) :
    LockScript :=
  executionState <|
  match existing with
  | some admitted => replayExistingRun workspaceId nonceDigest admitted
  | none =>
    serializeWorkspace workspaceId <|
    match serialized with
    | some admitted =>
      .release (.workspace workspaceId) (replayExistingRun workspaceId nonceDigest admitted)
    | none => forUpdate (.confirmationNonce nonceDigest) .done

/-! ### `idempotent_mutation` -/

/-- `idempotent_mutation`, given the record it finds and whether that still answers the request. -/
def idempotentMutation (workspaceId : Uuid) (existing : Option Uuid) (answered : Bool)
    (operation : LockScript) : LockScript :=
  serializeWorkspace workspaceId <|
  match existing with
  | none => operation
  | some recordId =>
    forUpdate (.apiIdempotencyRecord workspaceId recordId) (if answered then .done else operation)

/-! ### The registry -/

/-- The mutations of the registry services, with the rows their statements find. -/
inductive RegistryMutation where
  | createConnection
  | appendVersion (connectionId : Uuid) (outstandingJobs : List Uuid)
  | promotePending (connectionId : Uuid)
  | disableConnection (connectionId : Uuid) (outstandingJobs : List Uuid)
  | enableConnection (connectionId : Uuid)
  | allocateRefreshGeneration (connectionId : Uuid)
  | completeRefresh (connectionId : Uuid)
  | enqueue (connectionId : Uuid) (olderJobs : List Uuid)
  | claimRefresh (jobId connectionId : Uuid)
  | renewRefresh (jobId connectionId : Uuid)
  | validateForContact (jobId connectionId : Uuid)
  | recordVersion (connectionId : Uuid) (capabilityId : Option Uuid)
  | publishSuccess (jobId connectionId : Uuid) (observed : List (Option Uuid))
      (capabilities : List Uuid)
  | publishFailure (jobId connectionId : Uuid)
  | enableCapability (capabilityId connectionId : Uuid)
  | disableCapability (capabilityId : Uuid)
  | searchRegistry
  | importCached (entryId : Option Uuid)

/-- `record_version` of one tool. -/
def versionRows (workspaceId connectionId : Uuid) (capabilityId : Option Uuid) :
    List LockedRow :=
  [.workspace workspaceId, .serverConnection workspaceId connectionId] ++
    capabilityId.toList.map (.capability workspaceId)

/-- The rows a mutation locks, in their order. -/
def RegistryMutation.rows (workspaceId : Uuid) : RegistryMutation → List LockedRow
  | .createConnection => [.workspace workspaceId]
  | .appendVersion connectionId jobs | .disableConnection connectionId jobs =>
    [.workspace workspaceId, .serverConnection workspaceId connectionId] ++
      jobs.map (.discoveryRefreshJob workspaceId)
  | .promotePending connectionId | .enableConnection connectionId
  | .allocateRefreshGeneration connectionId | .completeRefresh connectionId =>
    [.workspace workspaceId, .serverConnection workspaceId connectionId]
  | .enqueue connectionId olderJobs =>
    [.workspace workspaceId, .serverConnection workspaceId connectionId] ++
      olderJobs.map (.discoveryRefreshJob workspaceId)
  | .claimRefresh jobId connectionId | .renewRefresh jobId connectionId
  | .validateForContact jobId connectionId | .publishFailure jobId connectionId =>
    [.workspace workspaceId, .discoveryRefreshJob workspaceId jobId,
      .serverConnection workspaceId connectionId]
  | .recordVersion connectionId capabilityId =>
    versionRows workspaceId connectionId capabilityId
  | .publishSuccess jobId connectionId observed capabilities =>
    [.workspace workspaceId, .discoveryRefreshJob workspaceId jobId,
      .serverConnection workspaceId connectionId] ++
      observed.flatMap (versionRows workspaceId connectionId) ++
      capabilities.map (.capability workspaceId) ++
      [.workspace workspaceId, .serverConnection workspaceId connectionId]
  | .enableCapability capabilityId connectionId =>
    [.workspace workspaceId, .capability workspaceId capabilityId,
      .serverConnection workspaceId connectionId]
  | .disableCapability capabilityId =>
    [.workspace workspaceId, .capability workspaceId capabilityId]
  | .searchRegistry => [.workspace workspaceId]
  | .importCached entryId =>
    [.workspace workspaceId] ++ entryId.toList.map (.registryEntry workspaceId)

def registryMutation (workspaceId : Uuid) (mutation : RegistryMutation) : LockScript :=
  (mutation.rows workspaceId).foldr forUpdate .done

/-! ### The transactions -/

inductive Transaction where
  | cancelRoute (workspaceId runId : Uuid) (existing : Option Uuid) (answered : Bool)
  | claimJob (batchSize : Nat) (expired abandoned claimable : List RunKey)
  | fenceSession (lease : JobLease)
  | fenceDispatch (lease : JobLease)
  | heartbeat (lease : JobLease)
  | completeLease (lease : JobLease)
  | createRun (workspaceId : Uuid) (nonceDigest : Digest) (existing serialized : Option Admitted)
  | registryRoute (workspaceId : Uuid) (existing : Option Uuid) (answered : Bool)
      (mutation : RegistryMutation)
  | registry (workspaceId : Uuid) (mutation : RegistryMutation)

def Transaction.script (T : Targets) : Transaction → LockScript
  | .cancelRoute workspaceId runId existing answered =>
    idempotentMutation workspaceId existing answered (cancelRun workspaceId runId)
  | .claimJob batchSize expired abandoned claimable =>
    Locks.claimJob T batchSize expired abandoned claimable
  | .fenceSession lease | .fenceDispatch lease => fenceAttempt T lease
  | .heartbeat lease => Locks.heartbeat lease
  | .completeLease lease => Locks.completeLease lease
  | .createRun workspaceId nonceDigest existing serialized =>
    Locks.createRun workspaceId nonceDigest existing serialized
  | .registryRoute workspaceId existing answered mutation =>
    idempotentMutation workspaceId existing answered (registryMutation workspaceId mutation)
  | .registry workspaceId mutation => registryMutation workspaceId mutation

/-- The states that the transactions reach, however they interleave. -/
def Reached {ι : Type} [DecidableEq ι] (T : Targets) (transactions : ι → Transaction)
    (s : State ι LockedRow) : Prop :=
  Reachable (State.Begins fun i => (transactions i).script T) Locking.Step s

/-! ### When the order is kept -/

/-- The route cancels the run: its request has not been answered before. -/
def Transaction.Cancels (run : RunKey) : Transaction → Prop
  | .cancelRoute workspaceId runId existing answered =>
    run = ⟨workspaceId, runId⟩ ∧ (existing = none ∨ answered = false)
  | _ => False

/-- The transaction may hold the run when it comes to lock the workspace. -/
def Transaction.Brings (run : RunKey) (workspaceId : Uuid) : Transaction → Prop
  | .claimJob _ expired abandoned claimable =>
    (run ∈ expired ∨ run ∈ abandoned) ∧ (∃ claimed ∈ claimable, claimed.workspaceId = workspaceId) ∨
      run ∈ claimable ∧ run.workspaceId = workspaceId
  | .fenceSession lease | .fenceDispatch lease =>
    run = runOf lease ∧ lease.workspaceId = workspaceId
  | .createRun runWorkspaceId _ existing serialized =>
    runWorkspaceId = workspaceId ∧ run.workspaceId = workspaceId ∧
      ∃ admitted, (existing = some admitted ∨ existing = none ∧ serialized = some admitted) ∧
        admitted.runId = run.id
  | _ => False

/-- A route cancels a run of the first workspace that another transaction may hold when it comes to
lock the second. -/
def Crossing {ι : Type} (transactions : ι → Transaction) (first second : Uuid) : Prop :=
  ∃ i j run, j ≠ i ∧ (transactions i).Cancels run ∧ run.workspaceId = first ∧
    (transactions j).Brings run second

/-- No circle of workspaces: for transactions of one workspace, no route cancels a run that is
fenced, claimed or replayed. -/
def Uncrossed {ι : Type} (transactions : ι → Transaction) : Prop :=
  ∀ workspaceId, ¬ Relation.TransGen (Crossing transactions) workspaceId workspaceId

end Modall.Locks
