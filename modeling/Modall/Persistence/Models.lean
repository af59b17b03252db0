import Modall.Execution.Types
import Modall.Library.Table

/-!
# Rows and tables

The tables of `modall/persistence/models.py` that the execution ledger and the registry use,
each as the list of its rows. A column that no modelled statement reads or writes is left out.
`Registry` holds the identity and registry tables, which the ledger only reads; `Store` adds
the ledger's own tables.

A job is addressed by its run, an attempt and an event by run and sequence: the schema makes
these unique. Everything that belongs to a run hangs off it by a cascading foreign key, which
is what `Store.deleteRuns` follows.
-/
namespace Modall

inductive Role where
  | admin | operator | viewer
deriving DecidableEq

/-- `WorkspaceContext`. -/
structure WorkspaceContext where
  workspaceId : Uuid
  actorUserId : Uuid
  role : Role
deriving DecidableEq

structure WorkspaceMembership where
  workspaceId : Uuid
  userId : Uuid
  role : Role
deriving DecidableEq

inductive ConnectionLifecycle where
  | verifying | active | degraded | disabled
deriving DecidableEq

inductive CapabilityStatus where
  | pendingReview | enabled | disabled | unavailable
deriving DecidableEq

inductive DiscoveryFailureCode where
  | authenticationFailed | endpointRejected | protocolMismatch | responseLimit | timeout
  | transportFailed | invalidMetadata
deriving DecidableEq

inductive RefreshJobStatus where
  | queued | leased | succeeded | failed | obsolete
deriving DecidableEq

inductive AuditAction where
  | connectionCreated | connectionVersionAppended | connectionVerified | connectionDisabled
  | connectionEnabled
  | capabilityVersionRecorded | capabilityEnabled | capabilityDisabled
  | registryEntryImported
  | runCreated | runCancellationRequested | runCancelled
deriving DecidableEq

inductive ResourceType where
  | serverConnection | capability | registryEntry | run
deriving DecidableEq

/-- `AuditEvent.succeeded`. -/
structure AuditEvent where
  workspaceId : Uuid
  actorUserId : Uuid
  action : AuditAction
  resourceType : ResourceType
  resourceId : Uuid
  correlationId : Uuid
deriving DecidableEq

structure ServerConnection where
  id : Uuid
  workspaceId : Uuid
  name : String
  lifecycle : ConnectionLifecycle
  pendingVersionId : Option Uuid
  verifiedVersionId : Option Uuid
  controlEpoch : Nat
  refreshGeneration : Nat
  allocatedControlEpoch : Option Nat
  allocatedTargetVersionId : Option Uuid
  currentSnapshotId : Option Uuid
  lastRefreshErrorCode : Option DiscoveryFailureCode
  lastRefreshAt : Option Time
deriving DecidableEq

structure ServerConnectionVersion where
  id : Uuid
  workspaceId : Uuid
  connectionId : Uuid
  sequence : Nat
  endpointUrl : String
  secretBindingId : Option Uuid
  policyVersion : String
deriving DecidableEq

structure Capability where
  id : Uuid
  workspaceId : Uuid
  connectionId : Uuid
  toolIdentity : String
  pendingVersionId : Option Uuid
  enabledVersionId : Option Uuid
  status : CapabilityStatus
  statusEpoch : Nat
deriving DecidableEq

structure CapabilityVersion where
  id : Uuid
  workspaceId : Uuid
  capabilityId : Uuid
  sequence : Nat
  displayName : String
  description : Option String
  inputSchema : Json
  outputSchema : Option Json
  metadataDigest : Digest
  schemaSupported : Bool

structure McpToolBinding where
  capabilityVersionId : Uuid
  capabilityId : Uuid
  workspaceId : Uuid
  connectionId : Uuid
  connectionVersionId : Uuid
  toolName : String
  protocolRevision : String
deriving DecidableEq

structure CapabilityStatusEvent where
  workspaceId : Uuid
  capabilityId : Uuid
  capabilityVersionId : Option Uuid
  status : CapabilityStatus
  statusEpoch : Nat
  actorUserId : Uuid
deriving DecidableEq

structure DiscoveryPayload where
  id : Uuid
  workspaceId : Uuid
  canonicalDigest : Digest
  normalizedPayload : Json
  byteCount : Nat

structure DiscoverySnapshot where
  id : Uuid
  workspaceId : Uuid
  connectionId : Uuid
  connectionVersionId : Uuid
  payloadId : Uuid
  generation : Nat
  controlEpoch : Nat
  protocolRevision : String
deriving DecidableEq

structure DiscoverySnapshotCapability where
  workspaceId : Uuid
  connectionId : Uuid
  connectionVersionId : Uuid
  snapshotId : Uuid
  capabilityVersionId : Uuid
deriving DecidableEq

structure DiscoveryRefreshJob where
  id : Uuid
  workspaceId : Uuid
  actorUserId : Uuid
  connectionId : Uuid
  connectionVersionId : Uuid
  generation : Nat
  controlEpoch : Nat
  status : RefreshJobStatus
  leaseOwner : Option String
  leaseEpoch : Nat
  leaseExpiresAt : Option Time
deriving DecidableEq

/-- The identity and registry tables. -/
structure Registry where
  workspaces : List Uuid
  memberships : List WorkspaceMembership
  secretBindings : List (Uuid × Uuid)
  connections : List ServerConnection
  connectionVersions : List ServerConnectionVersion
  capabilities : List Capability
  capabilityVersions : List CapabilityVersion
  bindings : List McpToolBinding
  statusEvents : List CapabilityStatusEvent
  payloads : List DiscoveryPayload
  snapshots : List DiscoverySnapshot
  snapshotCapabilities : List DiscoverySnapshotCapability
  refreshJobs : List DiscoveryRefreshJob

structure SystemExecutionState where
  executionEpoch : Nat
  dispatchQuarantined : Bool
  updatedAt : Time
deriving DecidableEq

structure Run where
  id : Uuid
  workspaceId : Uuid
  correlationId : Uuid
  actorUserId : Uuid
  capabilityId : Uuid
  capabilityVersionId : Uuid
  connectionId : Uuid
  connectionVersionId : Uuid
  connectionControlEpoch : Nat
  capabilityStatusEpoch : Nat
  protocolRevision : String
  status : RunStatus
  arguments : Option Json
  argumentDigest : Option Digest
  argumentsExpiresAt : Time
  deadline : Time
  cancellationRequested : Bool
  safeErrorCode : Option RunFailureCode
  createdAt : Time
  updatedAt : Time
  terminalAt : Option Time

structure RunResult where
  runId : Uuid
  workspaceId : Uuid
  payload : Json
  canonicalDigest : Digest
  byteCount : Int
  capturedAt : Time
  expiresAt : Time

structure Job where
  id : Uuid
  workspaceId : Uuid
  runId : Uuid
  actorUserId : Uuid
  executionEpoch : Nat
  status : JobStatus
  leaseOwner : Option String
  leaseEpoch : Nat
  leaseExpiresAt : Option Time
  availableAt : Time
  deadline : Time
  createdAt : Time
  completedAt : Option Time
deriving DecidableEq

structure RunAttempt where
  workspaceId : Uuid
  runId : Uuid
  jobId : Uuid
  sequence : Nat
  leaseEpoch : Nat
  status : RunStatus
  startedAt : Time
  terminalAt : Option Time
  safeErrorCode : Option RunFailureCode
deriving DecidableEq

structure RunEvent where
  workspaceId : Uuid
  runId : Uuid
  sequence : Nat
  eventType : RunEventType
  status : RunStatus
  safeErrorCode : Option RunFailureCode
  occurredAt : Time
deriving DecidableEq

structure ConfirmationNonce where
  workspaceId : Uuid
  actorUserId : Uuid
  nonceDigest : Digest
  runId : Uuid
  keyVersion : String
  expiresAt : Time
  consumedAt : Time
deriving DecidableEq

structure IdempotencyRecord where
  workspaceId : Uuid
  actorUserId : Uuid
  method : String
  route : String
  confirmationKeyVersion : String
  keyVersion : String
  keyHmac : Digest
  requestHmac : Digest
  resourceId : Uuid
  createdAt : Time
  completedAt : Time
  expiresAt : Time
deriving DecidableEq

/-- Every table the modelled services touch. -/
structure Store where
  registry : Registry
  system : Option SystemExecutionState
  runs : List Run
  jobs : List Job
  attempts : List RunAttempt
  events : List RunEvent
  results : List RunResult
  nonces : List ConfirmationNonce
  records : List IdempotencyRecord
  audit : List AuditEvent

namespace Store
open Library

def setRun (s : Store) (id : Uuid) (f : Run → Run) : Store :=
  { s with runs := updateWhere (fun run => run.id == id) f s.runs }

def setJob (s : Store) (runId : Uuid) (f : Job → Job) : Store :=
  { s with jobs := updateWhere (fun job => job.runId == runId) f s.jobs }

def setAttempt (s : Store) (runId : Uuid) (sequence : Nat) (f : RunAttempt → RunAttempt) :
    Store :=
  { s with attempts :=
      updateWhere (fun a => a.runId == runId && a.sequence == sequence) f s.attempts }

def addRun (s : Store) (run : Run) : Store := { s with runs := s.runs ++ [run] }
def addJob (s : Store) (job : Job) : Store := { s with jobs := s.jobs ++ [job] }
def addAttempt (s : Store) (attempt : RunAttempt) : Store :=
  { s with attempts := s.attempts ++ [attempt] }
def addEvent (s : Store) (event : RunEvent) : Store := { s with events := s.events ++ [event] }
def addResult (s : Store) (result : RunResult) : Store :=
  { s with results := s.results ++ [result] }
def addNonce (s : Store) (nonce : ConfirmationNonce) : Store :=
  { s with nonces := s.nonces ++ [nonce] }
def addRecord (s : Store) (record : IdempotencyRecord) : Store :=
  { s with records := s.records ++ [record] }
def addAudit (s : Store) (event : AuditEvent) : Store := { s with audit := s.audit ++ [event] }

/-- `DELETE FROM runs WHERE id IN (...)` with every cascade that hangs off it. -/
def deleteRuns (s : Store) (ids : List Uuid) : Store :=
  { s with
    runs := s.runs.filter fun run => run.id ∉ ids
    jobs := s.jobs.filter fun job => job.runId ∉ ids
    attempts := s.attempts.filter fun attempt => attempt.runId ∉ ids
    events := s.events.filter fun event => event.runId ∉ ids
    results := s.results.filter fun result => result.runId ∉ ids
    nonces := s.nonces.filter fun nonce => nonce.runId ∉ ids
    records := s.records.filter fun record => record.resourceId ∉ ids }

def deleteResults (s : Store) (runIds : List Uuid) : Store :=
  { s with results := s.results.filter fun result => result.runId ∉ runIds }

end Store

end Modall
