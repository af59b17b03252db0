import Modall.Identity.Repository

/-!
# Server connections

`ConnectionService` of `modall/registry/service.py`: the versions of a connection, its lifecycle
and the allocation that fences a refresh. A connection has a pending and a verified version. Its
`control_epoch` counts the interventions of operators, `refresh_generation` the allocations, and
an allocation names the epoch and the version it was made for.

Every operation holds the workspace row lock, so it runs as one step. It reads back no column
that it has assigned and not flushed, so `revise` writes the rows and the mapped objects at once.
Identifiers that the code draws with `uuid4` are arguments.
-/
namespace Modall
open Library

/-- What the registry calls but does not define here: the endpoint parser with its screens, the
secret scanner, the schema bounds and the equality of Python values. -/
structure RegistryPlatform where
  /-- The text of the `ValueError` that the parser, the host rules or a screen of
  `_validate_configuration` raise for an endpoint of this environment. -/
  endpointError : (environment : String) → (allowLoopbackHttp : Bool) → (endpointUrl : String) →
    (hasSecret : Bool) → Option String
  containsObviousSecret : String → Bool
  /-- The text of the error that `validate_schema_payload` raises. -/
  schemaError : Json → Option Json → Option String
  /-- `==` on decoded JSON, which identifies `1`, `1.0` and `true`. -/
  jsonEqual : Json → Json → Bool
  jsonEqual_refl : ∀ a, jsonEqual a a = true
  jsonEqual_symm : ∀ a b, jsonEqual a b = jsonEqual b a

/-- `InvalidConnectionTransition("connection transition rejected")`. -/
def connectionRejected : Failure := .invalidConnectionTransition "connection transition rejected"

/-- Write registry rows. -/
def revise (f : Registry → Registry) : Tx Unit :=
  execute fun s => { s with registry := f s.registry }

def addAuditEvent (context : WorkspaceContext) (action : AuditAction)
    (resourceType : ResourceType) (resourceId correlationId : Uuid) : Tx Unit :=
  execute fun s => s.addAudit
    { workspaceId := context.workspaceId, actorUserId := context.actorUserId, action,
      resourceType, resourceId, correlationId }

namespace DiscoveryRefreshJob

/-- The job is queued or leased. -/
def outstanding (job : DiscoveryRefreshJob) : Bool := job.status == .queued || job.status == .leased

def obsoleted (job : DiscoveryRefreshJob) : DiscoveryRefreshJob :=
  { job with status := .obsolete, leaseOwner := none, leaseExpiresAt := none }

end DiscoveryRefreshJob

namespace Registry

def setConnection (r : Registry) (id : Uuid) (f : ServerConnection → ServerConnection) :
    Registry :=
  { r with connections := updateWhere (fun c => c.id == id) f r.connections }

/-- `_obsolete_refresh_jobs`; `enqueue` repeats it for the older jobs. -/
def obsoleteRefreshJobs (r : Registry) (workspaceId connectionId : Uuid) : Registry :=
  let selected := fun job : DiscoveryRefreshJob =>
    job.workspaceId == workspaceId && job.connectionId == connectionId && job.outstanding
  { r with refreshJobs := updateWhere selected DiscoveryRefreshJob.obsoleted r.refreshJobs }

def addConnection (r : Registry) (connection : ServerConnection) : Registry :=
  { r with connections := r.connections ++ [connection] }
def addConnectionVersion (r : Registry) (version : ServerConnectionVersion) : Registry :=
  { r with connectionVersions := r.connectionVersions ++ [version] }

end Registry

namespace ServerConnection

/-- `pending_version_id or verified_version_id`. -/
def target (connection : ServerConnection) : Option Uuid :=
  connection.pendingVersionId.or connection.verifiedVersionId

/-- The allocation is the one made for this version, epoch and generation. -/
def Allocated (connection : ServerConnection) (versionId : Uuid) (epoch generation : Nat) : Prop :=
  connection.controlEpoch = epoch ∧ connection.refreshGeneration = generation ∧
    connection.allocatedControlEpoch = some epoch ∧
    connection.allocatedTargetVersionId = some versionId

instance (connection : ServerConnection) (versionId : Uuid) (epoch generation : Nat) :
    Decidable (connection.Allocated versionId epoch generation) :=
  inferInstanceAs (Decidable (_ ∧ _ ∧ _ ∧ _))

def releaseAllocation (connection : ServerConnection) : ServerConnection :=
  { connection with allocatedControlEpoch := none, allocatedTargetVersionId := none }

end ServerConnection

/-- Store the mapped object of a connection. -/
def putConnection (connection : ServerConnection) : Tx Unit :=
  revise fun r => r.setConnection connection.id fun _ => connection

/-- `_locked_connection`. -/
def lockedConnection (context : WorkspaceContext) (connectionId : Uuid) : Tx ServerConnection := do
  let connection ← selectRow (·.registry.connections) fun c =>
    c.id == connectionId && c.workspaceId == context.workspaceId
  match connection with
  | none => throw accessDenied
  | some connection => return connection

/-- The characters `str.strip` removes. -/
def isSpace (c : Char) : Bool :=
  let n := c.toNat
  (9 ≤ n && n ≤ 13) || (28 ≤ n && n ≤ 32) || n == 0x85 || n == 0xA0 || n == 0x1680 ||
    (0x2000 ≤ n && n ≤ 0x200A) || n == 0x2028 || n == 0x2029 || n == 0x202F || n == 0x205F ||
    n == 0x3000

/-- `str.strip`. -/
def strip (text : String) : String :=
  String.ofList ((text.toList.dropWhile isSpace).reverse.dropWhile isSpace).reverse

/-- The identifiers a call that writes an audit event may be given or draws. -/
structure Trace where
  correlationId : Option Uuid
  drawn : Uuid

/-- `correlation_id or uuid4()`. -/
def Trace.id (trace : Trace) : Uuid := trace.correlationId.getD trace.drawn

/-- What `ConnectionService.__init__` is given besides its session. -/
structure ConnectionService where
  environment : String
  allowLoopbackHttp : Bool
  restricted : allowLoopbackHttp = true → environment = "local" ∨ environment = "test"

/-- The alphabet of `_POLICY_VERSION` after its first character. -/
def policyVersionCharacter (c : Char) : Bool :=
  c.isAlphanum || c == '.' || c == '_' || c == '-'

/-- `_POLICY_VERSION.fullmatch`. -/
def isPolicyVersion (text : String) : Bool :=
  match text.toList with
  | [] => false
  | c :: rest => c.isAlphanum && decide (rest.length ≤ 63) && rest.all policyVersionCharacter

/-- `_validate_name`. -/
def validateName (name : String) : Except Failure String :=
  let normalized := strip name
  if normalized.length = 0 ∨ 128 < normalized.length ∨ normalized.toList.contains '\x00' then
    .error (.valueError "connection name must contain between 1 and 128 characters")
  else .ok normalized

/-- The configuration of a new version. -/
structure Configuration where
  endpointUrl : String
  secretBindingId : Option Uuid
  policyVersion : String

namespace ConnectionService

/-- `_validate_configuration`. -/
def validateConfiguration (service : ConnectionService) (R : RegistryPlatform)
    (configuration : Configuration) : Except Failure Unit :=
  let url := configuration.endpointUrl
  if url.length = 0 ∨ 2048 < url.length ∨
      url.toList.any (fun c => c.toNat ≤ 32 || c.toNat == 127) = true then
    .error (.valueError "invalid endpoint URL")
  else match R.endpointError service.environment service.allowLoopbackHttp url
      configuration.secretBindingId.isSome with
    | some message => .error (.valueError message)
    | none =>
      if isPolicyVersion configuration.policyVersion = false then
        .error (.valueError "invalid policy version")
      else .ok ()

/-- `_require_scoped_secret`. -/
def requireScopedSecret (context : WorkspaceContext) (secretBindingId : Option Uuid) : Tx Unit :=
  match secretBindingId with
  | none => pure ()
  | some id => do
    let binding ← selectRow (·.registry.secretBindings) fun row =>
      row.1 == id && row.2 == context.workspaceId
    raiseIf (binding = none) accessDenied

def newVersion (context : WorkspaceContext) (connectionId versionId : Uuid) (sequence : Nat)
    (configuration : Configuration) : ServerConnectionVersion :=
  { id := versionId, workspaceId := context.workspaceId, connectionId, sequence
    endpointUrl := configuration.endpointUrl, secretBindingId := configuration.secretBindingId
    policyVersion := configuration.policyVersion }

def newConnection (context : WorkspaceContext) (name : String) (connectionId versionId : Uuid) :
    ServerConnection :=
  { id := connectionId, workspaceId := context.workspaceId, name
    lifecycle := .verifying
    pendingVersionId := some versionId
    verifiedVersionId := none
    controlEpoch := 0
    refreshGeneration := 0
    allocatedControlEpoch := none
    allocatedTargetVersionId := none
    currentSnapshotId := none
    lastRefreshErrorCode := none
    lastRefreshAt := none }

/-- `create`. -/
def create (service : ConnectionService) (R : RegistryPlatform) (context : WorkspaceContext)
    (name : String) (configuration : Configuration) (trace : Trace)
    (connectionId versionId : Uuid) : Tx ServerConnection := do
  requireCurrentRole context [.admin] true
  let normalizedName ← lift (validateName name)
  lift (service.validateConfiguration R configuration)
  requireScopedSecret context configuration.secretBindingId
  let connection := newConnection context normalizedName connectionId versionId
  revise fun r => (r.addConnection connection).addConnectionVersion
    (newVersion context connectionId versionId 1 configuration)
  addAuditEvent context .connectionCreated .serverConnection connection.id trace.id
  return connection

/-- `append_version`. -/
def appendVersion (service : ConnectionService) (R : RegistryPlatform)
    (context : WorkspaceContext) (connectionId : Uuid) (configuration : Configuration)
    (trace : Trace) (versionId : Uuid) : Tx ServerConnectionVersion := do
  requireCurrentRole context [.admin] true
  lift (service.validateConfiguration R configuration)
  requireScopedSecret context configuration.secretBindingId
  let connection ← lockedConnection context connectionId
  raiseIf (connection.lifecycle = .disabled) connectionRejected
  let sequence ← query fun s => maximum ((s.rows.registry.connectionVersions.filter fun v =>
    v.connectionId == connection.id).map ServerConnectionVersion.sequence)
  let version := newVersion context connection.id versionId (sequence + 1) configuration
  revise fun r => r.addConnectionVersion version
  putConnection (ServerConnection.releaseAllocation
    { connection with
      pendingVersionId := some version.id
      lifecycle := .verifying
      controlEpoch := connection.controlEpoch + 1 })
  revise fun r => r.obsoleteRefreshJobs context.workspaceId connection.id
  addAuditEvent context .connectionVersionAppended .serverConnection connection.id trace.id
  return version

/-- `promote_pending`. -/
def promotePending (context : WorkspaceContext) (connectionId expectedVersionId : Uuid)
    (expectedControlEpoch expectedRefreshGeneration : Nat) (trace : Trace) :
    Tx ServerConnection := do
  requireCurrentRole context [.admin, .operator] true
  let connection ← lockedConnection context connectionId
  raiseIf (connection.lifecycle ≠ .verifying ∨ connection.target ≠ some expectedVersionId ∨
    ¬ connection.Allocated expectedVersionId expectedControlEpoch expectedRefreshGeneration)
    connectionRejected
  let promoted := ServerConnection.releaseAllocation
    { connection with
      verifiedVersionId := some expectedVersionId
      pendingVersionId := none
      lifecycle := .active }
  putConnection promoted
  addAuditEvent context .connectionVerified .serverConnection connection.id trace.id
  return promoted

/-- `disable`. -/
def disable (context : WorkspaceContext) (connectionId : Uuid) (trace : Trace) :
    Tx ServerConnection := do
  requireCurrentRole context [.admin, .operator] true
  let connection ← lockedConnection context connectionId
  raiseIf (connection.lifecycle = .disabled) connectionRejected
  let disabled := ServerConnection.releaseAllocation
    { connection with lifecycle := .disabled, controlEpoch := connection.controlEpoch + 1 }
  putConnection disabled
  revise fun r => r.obsoleteRefreshJobs context.workspaceId connection.id
  addAuditEvent context .connectionDisabled .serverConnection connection.id trace.id
  return disabled

/-- `enable`. -/
def enable (context : WorkspaceContext) (connectionId : Uuid) (trace : Trace) :
    Tx ServerConnection := do
  requireCurrentRole context [.admin] true
  let connection ← lockedConnection context connectionId
  raiseIf (connection.lifecycle ≠ .disabled) connectionRejected
  let enabled := ServerConnection.releaseAllocation
    { connection with lifecycle := .verifying, controlEpoch := connection.controlEpoch + 1 }
  putConnection enabled
  addAuditEvent context .connectionEnabled .serverConnection connection.id trace.id
  return enabled

/-- `allocate_refresh_generation`. -/
def allocateRefreshGeneration (context : WorkspaceContext) (connectionId : Uuid) :
    Tx (Nat × Nat × Uuid) := do
  requireCurrentRole context [.admin, .operator] true
  let connection ← lockedConnection context connectionId
  raiseIf (connection.lifecycle = .disabled) connectionRejected
  match connection.target with
  | none => throw connectionRejected
  | some target =>
    let allocated :=
      { connection with
        lifecycle := if connection.pendingVersionId ≠ none ∧ connection.lifecycle = .degraded
          then .verifying else connection.lifecycle
        refreshGeneration := connection.refreshGeneration + 1
        allocatedControlEpoch := some connection.controlEpoch
        allocatedTargetVersionId := some target }
    putConnection allocated
    return (allocated.refreshGeneration, allocated.controlEpoch, target)

/-- `complete_refresh`. -/
def completeRefresh (context : WorkspaceContext) (connectionId expectedVersionId : Uuid)
    (expectedControlEpoch expectedRefreshGeneration : Nat) : Tx ServerConnection := do
  requireCurrentRole context [.admin, .operator] true
  let connection ← lockedConnection context connectionId
  raiseIf (connection.lifecycle ∉ [ConnectionLifecycle.verifying, .active, .degraded] ∨
    connection.pendingVersionId ≠ none ∨
    connection.verifiedVersionId ≠ some expectedVersionId ∨
    ¬ connection.Allocated expectedVersionId expectedControlEpoch expectedRefreshGeneration)
    connectionRejected
  let completed := ServerConnection.releaseAllocation { connection with lifecycle := .active }
  putConnection completed
  return completed

end ConnectionService

end Modall
