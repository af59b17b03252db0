import Modall.Execution.Leasing
import Modall.Registry.Connections

/-!
# Capabilities

`CapabilityService` of `modall/registry/service.py`. A capability is a tool of a connection. Its
versions record what discovery has observed of it; the `pending` one awaits review, the `enabled`
one has passed it. Every change of the projection counts up `status_epoch` and appends a status
event. `record_version` runs inside a publication, once for each tool the server offers.
-/
namespace Modall
open Library

/-- `InvalidCapabilityTransition("capability transition rejected")`. -/
def capabilityRejected : Failure := .invalidCapabilityTransition "capability transition rejected"

/-- `ToolDefinition`, as discovery hands it on. -/
structure ToolDefinition where
  identity : String
  name : String
  displayName : String
  description : Option String
  inputSchema : Json
  outputSchema : Option Json
  metadataDigest : Digest
  schemaSupported : Bool

/-- The identifiers `record_version` draws if it needs them. -/
structure ToolDraws where
  capabilityId : Uuid
  versionId : Uuid
  traceId : Uuid

namespace Registry

def setCapability (r : Registry) (id : Uuid) (f : Capability → Capability) : Registry :=
  { r with capabilities := updateWhere (fun c => c.id == id) f r.capabilities }

def addCapability (r : Registry) (capability : Capability) : Registry :=
  { r with capabilities := r.capabilities ++ [capability] }
def addCapabilityVersion (r : Registry) (version : CapabilityVersion) (binding : McpToolBinding) :
    Registry :=
  { r with
    capabilityVersions := r.capabilityVersions ++ [version]
    bindings := r.bindings ++ [binding] }
def addStatusEvent (r : Registry) (event : CapabilityStatusEvent) : Registry :=
  { r with statusEvents := r.statusEvents ++ [event] }

end Registry

/-- Store the mapped object of a capability. -/
def putCapability (capability : Capability) : Tx Unit :=
  revise fun r => r.setCapability capability.id fun _ => capability

/-- `_append_status_event`. -/
def appendStatusEvent (context : WorkspaceContext) (capability : Capability)
    (capabilityVersionId : Option Uuid) : Tx Unit :=
  revise fun r => r.addStatusEvent
    { workspaceId := context.workspaceId, capabilityId := capability.id, capabilityVersionId
      status := capability.status, statusEpoch := capability.statusEpoch
      actorUserId := context.actorUserId }

/-- `_locked_capability`. -/
def lockedCapability (context : WorkspaceContext) (capabilityId : Uuid) : Tx Capability := do
  let capability ← selectRow (·.registry.capabilities) fun c =>
    c.id == capabilityId && c.workspaceId == context.workspaceId
  match capability with
  | none => throw accessDenied
  | some capability => return capability

/-! ## Metadata -/

/-- `_DIGEST.fullmatch`. -/
def isMetadataDigest (text : String) : Bool :=
  text.length == 64 && text.toList.all fun c => c.isDigit || ('a' ≤ c && c ≤ 'f')

/-- `_PROTOCOL_REVISION.fullmatch`. -/
def isProtocolRevision (text : String) : Bool :=
  match text.toList with
  | [] => false
  | c :: rest => c.isAlphanum && decide (rest.length ≤ 63) &&
      rest.all fun c => c.isAlphanum || c == '.' || c == '_' || c == '/' || c == '-'

/-- A scalar that `validate_capability_scalars` refuses for its length or a null character. -/
def unfitScalar (least most : Nat) (text : String) : Bool :=
  text.length < least || most < text.length || text.toList.contains '\x00'

/-- `validate_capability_scalars`. -/
def RegistryPlatform.validateCapabilityScalars (R : RegistryPlatform) (tool : ToolDefinition)
    (protocolRevision : String) : Except Failure Unit :=
  if unfitScalar 1 256 tool.identity then .error (.valueError "invalid tool identity")
  else if unfitScalar 1 256 tool.name then .error (.valueError "invalid tool name")
  else if unfitScalar 1 256 tool.displayName then .error (.valueError "invalid display name")
  else if tool.description.any (unfitScalar 0 2048) then
    .error (.valueError "invalid description")
  else if ([tool.identity, tool.name, tool.displayName] ++ tool.description.toList ++
      [protocolRevision]).any R.containsObviousSecret then
    .error (.valueError "capability metadata contains credential-shaped content")
  else .ok ()

/-- `_validate_metadata`. -/
def RegistryPlatform.validateMetadata (R : RegistryPlatform) (tool : ToolDefinition)
    (protocolRevision : String) : Except Failure Unit := do
  if isMetadataDigest tool.metadataDigest = false then
    throw (.valueError "invalid metadata digest")
  if isProtocolRevision protocolRevision = false then
    throw (.valueError "invalid protocol revision")
  R.validateCapabilityScalars tool protocolRevision
  match R.schemaError tool.inputSchema tool.outputSchema with
  | some message => throw (.valueError message)
  | none => return ()

/-- `==` where either side may be `None`. -/
def RegistryPlatform.optionEqual (R : RegistryPlatform) : Option Json → Option Json → Bool
  | none, none => true
  | some a, some b => R.jsonEqual a b
  | _, _ => false

/-! ## `record_version` -/

/-- The rows `_matching_current_version` finds. -/
def Registry.matchingRows (r : Registry) (capability : Capability) (connectionVersionId : Uuid)
    (tool : ToolDefinition) (protocolRevision : String) :
    List (CapabilityVersion × McpToolBinding) :=
  r.capabilityVersions.flatMap fun version =>
    (r.bindings.filter fun binding =>
      binding.capabilityVersionId == version.id && version.capabilityId == capability.id &&
        version.workspaceId == capability.workspaceId &&
        version.metadataDigest == tool.metadataDigest &&
        binding.connectionVersionId == connectionVersionId && binding.toolName == tool.name &&
        binding.protocolRevision == protocolRevision).map fun binding => (version, binding)

/-- The comparison at the end of `_matching_current_version`. -/
def RegistryPlatform.sameMetadata (R : RegistryPlatform) (tool : ToolDefinition)
    (version : CapabilityVersion) : Bool :=
  version.displayName == tool.displayName && version.description == tool.description &&
    R.jsonEqual version.inputSchema tool.inputSchema &&
    R.optionEqual version.outputSchema tool.outputSchema &&
    version.metadataDigest == tool.metadataDigest &&
    version.schemaSupported == tool.schemaSupported

/-- `_matching_current_version`: the enabled version before the pending one before the others,
latest first. A version has one binding, so the rows are found by their version. -/
def Registry.matchingVersion (R : RegistryPlatform) (r : Registry) (capability : Capability)
    (connectionVersionId : Uuid) (tool : ToolDefinition) (protocolRevision : String) :
    Option CapabilityVersion :=
  let currentIds := capability.enabledVersionId.toList ++ capability.pendingVersionId.toList
  let foundRows := r.matchingRows capability connectionVersionId tool protocolRevision
  let historicalIds :=
    ((orderedBy (fun a b => b.1.sequence ≤ a.1.sequence) foundRows).map fun row => row.1.id).filter
      fun id => id ∉ currentIds
  let candidates := (currentIds ++ historicalIds).filterMap fun id =>
    (foundRows.find? fun row => row.1.id == id).map Prod.fst
  candidates.find? (R.sameMetadata tool)

/-- The known version of a tool is observed again. -/
def reobserve (context : WorkspaceContext) (capability : Capability)
    (existing : CapabilityVersion) : Tx Unit :=
  if capability.enabledVersionId = some existing.id ∧ capability.pendingVersionId ≠ none then do
    let changed := { capability with
      pendingVersionId := none
      status := if capability.status ≠ .disabled then .enabled else capability.status
      statusEpoch := capability.statusEpoch + 1 }
    putCapability changed
    appendStatusEvent context changed (some existing.id)
  else if capability.enabledVersionId = some existing.id ∧ capability.status = .unavailable then do
    let changed := { capability with
      status := .enabled
      statusEpoch := capability.statusEpoch + 1 }
    putCapability changed
    appendStatusEvent context changed (some existing.id)
  else if capability.status = .unavailable ∧ capability.pendingVersionId = some existing.id then do
    let changed := { capability with
      status := .pendingReview
      statusEpoch := capability.statusEpoch + 1 }
    putCapability changed
    appendStatusEvent context changed (some existing.id)
  else if capability.enabledVersionId ≠ some existing.id ∧
      capability.pendingVersionId ≠ some existing.id then do
    let changed := { capability with
      pendingVersionId := some existing.id
      status := if capability.status ≠ .disabled then .pendingReview else capability.status
      statusEpoch := capability.statusEpoch + 1 }
    putCapability changed
    appendStatusEvent context changed (some existing.id)
  else pure ()

/-- The version and the binding `record_version` adds. -/
def newCapabilityVersion (context : WorkspaceContext) (capability : Capability) (sequence : Nat)
    (tool : ToolDefinition) (versionId : Uuid) : CapabilityVersion :=
  { id := versionId, workspaceId := context.workspaceId, capabilityId := capability.id, sequence
    displayName := tool.displayName, description := tool.description
    inputSchema := tool.inputSchema, outputSchema := tool.outputSchema
    metadataDigest := tool.metadataDigest, schemaSupported := tool.schemaSupported }

def newBinding (context : WorkspaceContext) (capability : Capability)
    (connectionId connectionVersionId : Uuid) (tool : ToolDefinition) (protocolRevision : String)
    (versionId : Uuid) : McpToolBinding :=
  { capabilityVersionId := versionId, capabilityId := capability.id
    workspaceId := context.workspaceId, connectionId, connectionVersionId
    toolName := tool.name, protocolRevision }

/-- The end of `record_version`: metadata that has not been seen before. -/
def recordNewVersion (context : WorkspaceContext) (capability : Capability) (sequence : Nat)
    (connectionId connectionVersionId : Uuid) (tool : ToolDefinition) (protocolRevision : String)
    (correlationId : Option Uuid) (draws : ToolDraws) : Tx CapabilityVersion := do
  let version := newCapabilityVersion context capability sequence tool draws.versionId
  revise fun r => r.addCapabilityVersion version (newBinding context capability connectionId
    connectionVersionId tool protocolRevision draws.versionId)
  let changed := { capability with
    pendingVersionId := some version.id
    status := if capability.status ≠ .disabled then .pendingReview else capability.status
    statusEpoch := capability.statusEpoch + 1 }
  putCapability changed
  appendStatusEvent context changed (some version.id)
  addAuditEvent context .capabilityVersionRecorded .capability capability.id
    (correlationId.getD draws.traceId)
  return version

/-- The row of a tool that is observed for the first time. -/
def newCapability (context : WorkspaceContext) (connectionId : Uuid) (tool : ToolDefinition)
    (capabilityId : Uuid) : Capability :=
  { id := capabilityId, workspaceId := context.workspaceId, connectionId
    toolIdentity := tool.identity, pendingVersionId := none, enabledVersionId := none
    status := .pendingReview, statusEpoch := 0 }

/-- What `record_version` is told about the refresh it belongs to. -/
structure Observed where
  connectionId : Uuid
  connectionVersionId : Uuid
  expectedControlEpoch : Nat
  expectedRefreshGeneration : Nat
  protocolRevision : String

/-- `record_version`. -/
def recordVersion (R : RegistryPlatform) (context : WorkspaceContext) (observed : Observed)
    (tool : ToolDefinition) (correlationId : Option Uuid) (draws : ToolDraws) :
    Tx CapabilityVersion := do
  requireCurrentRole context [.admin, .operator] true
  lift (R.validateMetadata tool observed.protocolRevision)
  let connection ← lockedConnection context observed.connectionId
  raiseIf (connection.lifecycle = .disabled ∨
    connection.target ≠ some observed.connectionVersionId ∨
    ¬ connection.Allocated observed.connectionVersionId observed.expectedControlEpoch
      observed.expectedRefreshGeneration) connectionRejected
  let capability ← selectRow (·.registry.capabilities) fun c =>
    c.workspaceId == context.workspaceId && c.connectionId == observed.connectionId &&
      c.toolIdentity == tool.identity
  match capability with
  | some capability =>
    let existing ← query fun s => s.rows.registry.matchingVersion R capability
      observed.connectionVersionId tool observed.protocolRevision
    match existing with
    | some existing =>
      reobserve context capability existing
      return existing
    | none =>
      let sequence ← query fun s => maximum ((s.rows.registry.capabilityVersions.filter fun v =>
        v.capabilityId == capability.id).map CapabilityVersion.sequence)
      recordNewVersion context capability (sequence + 1) observed.connectionId
        observed.connectionVersionId tool observed.protocolRevision correlationId draws
  | none =>
    let capability := newCapability context observed.connectionId tool draws.capabilityId
    revise fun r => r.addCapability capability
    recordNewVersion context capability 1 observed.connectionId observed.connectionVersionId tool
      observed.protocolRevision correlationId draws

/-! ## Review -/

/-- `pending_version_id or enabled_version_id`. -/
def Capability.decisionVersionId (capability : Capability) : Option Uuid :=
  capability.pendingVersionId.or capability.enabledVersionId

/-- The last check of `enable`: the version can be run as the connection stands. -/
def Registry.reviewable (r : Registry) (context : WorkspaceContext) (capability : Capability)
    (expectedVersionId : Uuid) : Bool :=
  let binding := r.bindings.find? fun b => b.capabilityVersionId == expectedVersionId &&
    b.capabilityId == capability.id && b.workspaceId == context.workspaceId
  let version := r.capabilityVersions.find? fun v => v.id == expectedVersionId &&
    v.capabilityId == capability.id && v.workspaceId == context.workspaceId
  let connection := r.connections.find? fun c =>
    c.id == capability.connectionId && c.workspaceId == context.workspaceId
  let observed := connection.any fun connection =>
    connection.currentSnapshotId.any fun snapshotId => binding.any fun binding =>
      r.snapshotCapabilities.any fun row => row.workspaceId == context.workspaceId &&
        row.connectionId == capability.connectionId &&
        row.connectionVersionId == binding.connectionVersionId && row.snapshotId == snapshotId &&
        row.capabilityVersionId == expectedVersionId
  version.any (fun version => version.schemaSupported) && observed &&
    binding.any fun binding => binding.protocolRevision == qualifiedProtocolRevision &&
      connection.any fun connection => connection.lifecycle == .active &&
        connection.pendingVersionId == none &&
        connection.verifiedVersionId == some binding.connectionVersionId

namespace CapabilityService

/-- `enable`. -/
def enable (context : WorkspaceContext) (capabilityId expectedVersionId : Uuid) (trace : Trace) :
    Tx Capability := do
  requireCurrentRole context [.admin, .operator] true
  let capability ← lockedCapability context capabilityId
  raiseIf (capability.decisionVersionId ≠ some expectedVersionId ∨ capability.status = .enabled)
    capabilityRejected
  let reviewable ← query fun s =>
    s.rows.registry.reviewable context capability expectedVersionId
  raiseIf (reviewable = false) capabilityRejected
  let enabled := { capability with
    enabledVersionId := some expectedVersionId
    pendingVersionId := none
    status := .enabled
    statusEpoch := capability.statusEpoch + 1 }
  putCapability enabled
  appendStatusEvent context enabled (some expectedVersionId)
  addAuditEvent context .capabilityEnabled .capability capability.id trace.id
  return enabled

/-- `disable`. -/
def disable (context : WorkspaceContext) (capabilityId expectedVersionId : Uuid)
    (trace : Trace) : Tx Capability := do
  requireCurrentRole context [.admin, .operator] true
  let capability ← lockedCapability context capabilityId
  raiseIf (capability.status = .disabled ∨ capability.decisionVersionId = none ∨
    capability.decisionVersionId ≠ some expectedVersionId) capabilityRejected
  let disabled := { capability with
    status := .disabled
    statusEpoch := capability.statusEpoch + 1 }
  putCapability disabled
  appendStatusEvent context disabled capability.decisionVersionId
  addAuditEvent context .capabilityDisabled .capability capability.id trace.id
  return disabled

end CapabilityService

end Modall
