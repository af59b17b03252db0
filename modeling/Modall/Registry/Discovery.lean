import Modall.Registry.Capabilities

/-!
# Refresh jobs and publication

`RefreshJobService` and `DiscoveryPublicationService` of `modall/registry/discovery.py`. A refresh
is allocated on its connection and queued as a job. A worker leases the job, renews the lease,
checks it once more before it contacts the server, and publishes what it has observed. Two fences
guard every one of these steps: the lease on the job row and the allocation on the connection.
-/
namespace Modall
open Library

structure RefreshLease where
  jobId : Uuid
  actorUserId : Uuid
  workerId : String
  leaseEpoch : Nat
  connectionId : Uuid
  connectionVersionId : Uuid
  controlEpoch : Nat
  generation : Nat
deriving DecidableEq

/-- `DiscoveryResult`. The adapter refuses a server that lists a tool identity twice, so no result
has one twice. -/
structure DiscoveryResult where
  protocolRevision : String
  tools : List ToolDefinition
  normalizedPayload : Json
  byteCount : Nat
  canonicalDigest : Digest
  distinct : (tools.map ToolDefinition.identity).Nodup

namespace Registry

def setRefreshJob (r : Registry) (id : Uuid) (f : DiscoveryRefreshJob → DiscoveryRefreshJob) :
    Registry :=
  { r with refreshJobs := updateWhere (fun job => job.id == id) f r.refreshJobs }

def addRefreshJob (r : Registry) (job : DiscoveryRefreshJob) : Registry :=
  { r with refreshJobs := r.refreshJobs ++ [job] }
def addPayload (r : Registry) (payload : DiscoveryPayload) : Registry :=
  { r with payloads := r.payloads ++ [payload] }
def addSnapshot (r : Registry) (snapshot : DiscoverySnapshot) : Registry :=
  { r with snapshots := r.snapshots ++ [snapshot] }
def addSnapshotCapability (r : Registry) (row : DiscoverySnapshotCapability) : Registry :=
  { r with snapshotCapabilities := r.snapshotCapabilities ++ [row] }

end Registry

/-- Store the mapped object of a job. -/
def putRefreshJob (job : DiscoveryRefreshJob) : Tx Unit :=
  revise fun r => r.setRefreshJob job.id fun _ => job

/-- `InvalidConnectionTransition("refresh lease rejected")`. -/
def refreshLeaseRejected : Failure := .invalidConnectionTransition "refresh lease rejected"

/-- `_lock_eligible_connection`. -/
def lockEligibleConnection (context : WorkspaceContext) (connectionId connectionVersionId : Uuid)
    (controlEpoch generation : Nat) : Tx ServerConnection := do
  let connection ← lockedConnection context connectionId
  raiseIf (connection.lifecycle ∉ [ConnectionLifecycle.verifying, .active, .degraded] ∨
    connection.target ≠ some connectionVersionId ∨
    ¬ connection.Allocated connectionVersionId controlEpoch generation) connectionRejected
  return connection

/-- The columns a lease must agree with. -/
def DiscoveryRefreshJob.leasedTo (job : DiscoveryRefreshJob) (context : WorkspaceContext)
    (lease : RefreshLease) : Bool :=
  job.id == lease.jobId && job.workspaceId == context.workspaceId &&
    job.actorUserId == context.actorUserId && job.actorUserId == lease.actorUserId &&
    job.status == .leased && job.leaseOwner == some lease.workerId &&
    job.leaseEpoch == lease.leaseEpoch && job.connectionId == lease.connectionId &&
    job.connectionVersionId == lease.connectionVersionId &&
    job.controlEpoch == lease.controlEpoch && job.generation == lease.generation

/-- `lease_expires_at > now`, false on a null column. -/
def DiscoveryRefreshJob.unexpired (job : DiscoveryRefreshJob) (now : Time) : Bool :=
  job.leaseExpiresAt.any fun expiresAt => decide (now < expiresAt)

/-- The clock is read only when the lease must not have expired. -/
def expiryReading : (requireUnexpired : Bool) → Tx (Option Time)
  | true => some <$> durableNow
  | false => pure none

/-- `_locked_job_for_lease`. -/
def lockedJobForLease (context : WorkspaceContext) (lease : RefreshLease)
    (requireUnexpired : Bool) : Tx DiscoveryRefreshJob := do
  let now ← expiryReading requireUnexpired
  let job ← selectRow (·.registry.refreshJobs) fun job =>
    job.leasedTo context lease && now.all fun now => job.unexpired now
  match job with
  | none => throw refreshLeaseRejected
  | some job => return job

/-- `_locked_active_job` repeats `_locked_job_for_lease` with `require_unexpired`. -/
def lockedActiveJob (context : WorkspaceContext) (lease : RefreshLease) :
    Tx DiscoveryRefreshJob := lockedJobForLease context lease true

namespace RefreshJobService

/-- `enqueue`. -/
def enqueue (context : WorkspaceContext) (connectionId jobId : Uuid) :
    Tx DiscoveryRefreshJob := do
  let (generation, controlEpoch, versionId) ←
    ConnectionService.allocateRefreshGeneration context connectionId
  revise fun r => r.obsoleteRefreshJobs context.workspaceId connectionId
  let job : DiscoveryRefreshJob :=
    { id := jobId, workspaceId := context.workspaceId, actorUserId := context.actorUserId
      connectionId, connectionVersionId := versionId, generation, controlEpoch
      status := .queued, leaseOwner := none, leaseEpoch := 0, leaseExpiresAt := none }
  revise fun r => r.addRefreshJob job
  return job

/-- `claim`. -/
def claim (context : WorkspaceContext) (jobId : Uuid) (workerId : String) (leaseDuration : Int) :
    Tx RefreshLease := do
  requireCurrentRole context [.admin, .operator] true
  raiseIf (workerId.length = 0 ∨ 128 < workerId.length ∨ leaseDuration ≤ 0)
    (.valueError "invalid refresh lease")
  let job ← selectRow (·.registry.refreshJobs) fun job => job.id == jobId &&
    job.workspaceId == context.workspaceId && job.actorUserId == context.actorUserId
  match job with
  | none => throw accessDenied
  | some job =>
    let claimedAt ← durableNow
    raiseIf (¬ (job.status = .queued ∨ (job.status = .leased ∧
      job.leaseExpiresAt.any (fun expiresAt => decide (expiresAt ≤ claimedAt)) = true)))
      (.invalidConnectionTransition "refresh job cannot be claimed")
    let _ ← lockEligibleConnection context job.connectionId job.connectionVersionId
      job.controlEpoch job.generation
    let leased := { job with
      status := .leased
      leaseOwner := some workerId
      leaseEpoch := job.leaseEpoch + 1
      leaseExpiresAt := some (claimedAt + leaseDuration) }
    putRefreshJob leased
    return { jobId := leased.id, actorUserId := leased.actorUserId, workerId
             leaseEpoch := leased.leaseEpoch, connectionId := leased.connectionId
             connectionVersionId := leased.connectionVersionId
             controlEpoch := leased.controlEpoch, generation := leased.generation }

/-- The principal a job was enqueued by, with its present role. -/
def contextOf (r : Registry) (jobId : Uuid) : Option WorkspaceContext := do
  let job ← r.refreshJobs.find? fun job => job.id == jobId
  let membership ← r.memberships.find? fun m =>
    m.workspaceId == job.workspaceId && m.userId == job.actorUserId
  return ⟨job.workspaceId, job.actorUserId, membership.role⟩

/-- `context_for_job`. -/
def contextForJob (jobId : Uuid) : Tx WorkspaceContext := do
  let context ← query fun s => contextOf s.rows.registry jobId
  match context with
  | none => throw accessDenied
  | some context => return context

/-- `claim_durable`. -/
def claimDurable (jobId : Uuid) (workerId : String) (leaseDuration : Int) :
    Tx (WorkspaceContext × RefreshLease) := do
  let context ← contextForJob jobId
  let lease ← claim context jobId workerId leaseDuration
  return (context, lease)

/-- `renew`. -/
def renew (context : WorkspaceContext) (lease : RefreshLease) (leaseDuration : Int) :
    Tx RefreshLease := do
  requireCurrentRole context [.admin, .operator] true
  raiseIf (leaseDuration ≤ 0) (.valueError "invalid refresh lease")
  let job ← lockedJobForLease context lease false
  let renewedAt ← durableNow
  match job.leaseExpiresAt with
  | none => throw refreshLeaseRejected
  | some expiresAt =>
    raiseIf (expiresAt ≤ renewedAt) refreshLeaseRejected
    let _ ← lockEligibleConnection context lease.connectionId lease.connectionVersionId
      lease.controlEpoch lease.generation
    putRefreshJob { job with leaseExpiresAt := some (max expiresAt (renewedAt + leaseDuration)) }
    return lease

/-- `validate_for_contact`. -/
def validateForContact (context : WorkspaceContext) (lease : RefreshLease) : Tx Unit := do
  requireCurrentRole context [.admin, .operator] true
  let _ ← lockedJobForLease context lease true
  let _ ← lockEligibleConnection context lease.connectionId lease.connectionVersionId
    lease.controlEpoch lease.generation
  return ()

end RefreshJobService

/-! ## Publication -/

/-- `_mark_missing_unavailable` for one capability. -/
def markMissing (context : WorkspaceContext) (observedIdentities : List String)
    (capability : Capability) : Tx Unit :=
  if capability.toolIdentity ∈ observedIdentities ∨ capability.status = .unavailable ∨
      capability.status = .disabled then pure ()
  else do
    let missing := { capability with
      status := .unavailable
      statusEpoch := capability.statusEpoch + 1 }
    putCapability missing
    appendStatusEvent context missing missing.decisionVersionId

/-- `_mark_missing_unavailable`. -/
def markMissingUnavailable (context : WorkspaceContext) (connectionId : Uuid)
    (observedIdentities : List String) : Tx Unit := do
  let capabilities ← query fun s => s.rows.registry.capabilities.filter fun c =>
    c.workspaceId == context.workspaceId && c.connectionId == connectionId
  forM capabilities (markMissing context observedIdentities)

/-- The identifiers a publication draws. -/
structure PublicationDraws where
  payloadId : Uuid
  snapshotId : Uuid
  traceId : Uuid
  tool : String → ToolDraws

/-- The payload of a snapshot, which equal results share. -/
def publishPayload (R : RegistryPlatform) (context : WorkspaceContext) (result : DiscoveryResult)
    (payloadId : Uuid) : Tx Uuid := do
  let payload ← selectRow (·.registry.payloads) fun p =>
    p.workspaceId == context.workspaceId && p.canonicalDigest == result.canonicalDigest
  match payload with
  | none =>
    revise fun r => r.addPayload
      { id := payloadId, workspaceId := context.workspaceId
        canonicalDigest := result.canonicalDigest
        normalizedPayload := result.normalizedPayload, byteCount := result.byteCount }
    return payloadId
  | some payload =>
    raiseIf (payload.byteCount ≠ result.byteCount ∨
      R.jsonEqual payload.normalizedPayload result.normalizedPayload = false)
      (.invalidConnectionTransition "discovery digest collision rejected")
    return payload.id

/-- One turn of the loop of `publish_success`. -/
def publishTool (R : RegistryPlatform) (context : WorkspaceContext) (lease : RefreshLease)
    (protocolRevision : String) (snapshotId : Uuid) (draws : String → ToolDraws)
    (tool : ToolDefinition) : Tx Unit := do
  let version ← recordVersion R context
    ⟨lease.connectionId, lease.connectionVersionId, lease.controlEpoch, lease.generation,
      protocolRevision⟩ tool none (draws tool.identity)
  revise fun r => r.addSnapshotCapability
    { workspaceId := context.workspaceId, connectionId := lease.connectionId
      connectionVersionId := lease.connectionVersionId, snapshotId
      capabilityVersionId := version.id }

namespace DiscoveryPublicationService

/-- The last transition of `publish_success`: consume the allocation. -/
def settle (context : WorkspaceContext) (lease : RefreshLease) (connection : ServerConnection)
    (traceId : Uuid) : Tx ServerConnection :=
  if connection.pendingVersionId ≠ none then
    ConnectionService.promotePending context lease.connectionId lease.connectionVersionId
      lease.controlEpoch lease.generation ⟨none, traceId⟩
  else
    ConnectionService.completeRefresh context lease.connectionId lease.connectionVersionId
      lease.controlEpoch lease.generation

/-- `publish_success`. -/
def publishSuccess (R : RegistryPlatform) (context : WorkspaceContext) (lease : RefreshLease)
    (result : DiscoveryResult) (draws : PublicationDraws) : Tx DiscoverySnapshot := do
  requireCurrentRole context [.admin, .operator] true
  let job ← lockedActiveJob context lease
  let connection ← lockEligibleConnection context lease.connectionId lease.connectionVersionId
    lease.controlEpoch lease.generation
  let payloadId ← publishPayload R context result draws.payloadId
  let snapshot : DiscoverySnapshot :=
    { id := draws.snapshotId, workspaceId := context.workspaceId
      connectionId := lease.connectionId, connectionVersionId := lease.connectionVersionId
      payloadId, generation := lease.generation, controlEpoch := lease.controlEpoch
      protocolRevision := result.protocolRevision }
  revise fun r => r.addSnapshot snapshot
  forM result.tools (publishTool R context lease result.protocolRevision snapshot.id draws.tool)
  markMissingUnavailable context lease.connectionId (result.tools.map ToolDefinition.identity)
  let settled ← settle context lease connection draws.traceId
  let now ← durableNow
  putConnection { settled with
    currentSnapshotId := some snapshot.id
    lastRefreshErrorCode := none
    lastRefreshAt := some now }
  putRefreshJob { job with status := .succeeded, leaseOwner := none, leaseExpiresAt := none }
  return snapshot

/-- `publish_failure`. -/
def publishFailure (context : WorkspaceContext) (lease : RefreshLease)
    (errorCode : DiscoveryFailureCode) : Tx ServerConnection := do
  requireCurrentRole context [.admin, .operator] true
  let job ← lockedActiveJob context lease
  let connection ← lockEligibleConnection context lease.connectionId lease.connectionVersionId
    lease.controlEpoch lease.generation
  let now ← durableNow
  let degraded := ServerConnection.releaseAllocation
    { connection with
      lifecycle := .degraded
      lastRefreshErrorCode := some errorCode
      lastRefreshAt := some now }
  putConnection degraded
  putRefreshJob { job with status := .failed, leaseOwner := none, leaseExpiresAt := none }
  return degraded

end DiscoveryPublicationService

end Modall
