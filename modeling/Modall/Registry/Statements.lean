import Modall.Execution.Statements
import Modall.Registry.Dossiers

/-!
# What the statements of the registry return

One lemma for each operation of the registry services, for a session that runs alone: the
operation returns exactly when its guards pass, and then it has written what the lemma says.
`Session.Revised` collects the writes of a transaction into one change of the registry.
-/
namespace Modall
open Library

namespace Session

/-- The session after registry rows have been written. -/
def revise (s : Session) (f : Registry → Registry) : Session :=
  { s with
    rows := { s.rows with registry := f s.rows.registry }
    objects := { s.objects with registry := f s.objects.registry } }

/-- The session after an audit event has been added. -/
def audited (s : Session) (event : AuditEvent) : Session :=
  { s with rows := s.rows.addAudit event, objects := s.objects.addAudit event }

/-- The session has come to rest with this registry, and has written audit events at most
besides. -/
structure Revised (s t : Session) (r : Registry) : Prop where
  settled : t.Settled
  clock : s.clock ≤ t.clock
  rows : ∃ audit, t.rows = { s.rows with registry := r, audit }

theorem Revised.registry {s t : Session} {r : Registry} (h : s.Revised t r) :
    t.rows.registry = r := by
  obtain ⟨audit, rows⟩ := h.rows
  rw [rows]

theorem Settled.revised {s : Session} (h : s.Settled) : s.Revised s s.rows.registry :=
  ⟨h, le_refl _, s.rows.audit, rfl⟩

theorem Revised.revise {s t : Session} {r : Registry} (h : s.Revised t r)
    (f : Registry → Registry) : s.Revised (t.revise f) (f r) := by
  obtain ⟨audit, rows⟩ := h.rows
  refine ⟨⟨?_, h.settled.alone⟩, h.clock, audit, ?_⟩
  · simp [Session.revise, h.settled.flushed]
  · simp [Session.revise, rows]

theorem Revised.audited {s t : Session} {r : Registry} (h : s.Revised t r) (event : AuditEvent) :
    s.Revised (t.audited event) r := by
  obtain ⟨audit, rows⟩ := h.rows
  refine ⟨⟨?_, h.settled.alone⟩, h.clock, audit ++ [event], ?_⟩
  · simp [Session.audited, h.settled.flushed]
  · simp [Session.audited, Store.addAudit, rows]

theorem Revised.trans {s t u : Session} {r r' : Registry} (h : s.Revised t r)
    (g : t.Revised u r') : s.Revised u r' := by
  obtain ⟨_, rows⟩ := h.rows
  obtain ⟨audit, rows'⟩ := g.rows
  exact ⟨g.settled, h.clock.trans g.clock, audit, by rw [rows', rows]⟩

/-- Time passes. -/
theorem Revised.read {s t u : Session} {r : Registry} (h : s.Revised t r)
    (g : t.Revised u t.rows.registry) : s.Revised u r := h.trans (h.registry ▸ g)

end Session

/-- The principal still has one of the roles. -/
structure Registry.Authorizes (r : Registry) (context : WorkspaceContext) (roles : List Role) :
    Prop where
  role : context.role ∈ roles
  workspace : context.workspaceId ∈ r.workspaces
  membership : ∃ m, r.memberships.find? (fun m => m.workspaceId == context.workspaceId &&
    m.userId == context.actorUserId) = some m ∧ m.role ∈ roles

/-- A connection of the caller's workspace. -/
structure Registry.Located (r : Registry) (context : WorkspaceContext) (connectionId : Uuid)
    (c : ServerConnection) : Prop where
  mem : c ∈ r.connections
  id : c.id = connectionId
  workspaceId : c.workspaceId = context.workspaceId

theorem Registry.located_of_find {r : Registry} {context : WorkspaceContext} {connectionId : Uuid}
    {c : ServerConnection} (h : r.connections.find? (fun c => c.id == connectionId &&
      c.workspaceId == context.workspaceId) = some c) : r.Located context connectionId c := by
  have found := List.find?_some h
  simp only [Bool.and_eq_true, beq_iff_eq] at found
  exact ⟨List.mem_of_find?_eq_some h, found.1, found.2⟩

section Rules
variable {s t : Session} {context : WorkspaceContext} {connectionId : Uuid} {u : Unit}

theorem pure_eq_ok {α : Type} {a b : α} : (pure a : Tx α) s = .ok b t ↔ b = a ∧ t = s := by
  simp [eq_comm]

theorem query_eq_ok {α : Type} {f : Session → α} {a : α} :
    (query f : Tx α) s = .ok a t ↔ a = f s ∧ t = s := by
  simp [eq_comm]

theorem selectRow_eq_ok {α : Type} {table : Store → List α} {p : α → Bool} {a : Option α} :
    selectRow table p s = .ok a t ↔ a = (table s.rows).find? p ∧ t = s := query_eq_ok

theorem revise_apply (f : Registry → Registry) (s : Session) :
    revise f s = .ok () (s.revise f) := rfl

theorem revise_eq_ok {f : Registry → Registry} : revise f s = .ok u t ↔ t = s.revise f := by
  rw [revise_apply, EStateM.Result.ok.injEq]
  simp [eq_comm]

theorem putConnection_eq_ok {connection : ServerConnection} :
    putConnection connection s = .ok u t ↔
      t = s.revise fun r => r.setConnection connection.id fun _ => connection := revise_eq_ok

theorem putRefreshJob_eq_ok {job : DiscoveryRefreshJob} :
    putRefreshJob job s = .ok u t ↔ t = s.revise fun r => r.setRefreshJob job.id fun _ => job :=
  revise_eq_ok

theorem addAuditEvent_eq_ok {action : AuditAction} {resourceType : ResourceType}
    {resourceId correlationId : Uuid} :
    addAuditEvent context action resourceType resourceId correlationId s = .ok u t ↔
      t = s.audited ⟨context.workspaceId, context.actorUserId, action, resourceType, resourceId,
        correlationId⟩ := by
  simp [addAuditEvent, Session.audited, eq_comm]

theorem requireCurrentRole_eq_ok {roles : List Role} (settled : s.Settled) :
    requireCurrentRole context roles true s = .ok u t ↔
      s.rows.registry.Authorizes context roles ∧ t = s := by
  have alone : othersCommit s = .ok () s := by simp [othersCommit, settled.alone]
  have locked (t : Session) : lockWorkspace context.workspaceId s = .ok () t ↔
      context.workspaceId ∈ s.rows.registry.workspaces ∧ t = s := by
    unfold lockWorkspace
    rw [bind_of_ok alone]
    simp only [bind_eq_ok, selectRow_eq_ok, raiseIf_eq_ok]
    simp
  have allowed : currentRole s.rows context roles = true ↔ ∃ m,
      s.rows.registry.memberships.find? (fun m => m.workspaceId == context.workspaceId &&
        m.userId == context.actorUserId) = some m ∧ m.role ∈ roles := by
    unfold currentRole
    cases s.rows.registry.memberships.find? fun m => m.workspaceId == context.workspaceId &&
      m.userId == context.actorUserId <;> simp
  simp only [requireCurrentRole, requireRole, bind_eq_ok, raiseIf_eq_ok, not_not, runIf_pos,
    query_eq_ok, Bool.not_eq_false]
  constructor
  · rintro ⟨_, _, ⟨role, rfl⟩, _, _, hlock, _, _, ⟨rfl, rfl⟩, hallowed, rfl⟩
    obtain ⟨workspace, rfl⟩ := (locked _).mp hlock
    exact ⟨⟨role, workspace, allowed.mp hallowed⟩, rfl⟩
  · rintro ⟨⟨role, workspace, membership⟩, rfl⟩
    exact ⟨(), t, ⟨role, rfl⟩, (), t, (locked t).mpr ⟨workspace, rfl⟩, _, t, ⟨rfl, rfl⟩,
      allowed.mpr membership, rfl⟩

theorem lockedConnection_eq_ok {connection : ServerConnection} :
    lockedConnection context connectionId s = .ok connection t ↔
      s.rows.registry.connections.find? (fun c => c.id == connectionId &&
        c.workspaceId == context.workspaceId) = some connection ∧ t = s := by
  unfold lockedConnection
  rw [bind_of_ok (selectRow_apply _ _ _)]
  cases s.rows.registry.connections.find? fun c => c.id == connectionId &&
    c.workspaceId == context.workspaceId with
  | none => simp
  | some found => simp [eq_comm]

theorem lockEligibleConnection_eq_ok {versionId : Uuid} {epoch generation : Nat}
    {connection : ServerConnection} :
    lockEligibleConnection context connectionId versionId epoch generation s =
        .ok connection t ↔
      (s.rows.registry.connections.find? (fun c => c.id == connectionId &&
        c.workspaceId == context.workspaceId) = some connection ∧
      connection.lifecycle ≠ .disabled ∧ connection.target = some versionId ∧
      connection.Allocated versionId epoch generation) ∧ t = s := by
  have open' : connection.lifecycle ∈ [ConnectionLifecycle.verifying, .active, .degraded] ↔
      connection.lifecycle ≠ .disabled := by
    cases connection.lifecycle <;> decide
  simp only [lockEligibleConnection, bind_eq_ok, lockedConnection_eq_ok, raiseIf_eq_ok, pure_eq_ok,
    not_or, not_not, ne_eq]
  constructor
  · rintro ⟨found, _, ⟨hfind, rfl⟩, _, _, ⟨⟨h₁, h₂, h₃⟩, rfl⟩, rfl, rfl⟩
    exact ⟨⟨hfind, open'.mp h₁, h₂, h₃⟩, rfl⟩
  · rintro ⟨⟨hfind, h₁, h₂, h₃⟩, rfl⟩
    exact ⟨connection, t, ⟨hfind, rfl⟩, (), t, ⟨⟨open'.mpr h₁, h₂, h₃⟩, rfl⟩, rfl, rfl⟩

theorem durableNow_revised (settled : s.Settled) {now : Time} (h : durableNow s = .ok now t) :
    s.Revised t s.rows.registry := by
  obtain ⟨-, rows, objects, commits, -, clock⟩ := durableNow_eq_ok h
  refine ⟨⟨?_, commits.trans settled.alone⟩, clock, s.rows.audit, by rw [rows]⟩
  rw [objects, rows, settled.flushed]

theorem durableNow_returns (s : Session) : ∃ now t, durableNow s = .ok now t := by
  unfold durableNow
  cases s.ticks with
  | nil => exact ⟨_, _, rfl⟩
  | cons tick ticks => exact ⟨_, _, rfl⟩

/-- A lease that a job still carries. -/
theorem lockedJobForLease_ok (settled : s.Settled) {lease : RefreshLease} {unexpired : Bool}
    {job : DiscoveryRefreshJob} (h : lockedJobForLease context lease unexpired s = .ok job t) :
    s.Revised t s.rows.registry ∧ job ∈ s.rows.registry.refreshJobs ∧
      job.leasedTo context lease = true := by
  unfold lockedJobForLease at h
  rw [bind_eq_ok] at h
  obtain ⟨now, v, hv, h⟩ := h
  have read : s.Revised v s.rows.registry := by
    cases unexpired with
    | true =>
      change (some <$> durableNow) s = _ at hv
      rw [map_eq_pure_bind, bind_eq_ok] at hv
      obtain ⟨now', w, hw, hv⟩ := hv
      obtain ⟨-, rfl⟩ := pure_eq_ok.mp hv
      exact durableNow_revised settled hw
    | false =>
      obtain ⟨-, rfl⟩ := pure_eq_ok.mp hv
      exact settled.revised
  rw [bind_of_ok (selectRow_apply _ _ _), read.registry] at h
  cases hfind : s.rows.registry.refreshJobs.find? (fun job => job.leasedTo context lease &&
      now.all fun now => job.unexpired now) with
  | none =>
    rw [hfind] at h
    cases h
  | some found =>
    rw [hfind] at h
    obtain ⟨rfl, rfl⟩ := pure_eq_ok.mp h
    have leased := List.find?_some hfind
    simp only [Bool.and_eq_true] at leased
    exact ⟨read, List.mem_of_find?_eq_some hfind, leased.1⟩

end Rules

/-! ## Connections -/

namespace ConnectionService
variable {s t : Session} {context : WorkspaceContext} {connectionId : Uuid} {trace : Trace}

theorem requireScopedSecret_ok {secretBindingId : Option Uuid} {u : Unit}
    (h : requireScopedSecret context secretBindingId s = .ok u t) : t = s := by
  cases secretBindingId with
  | none => exact (pure_eq_ok.mp h).2
  | some id =>
    simp only [requireScopedSecret, bind_eq_ok, selectRow_eq_ok, raiseIf_eq_ok] at h
    obtain ⟨_, _, ⟨-, rfl⟩, -, rfl⟩ := h
    rfl

theorem create_ok {service : ConnectionService} {R : RegistryPlatform} {name : String}
    {configuration : Configuration} {versionId : Uuid} {result : ServerConnection}
    (settled : s.Settled)
    (h : service.create R context name configuration trace connectionId versionId s =
      .ok result t) :
    ∃ name' version, s.Revised t ((s.rows.registry.addConnection
      (newConnection context name' connectionId versionId)).addConnectionVersion version) := by
  simp only [create, bind_eq_ok, requireCurrentRole_eq_ok settled, lift_eq_ok, revise_eq_ok,
    addAuditEvent_eq_ok, pure_eq_ok] at h
  obtain ⟨_, _, ⟨-, rfl⟩, name', _, ⟨-, rfl⟩, _, _, ⟨-, rfl⟩, _, _, secret, _, _, rfl, _, _, rfl,
    -, rfl⟩ := h
  obtain rfl := requireScopedSecret_ok secret
  exact ⟨name', _, (settled.revised.revise _).audited _⟩

theorem appendVersion_ok {service : ConnectionService} {R : RegistryPlatform}
    {configuration : Configuration} {versionId : Uuid} {result : ServerConnectionVersion}
    (settled : s.Settled)
    (h : service.appendVersion R context connectionId configuration trace versionId s =
      .ok result t) :
    ∃ c, s.rows.registry.Located context connectionId c ∧
      s.Revised t (((s.rows.registry.addConnectionVersion result).setConnection c.id fun _ =>
        c.intervened .verifying (some result.id)).obsoleteRefreshJobs context.workspaceId c.id) := by
  simp only [appendVersion, bind_eq_ok, requireCurrentRole_eq_ok settled, lift_eq_ok,
    lockedConnection_eq_ok, raiseIf_eq_ok, query_eq_ok, revise_eq_ok, putConnection_eq_ok,
    addAuditEvent_eq_ok, pure_eq_ok] at h
  obtain ⟨_, _, ⟨-, rfl⟩, _, _, ⟨-, rfl⟩, _, _, secret, c, _, ⟨found, rfl⟩, _, _, ⟨-, rfl⟩, _, _,
    ⟨-, rfl⟩, _, _, rfl, _, _, rfl, _, _, rfl, _, _, rfl, rfl, rfl⟩ := h
  obtain rfl := requireScopedSecret_ok secret
  exact ⟨c, Registry.located_of_find found,
    (((settled.revised.revise _).revise _).revise _).audited _⟩

theorem disable_ok {result : ServerConnection} (settled : s.Settled)
    (h : disable context connectionId trace s = .ok result t) :
    ∃ c, s.rows.registry.Located context connectionId c ∧
      s.Revised t ((s.rows.registry.setConnection c.id fun _ =>
        c.intervened .disabled c.pendingVersionId).obsoleteRefreshJobs context.workspaceId c.id) := by
  simp only [disable, bind_eq_ok, requireCurrentRole_eq_ok settled, lockedConnection_eq_ok,
    raiseIf_eq_ok, revise_eq_ok, putConnection_eq_ok, addAuditEvent_eq_ok, pure_eq_ok] at h
  obtain ⟨_, _, ⟨-, rfl⟩, c, _, ⟨found, rfl⟩, _, _, ⟨-, rfl⟩, _, _, rfl, _, _, rfl, _, _, rfl, -,
    rfl⟩ := h
  exact ⟨c, Registry.located_of_find found, ((settled.revised.revise _).revise _).audited _⟩

theorem enable_ok {result : ServerConnection} (settled : s.Settled)
    (h : enable context connectionId trace s = .ok result t) :
    ∃ c, s.rows.registry.Located context connectionId c ∧ c.lifecycle = .disabled ∧
      s.Revised t (s.rows.registry.setConnection c.id fun _ =>
        c.intervened .verifying c.pendingVersionId) := by
  simp only [enable, bind_eq_ok, requireCurrentRole_eq_ok settled, lockedConnection_eq_ok,
    raiseIf_eq_ok, putConnection_eq_ok, addAuditEvent_eq_ok, pure_eq_ok, ne_eq, not_not] at h
  obtain ⟨_, _, ⟨-, rfl⟩, c, _, ⟨found, rfl⟩, _, _, ⟨disabled, rfl⟩, _, _, rfl, _, _, rfl, -,
    rfl⟩ := h
  exact ⟨c, Registry.located_of_find found, disabled, (settled.revised.revise _).audited _⟩

theorem allocateRefreshGeneration_ok {generation epoch : Nat} {versionId : Uuid}
    (settled : s.Settled)
    (h : allocateRefreshGeneration context connectionId s = .ok (generation, epoch, versionId) t) :
    ∃ c, s.rows.registry.Located context connectionId c ∧ c.lifecycle ≠ .disabled ∧
      c.target = some versionId ∧ generation = c.refreshGeneration + 1 ∧ epoch = c.controlEpoch ∧
      t = s.revise fun r => r.setConnection c.id fun _ => c.allocate versionId := by
  simp only [allocateRefreshGeneration, bind_eq_ok, requireCurrentRole_eq_ok settled,
    lockedConnection_eq_ok, raiseIf_eq_ok] at h
  obtain ⟨_, _, ⟨-, rfl⟩, c, _, ⟨found, rfl⟩, _, _, ⟨open', rfl⟩, h⟩ := h
  cases target : c.target with
  | none =>
    rw [target] at h
    cases h
  | some version =>
    simp only [target, bind_eq_ok, putConnection_eq_ok, pure_eq_ok, Prod.mk.injEq] at h
    obtain ⟨_, _, rfl, ⟨rfl, rfl, rfl⟩, rfl⟩ := h
    exact ⟨c, Registry.located_of_find found, open', target, rfl, rfl, rfl⟩

/-- `promote_pending` returns on its allocation. -/
theorem promotePending_eq_ok {versionId : Uuid} {epoch generation : Nat}
    {result : ServerConnection} (settled : s.Settled) :
    promotePending context connectionId versionId epoch generation trace s = .ok result t ↔
      s.rows.registry.Authorizes context [.admin, .operator] ∧ ∃ c,
        s.rows.registry.connections.find? (fun c => c.id == connectionId &&
          c.workspaceId == context.workspaceId) = some c ∧ c.lifecycle = .verifying ∧
        c.target = some versionId ∧ c.Allocated versionId epoch generation ∧
        result = ServerConnection.releaseAllocation { c with
          verifiedVersionId := some versionId, pendingVersionId := none, lifecycle := .active } ∧
        t = (s.revise fun r => r.setConnection c.id fun _ => result).audited
          ⟨context.workspaceId, context.actorUserId, .connectionVerified, .serverConnection, c.id,
            trace.id⟩ := by
  simp only [promotePending, bind_eq_ok, requireCurrentRole_eq_ok settled, lockedConnection_eq_ok,
    raiseIf_eq_ok, putConnection_eq_ok, addAuditEvent_eq_ok, pure_eq_ok, not_or, not_not, ne_eq]
  constructor
  · rintro ⟨_, _, ⟨role, rfl⟩, c, _, ⟨found, rfl⟩, _, _, ⟨⟨h₁, h₂, h₃⟩, rfl⟩, _, _, rfl, _, _, rfl,
      rfl, rfl⟩
    exact ⟨role, c, found, h₁, h₂, h₃, rfl, rfl⟩
  · rintro ⟨role, c, found, h₁, h₂, h₃, rfl, rfl⟩
    exact ⟨(), s, ⟨role, rfl⟩, c, s, ⟨found, rfl⟩, (), s, ⟨⟨h₁, h₂, h₃⟩, rfl⟩, (), _, rfl, (), _, rfl,
      rfl, rfl⟩

/-- `complete_refresh` returns on its allocation. -/
theorem completeRefresh_eq_ok {versionId : Uuid} {epoch generation : Nat}
    {result : ServerConnection} (settled : s.Settled) :
    completeRefresh context connectionId versionId epoch generation s = .ok result t ↔
      s.rows.registry.Authorizes context [.admin, .operator] ∧ ∃ c,
        s.rows.registry.connections.find? (fun c => c.id == connectionId &&
          c.workspaceId == context.workspaceId) = some c ∧
        c.lifecycle ∈ [ConnectionLifecycle.verifying, .active, .degraded] ∧
        c.pendingVersionId = none ∧ c.verifiedVersionId = some versionId ∧
        c.Allocated versionId epoch generation ∧
        result = ServerConnection.releaseAllocation { c with lifecycle := .active } ∧
        t = s.revise fun r => r.setConnection c.id fun _ => result := by
  simp only [completeRefresh, bind_eq_ok, requireCurrentRole_eq_ok settled, lockedConnection_eq_ok,
    raiseIf_eq_ok, putConnection_eq_ok, pure_eq_ok, not_or, not_not, ne_eq]
  constructor
  · rintro ⟨_, _, ⟨role, rfl⟩, c, _, ⟨found, rfl⟩, _, _, ⟨⟨h₁, h₂, h₃, h₄⟩, rfl⟩, _, _, rfl, rfl,
      rfl⟩
    exact ⟨role, c, found, h₁, h₂, h₃, h₄, rfl, rfl⟩
  · rintro ⟨role, c, found, h₁, h₂, h₃, h₄, rfl, rfl⟩
    exact ⟨(), s, ⟨role, rfl⟩, c, s, ⟨found, rfl⟩, (), s, ⟨⟨h₁, h₂, h₃, h₄⟩, rfl⟩, (), _, rfl, rfl,
      rfl⟩

end ConnectionService

/-! ## Refresh jobs -/

namespace RefreshJobService
variable {s t : Session} {context : WorkspaceContext} {connectionId jobId : Uuid}
  {lease : RefreshLease}

theorem enqueue_ok {job : DiscoveryRefreshJob} (settled : s.Settled)
    (h : enqueue context connectionId jobId s = .ok job t) :
    ∃ c versionId, s.rows.registry.Located context connectionId c ∧ c.lifecycle ≠ .disabled ∧
      c.target = some versionId ∧
      job = ⟨jobId, context.workspaceId, context.actorUserId, connectionId, versionId,
        c.refreshGeneration + 1, c.controlEpoch, .queued, none, 0, none⟩ ∧
      s.Revised t (((s.rows.registry.setConnection c.id fun _ => c.allocate versionId)
        |>.obsoleteRefreshJobs context.workspaceId connectionId).addRefreshJob job) := by
  simp only [enqueue, bind_eq_ok, revise_eq_ok, pure_eq_ok] at h
  obtain ⟨⟨generation, epoch, versionId⟩, _, allocated, _, _, rfl, _, _, rfl, rfl, rfl⟩ := h
  obtain ⟨c, located, open', target, rfl, rfl, rfl⟩ :=
    ConnectionService.allocateRefreshGeneration_ok settled allocated
  exact ⟨c, versionId, located, open', target, rfl,
    ((settled.revised.revise _).revise _).revise _⟩

theorem claim_ok {workerId : String} {leaseDuration : Int} (settled : s.Settled)
    (h : claim context jobId workerId leaseDuration s = .ok lease t) :
    ∃ job expiresAt, job ∈ s.rows.registry.refreshJobs ∧ job.outstanding = true ∧
      s.Revised t (s.rows.registry.setRefreshJob job.id fun _ => { job with
        status := .leased, leaseOwner := some workerId, leaseEpoch := job.leaseEpoch + 1,
        leaseExpiresAt := some expiresAt }) := by
  simp only [claim, bind_eq_ok, requireCurrentRole_eq_ok settled, raiseIf_eq_ok,
    selectRow_eq_ok] at h
  obtain ⟨_, _, ⟨-, rfl⟩, _, _, ⟨-, rfl⟩, found, _, ⟨hfound, rfl⟩, h⟩ := h
  cases found with
  | none => cases h
  | some job =>
    simp only [bind_eq_ok, raiseIf_eq_ok, not_not, lockEligibleConnection_eq_ok,
      putRefreshJob_eq_ok, pure_eq_ok] at h
    obtain ⟨now, _, hnow, _, _, ⟨free, rfl⟩, _, _, ⟨-, rfl⟩, _, _, rfl, -, rfl⟩ := h
    refine ⟨job, now + leaseDuration, List.mem_of_find?_eq_some hfound.symm, ?_,
      (durableNow_revised settled hnow).revise _⟩
    rcases free with queued | ⟨leased, -⟩
    · simp [DiscoveryRefreshJob.outstanding, queued]
    · simp [DiscoveryRefreshJob.outstanding, leased]

theorem claimDurable_ok {workerId : String} {leaseDuration : Int}
    (h : claimDurable jobId workerId leaseDuration s = .ok (context, lease) t) :
    claim context jobId workerId leaseDuration s = .ok lease t := by
  simp only [claimDurable, bind_eq_ok, pure_eq_ok] at h
  obtain ⟨found, u, principal, lease', _, claimed, hreply, rfl⟩ := h
  obtain ⟨rfl, rfl⟩ := Prod.mk.inj hreply
  simp only [contextForJob, bind_eq_ok, query_eq_ok] at principal
  obtain ⟨known, _, ⟨hknown, rfl⟩, principal⟩ := principal
  cases known with
  | none => cases principal
  | some known =>
    obtain ⟨-, rfl⟩ := pure_eq_ok.mp principal
    exact claimed

theorem renew_ok {leaseDuration : Int} {result : RefreshLease} (settled : s.Settled)
    (h : renew context lease leaseDuration s = .ok result t) :
    ∃ job expiresAt, job ∈ s.rows.registry.refreshJobs ∧ job.leasedTo context lease = true ∧
      s.Revised t (s.rows.registry.setRefreshJob job.id fun _ =>
        { job with leaseExpiresAt := some expiresAt }) := by
  simp only [renew, bind_eq_ok, requireCurrentRole_eq_ok settled, raiseIf_eq_ok] at h
  obtain ⟨_, _, ⟨-, rfl⟩, _, _, ⟨-, rfl⟩, job, u, held, now, v, hnow, h⟩ := h
  obtain ⟨read, mem, leased⟩ := lockedJobForLease_ok settled held
  have read' := read.read (durableNow_revised read.settled hnow)
  cases hexpiry : job.leaseExpiresAt with
  | none =>
    rw [hexpiry] at h
    cases h
  | some expiresAt =>
    simp only [hexpiry, bind_eq_ok, raiseIf_eq_ok, lockEligibleConnection_eq_ok,
      putRefreshJob_eq_ok, pure_eq_ok] at h
    obtain ⟨_, _, ⟨-, rfl⟩, _, _, ⟨-, rfl⟩, _, _, rfl, -, rfl⟩ := h
    exact ⟨job, _, mem, leased, read'.revise _⟩

theorem validateForContact_ok {u : Unit} (settled : s.Settled)
    (h : validateForContact context lease s = .ok u t) :
    s.Revised t s.rows.registry ∧ ∃ job ∈ s.rows.registry.refreshJobs,
      job.leasedTo context lease = true := by
  simp only [validateForContact, bind_eq_ok, requireCurrentRole_eq_ok settled,
    lockEligibleConnection_eq_ok, pure_eq_ok] at h
  obtain ⟨_, _, ⟨-, rfl⟩, job, _, held, _, _, ⟨-, rfl⟩, -, rfl⟩ := h
  obtain ⟨read, mem, leased⟩ := lockedJobForLease_ok settled held
  exact ⟨read, job, mem, leased⟩

end RefreshJobService

theorem DiscoveryPublicationService.publishFailure_ok {s t : Session} {context : WorkspaceContext}
    {lease : RefreshLease} {code : DiscoveryFailureCode} {result : ServerConnection}
    (settled : s.Settled)
    (h : publishFailure context lease code s = .ok result t) :
    ∃ c job now, s.rows.registry.Located context lease.connectionId c ∧
      job ∈ s.rows.registry.refreshJobs ∧ job.leasedTo context lease = true ∧
      s.Revised t ((s.rows.registry.setConnection c.id fun _ => c.degraded code now)
        |>.setRefreshJob job.id fun _ => job.closed .failed) := by
  simp only [publishFailure, lockedActiveJob, bind_eq_ok, requireCurrentRole_eq_ok settled,
    lockEligibleConnection_eq_ok, putConnection_eq_ok, putRefreshJob_eq_ok, pure_eq_ok] at h
  obtain ⟨_, _, ⟨-, rfl⟩, job, u, held, c, _, ⟨⟨found, -⟩, rfl⟩, now, v, hnow, _, _, rfl, _, _, rfl,
    -, rfl⟩ := h
  obtain ⟨read, mem, leased⟩ := lockedJobForLease_ok settled held
  have read' := read.read (durableNow_revised read.settled hnow)
  rw [read.registry] at found
  exact ⟨c, job, now, Registry.located_of_find found, mem, leased, (read'.revise _).revise _⟩

/-! ## Review -/

theorem lockedCapability_eq_ok {s t : Session} {context : WorkspaceContext} {capabilityId : Uuid}
    {c : Capability} :
    lockedCapability context capabilityId s = .ok c t ↔
      s.rows.registry.capabilities.find? (fun c => c.id == capabilityId &&
        c.workspaceId == context.workspaceId) = some c ∧ t = s := by
  unfold lockedCapability
  rw [bind_of_ok (selectRow_apply _ _ _)]
  cases s.rows.registry.capabilities.find? fun c => c.id == capabilityId &&
    c.workspaceId == context.workspaceId with
  | none => simp
  | some found => simp [eq_comm]

theorem putCapability_eq_ok {s t : Session} {c : Capability} {u : Unit} :
    putCapability c s = .ok u t ↔ t = s.revise fun r => r.setCapability c.id fun _ => c :=
  revise_eq_ok

/-- The event that logs the status of a capability. -/
def Capability.statusEvent (c : Capability) (context : WorkspaceContext) :
    CapabilityStatusEvent :=
  ⟨context.workspaceId, c.id, c.decisionVersionId, c.status, c.statusEpoch, context.actorUserId⟩

theorem Capability.statusEvent_logs (c : Capability) (context : WorkspaceContext) :
    (c.statusEvent context).Logs c := ⟨rfl, rfl, rfl, rfl⟩

theorem appendStatusEvent_eq_ok {s t : Session} {context : WorkspaceContext} {c : Capability}
    {u : Unit} :
    appendStatusEvent context c c.decisionVersionId s = .ok u t ↔
      t = s.revise fun r => r.addStatusEvent (c.statusEvent context) := revise_eq_ok

theorem appendStatusEvent_ok {s t : Session} {context : WorkspaceContext} {c : Capability}
    {versionId : Option Uuid} {u : Unit} (h : appendStatusEvent context c versionId s = .ok u t)
    (decision : versionId = c.decisionVersionId) :
    t = s.revise fun r => r.addStatusEvent (c.statusEvent context) := by
  subst decision
  exact appendStatusEvent_eq_ok.mp h

theorem Session.Revised.move {s t : Session} {r : Registry} (h : s.Revised t r) (c : Capability)
    (context : WorkspaceContext) :
    s.Revised ((t.revise fun r => r.setCapability c.id fun _ => c).revise fun r =>
      r.addStatusEvent (c.statusEvent context)) (r.moveCapability c (c.statusEvent context)) :=
  (h.revise _).revise _

namespace CapabilityService
variable {s t : Session} {context : WorkspaceContext} {capabilityId versionId : Uuid}
  {trace : Trace} {result : Capability}

theorem enable_ok (settled : s.Settled)
    (h : enable context capabilityId versionId trace s = .ok result t) :
    ∃ c ∈ s.rows.registry.capabilities, c.id = capabilityId ∧
      c.workspaceId = context.workspaceId ∧
      s.rows.registry.reviewable context c versionId = true ∧
      result = { c with
        enabledVersionId := some versionId, pendingVersionId := none, status := .enabled,
        statusEpoch := c.statusEpoch + 1 } ∧
      s.Revised t (s.rows.registry.moveCapability result (result.statusEvent context)) := by
  simp only [enable, bind_eq_ok, requireCurrentRole_eq_ok settled, lockedCapability_eq_ok,
    raiseIf_eq_ok, query_eq_ok, putCapability_eq_ok, addAuditEvent_eq_ok, pure_eq_ok,
    Bool.not_eq_false] at h
  obtain ⟨_, _, ⟨-, rfl⟩, c, _, ⟨found, rfl⟩, _, _, ⟨-, rfl⟩, _, _, ⟨rfl, rfl⟩, _, _,
    ⟨reviewable, rfl⟩, _, _, rfl, _, _, logged, _, _, rfl, rfl, rfl⟩ := h
  obtain rfl := appendStatusEvent_ok logged rfl
  have own := List.find?_some found
  simp only [Bool.and_eq_true, beq_iff_eq] at own
  refine ⟨c, List.mem_of_find?_eq_some found, own.1, own.2, reviewable, rfl, ?_⟩
  let enabled : Capability := { c with
    enabledVersionId := some versionId, pendingVersionId := none, status := .enabled,
    statusEpoch := c.statusEpoch + 1 }
  exact (settled.revised.move enabled context).audited _

theorem disable_ok (settled : s.Settled)
    (h : disable context capabilityId versionId trace s = .ok result t) :
    ∃ c ∈ s.rows.registry.capabilities, c.id = capabilityId ∧
      result = { c with status := .disabled, statusEpoch := c.statusEpoch + 1 } ∧
      s.Revised t (s.rows.registry.moveCapability result (result.statusEvent context)) := by
  simp only [disable, bind_eq_ok, requireCurrentRole_eq_ok settled, lockedCapability_eq_ok,
    raiseIf_eq_ok, putCapability_eq_ok, addAuditEvent_eq_ok, pure_eq_ok] at h
  obtain ⟨_, _, ⟨-, rfl⟩, c, _, ⟨found, rfl⟩, _, _, ⟨-, rfl⟩, _, _, rfl, _, _, logged, _, _, rfl,
    rfl, rfl⟩ := h
  obtain rfl := appendStatusEvent_ok logged rfl
  have own := List.find?_some found
  simp only [Bool.and_eq_true, beq_iff_eq] at own
  refine ⟨c, List.mem_of_find?_eq_some found, own.1, rfl, ?_⟩
  let disabled : Capability := { c with status := .disabled, statusEpoch := c.statusEpoch + 1 }
  exact (settled.revised.move disabled context).audited _

end CapabilityService

/-- What the last check of `enable` has seen. -/
structure Registry.Reviewable (r : Registry) (context : WorkspaceContext) (c : Capability)
    (versionId : Uuid) (connection : ServerConnection) (version : CapabilityVersion)
    (binding : McpToolBinding) (snapshotId : Uuid) : Prop where
  known : version ∈ r.capabilityVersions ∧ version.id = versionId ∧ version.capabilityId = c.id
  bound : binding ∈ r.bindings ∧ binding.capabilityVersionId = versionId ∧
    binding.capabilityId = c.id
  connected : connection ∈ r.connections ∧ connection.id = c.connectionId
  supported : version.schemaSupported = true
  qualified : binding.protocolRevision = qualifiedProtocolRevision
  active : connection.lifecycle = .active
  verified : connection.verifiedVersionId = some binding.connectionVersionId
  current : connection.currentSnapshotId = some snapshotId
  observed : ⟨context.workspaceId, c.connectionId, binding.connectionVersionId, snapshotId,
    versionId⟩ ∈ r.snapshotCapabilities

theorem Registry.reviewable_of_eq_true {r : Registry} {context : WorkspaceContext} {c : Capability}
    {versionId : Uuid} (h : r.reviewable context c versionId = true) :
    ∃ connection version binding snapshotId,
      r.Reviewable context c versionId connection version binding snapshotId := by
  simp only [reviewable, Bool.and_eq_true, Option.any_eq_true, List.any_eq_true, beq_iff_eq] at h
  obtain ⟨⟨⟨version, hv, supported⟩, connection, hc, snapshotId, current, binding, hb, row, mem,
    ⟨⟨⟨h₁, h₂⟩, h₃⟩, h₄⟩, h₅⟩, binding', hb', qualified, connection', hc', ⟨active, -⟩, verified⟩ := h
  obtain rfl : binding = binding' := Option.some.inj (hb.symm.trans hb')
  obtain rfl : connection = connection' := Option.some.inj (hc.symm.trans hc')
  have ownVersion := List.find?_some hv
  have ownBinding := List.find?_some hb
  have ownConnection := List.find?_some hc
  simp only [Bool.and_eq_true, beq_iff_eq] at ownVersion ownBinding ownConnection
  refine ⟨connection, version, binding, snapshotId, {
    known := ⟨List.mem_of_find?_eq_some hv, ownVersion.1⟩
    bound := ⟨List.mem_of_find?_eq_some hb, ownBinding.1⟩
    connected := ⟨List.mem_of_find?_eq_some hc, ownConnection.1⟩
    supported, qualified, active, verified, current, observed := ?_ }⟩
  obtain ⟨w, k, v, n, id⟩ := row
  simp only at h₁ h₂ h₃ h₄ h₅
  rwa [h₁, h₂, h₃, h₄, h₅] at mem

end Modall
