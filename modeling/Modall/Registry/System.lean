import Modall.Execution.System
import Modall.Registry.Effects

/-!
# The installation as a system

A world moves when some caller runs an operation of the ledger or of the registry as a
transaction, or when the identity tables change. The steps of an allocation, which
`ConnectionService` offers and which only `enqueue` and `publish_success` call, may be taken on
their own as well; a run without such steps is a run of whole operations.
-/
namespace Modall
open Library

/-- An operation of the registry with its arguments, the values it would draw with `uuid4` among
them. -/
inductive RegistryCall where
  | createConnection (service : ConnectionService) (context : WorkspaceContext) (name : String)
      (configuration : Configuration) (trace : Trace) (connectionId versionId : Uuid)
  | appendVersion (service : ConnectionService) (context : WorkspaceContext) (connectionId : Uuid)
      (configuration : Configuration) (trace : Trace) (versionId : Uuid)
  | disableConnection (context : WorkspaceContext) (connectionId : Uuid) (trace : Trace)
  | enableConnection (context : WorkspaceContext) (connectionId : Uuid) (trace : Trace)
  | allocateRefreshGeneration (context : WorkspaceContext) (connectionId : Uuid)
  | promotePending (context : WorkspaceContext) (connectionId versionId : Uuid)
      (epoch generation : Nat) (trace : Trace)
  | completeRefresh (context : WorkspaceContext) (connectionId versionId : Uuid)
      (epoch generation : Nat)
  | enqueue (context : WorkspaceContext) (connectionId jobId : Uuid)
  | claim (context : WorkspaceContext) (jobId : Uuid) (workerId : String) (leaseDuration : Int)
  | claimDurable (jobId : Uuid) (workerId : String) (leaseDuration : Int)
  | renew (context : WorkspaceContext) (lease : RefreshLease) (leaseDuration : Int)
  | validateForContact (context : WorkspaceContext) (lease : RefreshLease)
  | publishSuccess (context : WorkspaceContext) (lease : RefreshLease) (result : DiscoveryResult)
      (draws : PublicationDraws)
  | publishFailure (context : WorkspaceContext) (lease : RefreshLease)
      (errorCode : DiscoveryFailureCode)
  | enableCapability (context : WorkspaceContext) (capabilityId expectedVersionId : Uuid)
      (trace : Trace)
  | disableCapability (context : WorkspaceContext) (capabilityId expectedVersionId : Uuid)
      (trace : Trace)

inductive RegistryReply where
  | connection (connection : ServerConnection)
  | connectionVersion (version : ServerConnectionVersion)
  | allocation (generation controlEpoch : Nat) (versionId : Uuid)
  | job (job : DiscoveryRefreshJob)
  | lease (context : WorkspaceContext) (lease : RefreshLease)
  | valid
  | snapshot (snapshot : DiscoverySnapshot)
  | capability (capability : Capability)

namespace RegistryCall

def run (R : RegistryPlatform) : RegistryCall → Tx RegistryReply
  | createConnection service context name configuration trace connectionId versionId => do
    return .connection
      (← service.create R context name configuration trace connectionId versionId)
  | appendVersion service context connectionId configuration trace versionId => do
    return .connectionVersion
      (← service.appendVersion R context connectionId configuration trace versionId)
  | disableConnection context connectionId trace => do
    return .connection (← ConnectionService.disable context connectionId trace)
  | enableConnection context connectionId trace => do
    return .connection (← ConnectionService.enable context connectionId trace)
  | allocateRefreshGeneration context connectionId => do
    let (generation, epoch, versionId) ←
      ConnectionService.allocateRefreshGeneration context connectionId
    return .allocation generation epoch versionId
  | promotePending context connectionId versionId epoch generation trace => do
    return .connection
      (← ConnectionService.promotePending context connectionId versionId epoch generation trace)
  | completeRefresh context connectionId versionId epoch generation => do
    return .connection
      (← ConnectionService.completeRefresh context connectionId versionId epoch generation)
  | enqueue context connectionId jobId => do
    return .job (← RefreshJobService.enqueue context connectionId jobId)
  | claim context jobId workerId leaseDuration => do
    return .lease context (← RefreshJobService.claim context jobId workerId leaseDuration)
  | claimDurable jobId workerId leaseDuration => do
    let (context, lease) ← RefreshJobService.claimDurable jobId workerId leaseDuration
    return .lease context lease
  | renew context lease leaseDuration => do
    return .lease context (← RefreshJobService.renew context lease leaseDuration)
  | validateForContact context lease => do
    RefreshJobService.validateForContact context lease
    return .valid
  | publishSuccess context lease result draws => do
    return .snapshot
      (← DiscoveryPublicationService.publishSuccess R context lease result draws)
  | publishFailure context lease errorCode => do
    return .connection (← DiscoveryPublicationService.publishFailure context lease errorCode)
  | enableCapability context capabilityId expectedVersionId trace => do
    return .capability
      (← CapabilityService.enable context capabilityId expectedVersionId trace)
  | disableCapability context capabilityId expectedVersionId trace => do
    return .capability
      (← CapabilityService.disable context capabilityId expectedVersionId trace)

/-- The identifiers the call would draw. -/
def draws : RegistryCall → List Uuid
  | createConnection _ _ _ _ trace connectionId versionId => [connectionId, versionId, trace.drawn]
  | appendVersion _ _ _ _ trace versionId => [versionId, trace.drawn]
  | disableConnection _ _ trace | enableConnection _ _ trace => [trace.drawn]
  | promotePending _ _ _ _ _ trace => [trace.drawn]
  | enqueue _ _ jobId => [jobId]
  | publishSuccess _ _ result draws => [draws.payloadId, draws.snapshotId, draws.traceId] ++
      drawnFor draws.tool result.tools ++
      result.tools.map fun tool => (draws.tool tool.identity).traceId
  | enableCapability _ _ _ trace | disableCapability _ _ _ trace => [trace.drawn]
  | _ => []

/-- The call is a step of an allocation that no other operation takes on its own. -/
def standalone : RegistryCall → Bool
  | allocateRefreshGeneration .. | promotePending .. | completeRefresh .. => true
  | _ => false

/-- The reviewer's decision that the call stands for. -/
def decision : RegistryCall → Option (Uuid × Decision)
  | enableCapability _ capabilityId expectedVersionId _ =>
    some (capabilityId, .enable expectedVersionId)
  | disableCapability _ capabilityId _ _ => some (capabilityId, .disable)
  | _ => none

/-- The lease that the call presents. -/
def lease : RegistryCall → Option RefreshLease
  | renew _ lease _ | validateForContact _ lease | publishSuccess _ lease _ _
  | publishFailure _ lease _ => some lease
  | _ => none

/-! ## What a call does -/

section Effect
variable {R : RegistryPlatform} {s t : Session} {reply : RegistryReply} {drawn : List Uuid}

/-- A worker takes a job over, however it found its context. -/
theorem claim_effect {context : WorkspaceContext} {jobId : Uuid} {workerId : String}
    {leaseDuration : Int} {lease : RefreshLease} (settled : s.Settled)
    (run : RefreshJobService.claim context jobId workerId leaseDuration s = .ok lease t) :
    ∃ r', s.Revised t r' ∧ Registry.Effect R [] s.rows.registry false none r' := by
  obtain ⟨job, expiresAt, mem, live, revised⟩ := RefreshJobService.claim_ok settled run
  exact ⟨_, revised, .refresh job.connectionId ⟨rfl, rfl, rfl, rfl, rfl, rfl⟩ fun docketed _ =>
    docketed.setJob mem rfl rfl
      (.claim workerId expiresAt (Registry.mem_docket_jobs.mpr ⟨mem, rfl⟩) live)⟩

theorem drawnFor_sublist (context : WorkspaceContext) (lease : RefreshLease)
    (result : DiscoveryResult) (draws : PublicationDraws) :
    (drawnFor draws.tool result.tools).Sublist
      (publishSuccess context lease result draws).draws :=
  (List.sublist_append_right _ _).trans (List.sublist_append_left _ _)

/-- What a publication would draw for its tools is not in use. -/
theorem unused {r : Registry} {context : WorkspaceContext} {lease : RefreshLease}
    {result : DiscoveryResult} {draws : PublicationDraws} (named : r.Named drawn)
    (fresh : ∀ id ∈ (publishSuccess context lease result draws).draws, id ∉ drawn) :
    ∀ tool ∈ result.tools, r.Unused (draws.tool tool.identity) := by
  intro tool mem
  have mine (id : Uuid) (hid : id ∈ drawnFor draws.tool [tool]) : id ∉ drawn :=
    fresh id ((drawnFor_sublist context lease result draws).subset (mem_drawnFor mem id hid))
  constructor
  · intro known
    obtain ⟨c, hc, same⟩ := List.mem_map.mp known
    exact mine _ (by simp [drawnFor]) (same ▸ named.capabilities c hc)
  · intro known
    obtain ⟨v, hv, same⟩ := List.mem_map.mp known
    exact mine _ (by simp [drawnFor]) (same ▸ named.versions v hv)

theorem effect {call : RegistryCall} (settled : s.Settled) (h : s.rows.registry.Catalogued R)
    (named : s.rows.registry.Named drawn) (fresh : ∀ id ∈ call.draws, id ∉ drawn)
    (distinct : call.draws.Nodup) (ran : call.run R s = .ok reply t) :
    ∃ r', s.Revised t r' ∧
      Registry.Effect R call.draws s.rows.registry call.standalone call.decision r' := by
  cases call with
  | createConnection service context name configuration trace connectionId versionId =>
    obtain ⟨_, _, run, ret⟩ := bind_eq_ok.mp ran
    obtain ⟨-, rfl⟩ := pure_eq_ok.mp ret
    obtain ⟨name', version, revised⟩ := ConnectionService.create_ok settled run
    exact ⟨_, revised, .create (by simp [draws, ConnectionService.newConnection]) rfl rfl rfl rfl⟩
  | appendVersion service context connectionId configuration trace versionId =>
    obtain ⟨version, _, run, ret⟩ := bind_eq_ok.mp ran
    obtain ⟨-, rfl⟩ := pure_eq_ok.mp ret
    obtain ⟨c, located, revised⟩ := ConnectionService.appendVersion_ok settled run
    refine ⟨_, revised, .refresh c.id ⟨rfl, rfl, rfl, rfl, rfl,
      Registry.owners_setConnection h.connections located.mem rfl rfl⟩ fun docketed _ => ?_⟩
    have added : (s.rows.registry.addConnectionVersion version).Docketed :=
      ⟨docketed.valid, docketed.jobs⟩
    have turns := added.intervene located.mem .verifying (some version.id) (.inl rfl)
    rw [located.workspaceId] at turns
    have turns' : s.rows.registry.Turns [] c.id _ :=
      ⟨turns.step, turns.other, turns.jobs, turns.known, turns.snapshots, { turns.rest with }⟩
    exact turns'.mono nofun
  | disableConnection context connectionId trace =>
    obtain ⟨_, _, run, ret⟩ := bind_eq_ok.mp ran
    obtain ⟨-, rfl⟩ := pure_eq_ok.mp ret
    obtain ⟨c, located, revised⟩ := ConnectionService.disable_ok settled run
    refine ⟨_, revised, .refresh c.id ⟨rfl, rfl, rfl, rfl, rfl,
      Registry.owners_setConnection h.connections located.mem rfl rfl⟩ fun docketed _ => ?_⟩
    have turns := docketed.intervene located.mem .disabled c.pendingVersionId (.inr rfl)
    rw [located.workspaceId] at turns
    exact turns.mono nofun
  | enableConnection context connectionId trace =>
    obtain ⟨_, _, run, ret⟩ := bind_eq_ok.mp ran
    obtain ⟨-, rfl⟩ := pure_eq_ok.mp ret
    obtain ⟨c, located, disabled, revised⟩ := ConnectionService.enable_ok settled run
    exact ⟨_, revised, .refresh c.id ⟨rfl, rfl, rfl, rfl, rfl,
      Registry.owners_setConnection h.connections located.mem rfl rfl⟩ fun docketed _ =>
        (docketed.reopen located.mem disabled).mono nofun⟩
  | allocateRefreshGeneration context connectionId =>
    obtain ⟨⟨generation, epoch, versionId⟩, _, run, ret⟩ := bind_eq_ok.mp ran
    obtain ⟨-, rfl⟩ := pure_eq_ok.mp ret
    obtain ⟨c, located, -, -, -, -, rfl⟩ :=
      ConnectionService.allocateRefreshGeneration_ok settled run
    exact ⟨_, settled.revised.revise _, .allocation ⟨rfl, rfl, rfl, rfl, rfl,
      Registry.owners_setConnection h.connections located.mem rfl rfl⟩⟩
  | promotePending context connectionId versionId epoch generation trace =>
    obtain ⟨_, _, run, ret⟩ := bind_eq_ok.mp ran
    obtain ⟨-, rfl⟩ := pure_eq_ok.mp ret
    obtain ⟨-, c, found, -, -, -, rfl, rfl⟩ :=
      (ConnectionService.promotePending_eq_ok settled).mp run
    have located := Registry.located_of_find found
    exact ⟨_, (settled.revised.revise _).audited _, .allocation ⟨rfl, rfl, rfl, rfl, rfl,
      Registry.owners_setConnection h.connections located.mem rfl rfl⟩⟩
  | completeRefresh context connectionId versionId epoch generation =>
    obtain ⟨_, _, run, ret⟩ := bind_eq_ok.mp ran
    obtain ⟨-, rfl⟩ := pure_eq_ok.mp ret
    obtain ⟨-, c, found, -, -, -, -, rfl, rfl⟩ :=
      (ConnectionService.completeRefresh_eq_ok settled).mp run
    have located := Registry.located_of_find found
    exact ⟨_, settled.revised.revise _, .allocation ⟨rfl, rfl, rfl, rfl, rfl,
      Registry.owners_setConnection h.connections located.mem rfl rfl⟩⟩
  | enqueue context connectionId jobId =>
    obtain ⟨job, _, run, ret⟩ := bind_eq_ok.mp ran
    obtain ⟨-, rfl⟩ := pure_eq_ok.mp ret
    obtain ⟨c, versionId, ⟨mem, rfl, workspace⟩, open', target, rfl, revised⟩ :=
      RefreshJobService.enqueue_ok settled run
    refine ⟨_, revised, .refresh c.id ⟨rfl, rfl, rfl, rfl, rfl,
      Registry.owners_setConnection h.connections mem rfl rfl⟩ fun docketed unknown => ?_⟩
    let job : DiscoveryRefreshJob := ⟨jobId, context.workspaceId, context.actorUserId, c.id,
      versionId, c.refreshGeneration + 1, c.controlEpoch, .queued, none, 0, none⟩
    have new : job.id ∉ s.rows.registry.refreshJobs.map DiscoveryRefreshJob.id :=
      unknown jobId (by simp [draws])
    have turns := docketed.enqueue mem open' target rfl rfl rfl rfl workspace.symm rfl new
    rw [workspace] at turns
    exact turns
  | claim context jobId workerId leaseDuration =>
    obtain ⟨lease, _, run, ret⟩ := bind_eq_ok.mp ran
    obtain ⟨-, rfl⟩ := pure_eq_ok.mp ret
    exact claim_effect settled run
  | claimDurable jobId workerId leaseDuration =>
    obtain ⟨⟨context, lease⟩, _, run, ret⟩ := bind_eq_ok.mp ran
    obtain ⟨-, rfl⟩ := pure_eq_ok.mp ret
    exact claim_effect settled (RefreshJobService.claimDurable_ok run)
  | renew context lease leaseDuration =>
    obtain ⟨_, _, run, ret⟩ := bind_eq_ok.mp ran
    obtain ⟨-, rfl⟩ := pure_eq_ok.mp ret
    obtain ⟨job, expiresAt, mem, leased, revised⟩ := RefreshJobService.renew_ok settled run
    exact ⟨_, revised, .refresh job.connectionId ⟨rfl, rfl, rfl, rfl, rfl, rfl⟩ fun docketed _ =>
      docketed.setJob mem rfl rfl (.renew expiresAt (Registry.mem_docket_jobs.mpr ⟨mem, rfl⟩)
        (Registry.leased_fields leased).2.1)⟩
  | validateForContact context lease =>
    obtain ⟨_, _, run, ret⟩ := bind_eq_ok.mp ran
    obtain ⟨-, rfl⟩ := pure_eq_ok.mp ret
    exact ⟨_, (RefreshJobService.validateForContact_ok settled run).1, .identity⟩
  | publishSuccess context lease result draws =>
    obtain ⟨snapshot, _, run, ret⟩ := bind_eq_ok.mp ran
    obtain ⟨-, rfl⟩ := pure_eq_ok.mp ret
    obtain ⟨c, job, now, r₁, r₂, r', revised, hid, publishes⟩ :=
      DiscoveryPublicationService.publishSuccess_ok settled h (unused named fresh)
        (distinct.sublist (drawnFor_sublist context lease result draws)) run
    refine ⟨r', revised, .publish ?_ (drawnFor_sublist context lease result draws).subset publishes⟩
    rw [hid]
    simp [RegistryCall.draws]
  | publishFailure context lease errorCode =>
    obtain ⟨_, _, run, ret⟩ := bind_eq_ok.mp ran
    obtain ⟨-, rfl⟩ := pure_eq_ok.mp ret
    obtain ⟨c, job, now, located, mem, leased, revised⟩ :=
      DiscoveryPublicationService.publishFailure_ok settled run
    obtain ⟨-, hstatus, -, hconnection, -⟩ := Registry.leased_fields leased
    exact ⟨_, revised, .refresh c.id ⟨rfl, rfl, rfl, rfl, rfl,
      Registry.owners_setConnection h.connections located.mem rfl rfl⟩ fun docketed _ =>
        docketed.fail located.mem errorCode now mem (hconnection.trans located.id.symm) hstatus⟩
  | enableCapability context capabilityId expectedVersionId trace =>
    obtain ⟨_, _, run, ret⟩ := bind_eq_ok.mp ran
    obtain ⟨-, rfl⟩ := pure_eq_ok.mp ret
    obtain ⟨c, mem, rfl, hw, reviewable, rfl, revised⟩ := CapabilityService.enable_ok settled run
    obtain ⟨connection, version, binding, snapshotId, reviewed⟩ :=
      Registry.reviewable_of_eq_true reviewable
    obtain ⟨hv, hid, hc⟩ := reviewed.known
    have recorded := h.recorded hv reviewed.bound.1 (reviewed.bound.2.1.trans hid.symm)
    rw [hc] at recorded
    refine ⟨_, revised, .review ⟨mem, ⟨rfl, rfl, rfl, rfl, rfl⟩, Capability.statusEvent_logs _ _,
      .enable (h.of_mem mem).capabilities ⟨rfl, rfl, rfl, rfl, rfl⟩ rfl rfl rfl recorded hid
        reviewed.supported reviewed.qualified (Capability.statusEvent_logs _ _), ?_⟩⟩
    intro _ owner howner same
    obtain rfl : owner = connection := List.inj_on_of_nodup_map h.connections howner
      reviewed.connected.1 (same.trans reviewed.connected.2.symm)
    refine ⟨binding.connectionVersionId, snapshotId, reviewed.verified, reviewed.current,
      expectedVersionId, rfl, ⟨binding, reviewed.bound.1, reviewed.bound.2.1, rfl⟩, ?_⟩
    exact hw ▸ reviewed.observed
  | disableCapability context capabilityId expectedVersionId trace =>
    obtain ⟨_, _, run, ret⟩ := bind_eq_ok.mp ran
    obtain ⟨-, rfl⟩ := pure_eq_ok.mp ret
    obtain ⟨c, mem, rfl, rfl, revised⟩ := CapabilityService.disable_ok settled run
    exact ⟨_, revised, .review ⟨mem, ⟨rfl, rfl, rfl, rfl, rfl⟩, Capability.statusEvent_logs _ _,
      .disable (h.of_mem mem).capabilities ⟨rfl, rfl, rfl, rfl, rfl⟩ rfl rfl rfl
        (Capability.statusEvent_logs _ _), nofun⟩⟩

end Effect

end RegistryCall

/-! ## The system -/

/-- What happened in a step of the installation. -/
inductive Event where
  | ledger (service : ExecutionService) (call : Call) (reply : Except Failure Reply)
  | registry (call : RegistryCall) (reply : Except Failure RegistryReply)
  | identity

namespace Event

/-- The decision that was taken in this step. -/
def decision : Event → Option (Uuid × Decision)
  | .registry call (.ok _) => call.decision
  | _ => none

/-- A step of an allocation was taken on its own. -/
def standalone : Event → Bool
  | .registry call _ => call.standalone
  | _ => false

/-- What the ledger sees of the event: a call of its own, or another registry. -/
def label (e : Event) (registry : Registry) : Label :=
  match e with
  | .ledger service call result => .call service call result
  | _ => .registry registry

end Event

/-- One step of the installation: an operation of the ledger, an operation of the registry, or
any change of the workspaces, the memberships and the secret bindings. -/
inductive Transition (P : Platform) (R : RegistryPlatform) (limits : ExecutionLimits) :
    World → Event → World → Prop where
  | ledger {w w' : World} {service : ExecutionService} {call : Call}
      {result : Except Failure Reply} : Step P limits w (.call service call result) w' →
      Transition P R limits w (.ledger service call result) w'
  | registry {w : World} {call : RegistryCall} {outcome : Outcome RegistryReply}
      (ticks : List Nat) (held : List Uuid) (later : Time) :
      (∀ id ∈ call.draws, id ∉ w.drawn) → call.draws.Nodup →
      transact (call.run R) (.begin w.store w.clock ticks held []) = outcome →
      w.clock ≤ later → outcome.clock ≤ later →
      Transition P R limits w (.registry call outcome.result)
        ⟨outcome.store, later, call.draws ++ w.drawn, w.nonces⟩
  | identity {w : World} (workspaces : List Uuid) (memberships : List WorkspaceMembership)
      (secretBindings : List (Uuid × Uuid)) :
      Transition P R limits w .identity { w with store := { w.store with
        registry := { w.store.registry with workspaces, memberships, secretBindings } } }

/-- A step that is a whole operation. -/
def WholeTransition (P : Platform) (R : RegistryPlatform) (limits : ExecutionLimits) (w : World)
    (e : Event) (w' : World) : Prop := Transition P R limits w e w' ∧ e.standalone = false

/-- No connection has been created. -/
structure Registry.Bare (r : Registry) : Prop where
  connections : r.connections = []
  capabilities : r.capabilities = []
  capabilityVersions : r.capabilityVersions = []
  bindings : r.bindings = []
  statusEvents : r.statusEvents = []
  snapshots : r.snapshots = []
  snapshotCapabilities : r.snapshotCapabilities = []
  refreshJobs : r.refreshJobs = []

/-- An installation whose ledger and registry are still empty. -/
structure World.Founded (w : World) : Prop where
  initial : w.Initial
  bare : w.store.registry.Bare

/-- A call of the registry that returned, with the session it ran in. -/
structure RanRegistry (R : RegistryPlatform) (w : World) (call : RegistryCall)
    (reply : RegistryReply) (w' : World) (s t : Session) : Prop where
  ran : call.run R s = .ok reply t
  settled : s.Settled
  rows : s.rows = w.store
  clock : s.clock = w.clock
  fresh : ∀ id ∈ call.draws, id ∉ w.drawn
  distinct : call.draws.Nodup
  drawn : w'.drawn = call.draws ++ w.drawn
  store : w'.store = t.objects
  later : t.clock ≤ w'.clock

section Steps
variable {P : Platform} {R : RegistryPlatform} {limits : ExecutionLimits} {w w' : World}
  {e : Event}

/-- A call returns, or it raises and leaves the store as it was. -/
theorem Transition.cases_registry {call : RegistryCall} {result : Except Failure RegistryReply}
    (h : Transition P R limits w (.registry call result) w') :
    (∃ e, result = .error e ∧ w'.store = w.store ∧ w'.drawn = call.draws ++ w.drawn ∧
        ∀ id ∈ call.draws, id ∉ w.drawn) ∨
      ∃ reply s t, result = .ok reply ∧ RanRegistry R w call reply w' s t := by
  generalize he : Event.registry call result = e at h
  cases h with
  | ledger | identity => cases he
  | @registry call' outcome ticks held later fresh distinct heq _ hlater =>
    injection he with hc hr
    subst hc hr
    unfold transact at heq
    cases hrun : call.run R (Session.begin w.store w.clock ticks held []) with
    | error e t =>
      rw [hrun] at heq
      subst heq
      exact .inl ⟨e, rfl, rfl, rfl, fresh⟩
    | ok a t =>
      rw [hrun] at heq
      subst heq
      exact .inr ⟨a, _, t, rfl, hrun, ⟨rfl, rfl⟩, rfl, rfl, fresh, distinct, rfl, rfl, hlater⟩

/-- The capabilities are in order, and what has an identifier has drawn it. -/
structure World.Catalogued (R : RegistryPlatform) (w : World) : Prop where
  catalogued : w.store.registry.Catalogued R
  named : w.store.registry.Named w.drawn

/-- The refreshes are in order, and what is enabled is offered. -/
structure World.Refreshed (w : World) : Prop where
  docketed : w.store.registry.Docketed
  filed : w.store.registry.Filed w.drawn
  covered : w.store.registry.Covered

/-- What a step does to the registry. -/
theorem Transition.effect (h : Transition P R limits w e w') (ledger : w.Invariant limits)
    (catalogued : w.Catalogued R) :
    ∃ drawn, w'.drawn = drawn ++ w.drawn ∧ (∀ id ∈ drawn, id ∉ w.drawn) ∧
      Registry.Effect R drawn w.store.registry e.standalone e.decision w'.store.registry := by
  cases e with
  | ledger service call result =>
    cases h with
    | ledger step =>
      have same := (step.effect ledger).registry_eq
      rw [same]
      cases step with
      | call _ _ _ _ fresh => exact ⟨call.draws, rfl, fresh, .identity⟩
  | registry call result =>
    rcases h.cases_registry with ⟨e, rfl, same, drawn, fresh⟩ | ⟨reply, s, t, rfl, ran⟩
    · exact ⟨call.draws, drawn, fresh, same ▸ .identity⟩
    · have ordered : s.rows.registry.Catalogued R := ran.rows ▸ catalogued.catalogued
      have named : s.rows.registry.Named w.drawn := ran.rows ▸ catalogued.named
      obtain ⟨r', revised, effect⟩ := RegistryCall.effect ran.settled ordered named ran.fresh
        ran.distinct ran.ran
      refine ⟨call.draws, ran.drawn, ran.fresh, ?_⟩
      rw [ran.store, revised.settled.flushed, revised.registry, ← ran.rows]
      exact effect
  | identity =>
    cases h
    exact ⟨[], rfl, nofun, .identity⟩

/-- What a step does to the ledger. -/
theorem Transition.ledgerEffect (h : Transition P R limits w e w') (ledger : w.Invariant limits)
    (catalogued : w.Catalogued R) : Modall.Effect limits w (e.label w'.store.registry) w' := by
  cases e with
  | ledger service call result =>
    cases h with
    | ledger step => exact step.effect ledger
  | registry call result =>
    rcases h.cases_registry with ⟨e, rfl, same, -⟩ | ⟨reply, s, t, rfl, ran⟩
    · exact .evolve (same ▸ .refl _)
    · have ordered : s.rows.registry.Catalogued R := ran.rows ▸ catalogued.catalogued
      have named : s.rows.registry.Named w.drawn := ran.rows ▸ catalogued.named
      obtain ⟨r', revised, -⟩ := RegistryCall.effect ran.settled ordered named ran.fresh
        ran.distinct ran.ran
      obtain ⟨audit, rows⟩ := revised.rows
      have store : w'.store = { w.store with registry := r', audit } := by
        rw [ran.store, revised.settled.flushed, rows, ran.rows]
      exact .registry (fun _ => by rw [store]; rfl) (by rw [store]) rfl
  | identity =>
    cases h
    exact .registry (fun _ => rfl) rfl rfl

theorem Transition.clock (h : Transition P R limits w e w') : w.clock ≤ w'.clock := by
  cases h with
  | ledger step => exact step.clock
  | registry _ _ _ _ _ _ hle => exact hle
  | identity => exact le_refl _

/-- What holds in every world of an installation. -/
structure World.Kept (R : RegistryPlatform) (limits : ExecutionLimits) (w : World) : Prop where
  ledger : w.Invariant limits
  registry : w.Catalogued R

theorem Transition.kept (h : Transition P R limits w e w') (kept : w.Kept R limits) :
    w'.Kept R limits := by
  obtain ⟨drawn, more, fresh, effect⟩ := h.effect kept.ledger kept.registry
  have ledger := h.ledgerEffect kept.ledger kept.registry
  constructor
  · exact kept.ledger.of_effect ledger h.clock fun id mem => more ▸ List.mem_append_right _ mem
  · exact ⟨effect.catalogued kept.registry.catalogued kept.registry.named fresh,
      more ▸ effect.named kept.registry.named⟩

theorem WholeTransition.refreshed (h : WholeTransition P R limits w e w')
    (kept : w.Kept R limits) (refreshed : w.Refreshed) : w'.Refreshed := by
  obtain ⟨drawn, more, fresh, effect⟩ := h.1.effect kept.ledger kept.registry
  rw [h.2] at effect
  have unknown := refreshed.filed.unknown fresh
  exact {
    docketed := effect.docketed refreshed.docketed kept.registry.named refreshed.filed fresh
    filed := more ▸ effect.filed refreshed.docketed refreshed.filed fresh
    covered := effect.covered refreshed.docketed unknown refreshed.covered }

theorem World.Founded.kept (h : w.Founded) : w.Kept R limits := by
  have bare := h.bare
  refine ⟨h.initial.invariant, ⟨fun id => .inl ?_, ?_, ?_, ?_, ?_⟩, ⟨?_, ?_, ?_⟩⟩
  · simp [Registry.dossier, Dossier.empty, bare.capabilities, bare.capabilityVersions,
      bare.bindings, bare.statusEvents]
  · simp [bare.capabilityVersions]
  · simp [bare.capabilities]
  · simp [bare.capabilities]
  · simp [bare.connections]
  · simp [bare.connections]
  · simp [bare.capabilities]
  · simp [bare.capabilityVersions]

theorem World.Founded.refreshed (h : w.Founded) : w.Refreshed := by
  have bare := h.bare
  refine ⟨⟨fun id => .inl ?_, ?_⟩, ⟨?_, ?_⟩, ?_⟩
  · simp [Registry.docket, Docket.empty, bare.connections, bare.refreshJobs, bare.snapshots]
  · simp [bare.refreshJobs]
  · simp [bare.refreshJobs]
  · simp [bare.snapshots]
  · simp [Registry.Covered, bare.connections]

/-- The worlds an installation can be in. -/
def World.Installed (P : Platform) (R : RegistryPlatform) (limits : ExecutionLimits) (w : World) :
    Prop := Reachable World.Founded (Transition P R limits) w

/-- The worlds that whole operations lead to. -/
def World.Operated (P : Platform) (R : RegistryPlatform) (limits : ExecutionLimits) (w : World) :
    Prop := Reachable World.Founded (WholeTransition P R limits) w

theorem World.Operated.installed (h : w.Operated P R limits) : w.Installed P R limits := by
  obtain ⟨w₀, es, founded, path⟩ := h
  exact ⟨w₀, es, founded, path.mono fun _ _ _ step => step.1⟩

theorem World.Installed.kept (h : w.Installed P R limits) : w.Kept R limits :=
  Reachable.invariant (fun _ hw => hw.kept) (fun _ _ _ kept step => step.kept kept) h

theorem World.Operated.invariant (h : w.Operated P R limits) :
    w.Kept R limits ∧ w.Refreshed := by
  refine Reachable.invariant (I := fun w => w.Kept R limits ∧ w.Refreshed)
    (fun _ hw => ⟨hw.kept, hw.refreshed⟩) ?_ h
  intro w e w' inv step
  exact ⟨step.1.kept inv.1, step.refreshed inv.1 inv.2⟩

end Steps

/-- The world after a call of the registry that nothing is held from and that no time passes
after. -/
def World.revised (R : RegistryPlatform) (ticks : List Nat) (call : RegistryCall) (w : World) :
    World :=
  let outcome := transact (call.run R) (.begin w.store w.clock ticks [] [])
  ⟨outcome.store, max w.clock outcome.clock, call.draws ++ w.drawn, w.nonces⟩

/-- The event of that call. -/
def World.revision (R : RegistryPlatform) (ticks : List Nat) (call : RegistryCall) (w : World) :
    Event := .registry call (transact (call.run R) (.begin w.store w.clock ticks [] [])).result

theorem World.whole_revised (P : Platform) (R : RegistryPlatform) (limits : ExecutionLimits)
    (ticks : List Nat) (call : RegistryCall) (w : World) (fresh : ∀ id ∈ call.draws, id ∉ w.drawn)
    (distinct : call.draws.Nodup) (whole : call.standalone = false) :
    WholeTransition P R limits w (w.revision R ticks call) (w.revised R ticks call) :=
  ⟨.registry ticks [] _ fresh distinct rfl (Int.le_max_left ..) (Int.le_max_right ..), whole⟩

end Modall
