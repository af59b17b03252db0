import Modall.Registry.Review

/-!
# Publishing the same result again

A publication brings the capabilities of its connection to a fixed point: the version that
describes an offered tool is in force, a tool that is not offered is withdrawn, and the payload is
stored. `Registry.Published` is that fixed point. A refresh that is queued and claimed does not
touch it, and a second publication of the same result finds nothing to change.
-/
namespace Modall
open Library

/-- The rows of a snapshot list these versions. -/
def Registry.listed (r : Registry) (snapshotId : Uuid) : List Uuid :=
  (r.snapshotCapabilities.filter fun row => row.snapshotId == snapshotId).map
    DiscoverySnapshotCapability.capabilityVersionId

/-- The tables that tell what has been observed are the same. -/
structure Registry.SameCatalogue (r r' : Registry) : Prop where
  capabilities : r'.capabilities = r.capabilities
  capabilityVersions : r'.capabilityVersions = r.capabilityVersions
  bindings : r'.bindings = r.bindings
  statusEvents : r'.statusEvents = r.statusEvents
  payloads : r'.payloads = r.payloads

theorem Registry.SameCatalogue.trans {r r' r'' : Registry} (h : r.SameCatalogue r')
    (g : r'.SameCatalogue r'') : r.SameCatalogue r'' where
  capabilities := g.capabilities.trans h.capabilities
  capabilityVersions := g.capabilityVersions.trans h.capabilityVersions
  bindings := g.bindings.trans h.bindings
  statusEvents := g.statusEvents.trans h.statusEvents
  payloads := g.payloads.trans h.payloads

/-- The result has been published for the connection under its present version. -/
structure Registry.Published (R : RegistryPlatform) (context : WorkspaceContext)
    (observed : Observed) (result : DiscoveryResult) (versions : List Uuid) (r : Registry) :
    Prop where
  stands : List.Forall₂ (fun tool id => r.Stands R observed tool id) result.tools versions
  withdrawn : ∀ c ∈ r.capabilities, c.connectionId = observed.connectionId →
    c.toolIdentity ∉ result.tools.map ToolDefinition.identity → c.Withdrawn
  holds : r.Holds R context result
  connection : ∀ c ∈ r.connections, c.id = observed.connectionId →
    c.target = some observed.connectionVersionId ∧ c.workspaceId = context.workspaceId

namespace Registry
variable {R : RegistryPlatform} {context : WorkspaceContext} {observed observed' : Observed}
  {result : DiscoveryResult} {versions : List Uuid} {r r' : Registry} {tool : ToolDefinition}
  {versionId : Uuid}

/-- Whether a version is in force does not depend on the refresh it was observed in. -/
theorem Stands.congr (h : r.Stands R observed tool versionId)
    (connection : observed'.connectionId = observed.connectionId)
    (version : observed'.connectionVersionId = observed.connectionVersionId)
    (revision : observed'.protocolRevision = observed.protocolRevision) :
    r.Stands R observed' tool versionId := by
  obtain ⟨c, hc, hi, capabilities, current, finds⟩ := h
  have describes (row : CapabilityVersion × McpToolBinding) :
      R.Describes observed' tool row ↔ R.Describes observed tool row := by
    constructor
    · rintro ⟨hversion, name, hrevision, metadata⟩
      exact ⟨hversion.trans version, name, hrevision.trans revision, metadata⟩
    · rintro ⟨hversion, name, hrevision, metadata⟩
      exact ⟨hversion.trans version.symm, name, hrevision.trans revision.symm, metadata⟩
  refine ⟨c, hc.trans connection.symm, hi, capabilities, current, ?_, ?_⟩
  · obtain ⟨row, mem, hid, described⟩ := finds.recorded
    exact ⟨row, mem, hid, (describes row).mpr described⟩
  · intro row mem described
    exact finds.preferred row mem ((describes row).mp described)

/-- What writes neither the catalogue nor the payloads leaves a result published. -/
theorem Published.of_keeps (h : r.Published R context observed result versions)
    (keeps : r.KeepsCatalogue r') (payloads : r'.payloads = r.payloads)
    (connection : ∀ c ∈ r'.connections, c.id = observed.connectionId →
      c.target = some observed.connectionVersionId ∧ c.workspaceId = context.workspaceId) :
    r'.Published R context observed result versions where
  stands := by
    refine h.stands.imp fun tool id stands => ?_
    exact stands.of_apart fun c _ _ _ => keeps.dossier c.id
  withdrawn c mem := h.withdrawn c (keeps.capabilities ▸ mem)
  holds := by
    unfold Holds
    rw [payloads]
    exact h.holds
  connection := connection

/-- A publication that returned has published its result. -/
theorem Publishes.published {lease : RefreshLease} {drawn : List Uuid}
    {snapshot : DiscoverySnapshot} {c : ServerConnection} {job : DiscoveryRefreshJob} {now : Time}
    {r₁ r₂ : Registry}
    (h : r.Publishes R context lease result drawn snapshot c job now r₁ r₂ r') :
    ∃ rows : List DiscoverySnapshotCapability,
      r'.snapshotCapabilities = r.snapshotCapabilities ++ rows ∧
      (∀ row ∈ rows, row.snapshotId = snapshot.id) ∧
      r'.Published R context (lease.observed result.protocolRevision) result
        (rows.map DiscoverySnapshotCapability.capabilityVersionId) := by
  obtain ⟨rows, added, own, stands⟩ := h.surveys.lists
  refine ⟨rows, ?_, own, ?_⟩
  · rw [h.keeps.snapshotCapabilities, added, h.begins.snapshotCapabilities]
  have payloads : r'.payloads = r₁.payloads := by
    rw [h.ended, h.surveys.discovers.frame]
    rfl
  have connections : r'.connections = updateWhere (fun row => row.id == c.id)
      (fun _ => c.published lease.connectionVersionId snapshot.id now) r.connections := by
    obtain ⟨_, begun⟩ := h.begun
    rw [h.ended, h.surveys.discovers.frame, begun]
    rfl
  refine ⟨?_, ?_, ?_, ?_⟩
  · rw [List.forall₂_map_right_iff]
    refine stands.imp fun tool row stands => ?_
    exact stands.of_apart fun c _ _ _ => h.keeps.dossier c.id
  · intro row mem
    exact h.surveys.withdrawn row (h.keeps.capabilities ▸ mem)
  · unfold Holds
    rw [payloads]
    exact h.holds
  · intro row mem hid
    rw [connections, mem_updateWhere] at mem
    obtain ⟨old, -, rfl⟩ := mem
    by_cases same : old.id = c.id
    · rw [if_pos (beq_iff_eq.mpr same)]
      exact ⟨rfl, h.located.workspaceId⟩
    · rw [if_neg (by simpa using same)] at hid
      exact (same (hid.trans h.located.id.symm)).elim

end Registry

/-! ## The second publication -/

section Again
variable {R : RegistryPlatform} {s t : Session} {context : WorkspaceContext} {observed : Observed}
  {lease : RefreshLease} {tool : ToolDefinition} {versionId snapshotId : Uuid}

/-- A version in force is found and left alone. -/
theorem recordVersion_again {correlationId : Option Uuid} {draws : ToolDraws}
    {version : CapabilityVersion} (settled : s.Settled) (h : s.rows.registry.Catalogued R)
    (stands : s.rows.registry.Stands R observed tool versionId)
    (run : recordVersion R context observed tool correlationId draws s = .ok version t) :
    version.id = versionId ∧ t = s := by
  obtain ⟨c, hc, hi, stands⟩ := stands
  have mem := Registry.mem_of_stands stands
  simp only [recordVersion, bind_eq_ok, requireCurrentRole_eq_ok settled, lift_eq_ok,
    lockedConnection_eq_ok, raiseIf_eq_ok, selectRow_eq_ok] at run
  obtain ⟨_, _, ⟨-, h₁⟩, _, _, ⟨-, h₂⟩, connection, _, ⟨hconnection, h₃⟩, _, _, ⟨-, h₄⟩,
    found, _, ⟨hfound, h₅⟩, run⟩ := run
  rw [h₅, h₄, h₃, h₂, h₁] at run
  rw [h₂, h₁] at hconnection
  rw [h₄, h₃, h₂, h₁] at hfound
  have located := Registry.located_of_find hconnection
  have workspace := h.workspace_eq mem located.mem (located.id.trans hc.symm)
  have only : s.rows.registry.capabilities.find? (fun c => c.workspaceId == context.workspaceId &&
      c.connectionId == observed.connectionId && c.toolIdentity == tool.identity) = some c := by
    refine find?_eq_some_of_only mem (by simp [← workspace, located.workspaceId, hc, hi]) ?_
    intro other hother own
    simp only [Bool.and_eq_true, beq_iff_eq] at own
    exact h.identities other hother c mem (own.1.2.trans hc.symm) (own.2.trans hi.symm)
  obtain ⟨known, hid, matching⟩ := h.matchingVersion_of_stands stands
  rw [hfound, only] at run
  simp only [bind_eq_ok, query_eq_ok] at run
  obtain ⟨_, _, ⟨rfl, rfl⟩, run⟩ := run
  rw [matching] at run
  simp only [reobserve_of_current context (hid ▸ stands.current), bind_eq_ok, pure_eq_ok] at run
  obtain ⟨_, _, ⟨-, rfl⟩, rfl, rfl⟩ := run
  exact ⟨hid, rfl⟩

/-- The row that lists a version in a snapshot of the refresh. -/
def RefreshLease.row (lease : RefreshLease) (context : WorkspaceContext)
    (snapshotId versionId : Uuid) : DiscoverySnapshotCapability :=
  ⟨context.workspaceId, lease.connectionId, lease.connectionVersionId, snapshotId, versionId⟩

/-- Every tool is only listed. -/
theorem publishTools_again {protocolRevision : String} {draws : String → ToolDraws}
    {tools : List ToolDefinition} {versions : List Uuid} {u : Unit} (settled : s.Settled)
    (h : s.rows.registry.Catalogued R)
    (stands : List.Forall₂ (fun tool id =>
      s.rows.registry.Stands R (lease.observed protocolRevision) tool id) tools versions)
    (run : forM tools (publishTool R context lease protocolRevision snapshotId draws) s =
      .ok u t) :
    s.Revised t { s.rows.registry with
      snapshotCapabilities := s.rows.registry.snapshotCapabilities ++
        versions.map (lease.row context snapshotId) } := by
  induction tools generalizing s versions with
  | nil =>
    cases stands
    obtain ⟨-, rfl⟩ := pure_eq_ok.mp run
    rw [List.map_nil, List.append_nil]
    exact settled.revised
  | cons tool tools ih =>
    obtain ⟨id, versions, first, rest, rfl⟩ := List.forall₂_cons_left_iff.mp stands
    rw [List.forM_cons, bind_eq_ok] at run
    obtain ⟨_, v, turn, run⟩ := run
    simp only [publishTool, bind_eq_ok, revise_eq_ok] at turn
    obtain ⟨version, _, recorded, rfl⟩ := turn
    obtain ⟨rfl, rfl⟩ := recordVersion_again settled h first recorded
    have revised := settled.revised.revise fun r =>
      r.addSnapshotCapability (lease.row context snapshotId version.id)
    have later := ih revised.settled (by rw [revised.registry]; exact { h with })
      (by rw [revised.registry]; exact rest) run
    rw [revised.registry] at later
    have whole := revised.trans later
    simp only [Registry.addSnapshotCapability, List.append_assoc, List.singleton_append] at whole
    exact whole

/-- No capability is left to mark. -/
theorem markMissingUnavailable_again {connectionId : Uuid} {identities : List String} {u : Unit}
    (withdrawn : ∀ c ∈ s.rows.registry.capabilities, c.connectionId = connectionId →
      c.toolIdentity ∉ identities → c.Withdrawn)
    (run : markMissingUnavailable context connectionId identities s = .ok u t) : t = s := by
  have all (capabilities : List Capability) (part : ∀ c ∈ capabilities,
      c ∈ s.rows.registry.capabilities ∧ c.connectionId = connectionId) :
      forM capabilities (markMissing context identities) s = .ok () s := by
    induction capabilities with
    | nil => rfl
    | cons c capabilities ih =>
      obtain ⟨mem, hc⟩ := part c List.mem_cons_self
      have none : markMissing context identities c = pure () := by
        apply if_pos
        by_cases seen : c.toolIdentity ∈ identities
        · exact .inl seen
        · exact .inr (withdrawn c mem hc seen)
      rw [List.forM_cons, none]
      exact ih fun c mem => part c (List.mem_cons_of_mem _ mem)
  unfold markMissingUnavailable at run
  rw [bind_of_ok (query_apply _ _), all] at run
  · exact (EStateM.Result.ok.inj run).2.symm
  · intro c mem
    obtain ⟨mem, own⟩ := List.mem_filter.mp mem
    simp only [Bool.and_eq_true, beq_iff_eq] at own
    exact ⟨mem, own.2⟩

/-- A payload that is stored is found. -/
theorem publishPayload_again {result : DiscoveryResult} {payloadId id : Uuid}
    (holds : s.rows.registry.Holds R context result)
    (run : publishPayload R context result payloadId s = .ok id t) : t = s := by
  obtain ⟨payload, found, -⟩ := holds
  unfold publishPayload at run
  rw [bind_of_ok (selectRow_apply _ _ _), found] at run
  simp only [bind_eq_ok, raiseIf_eq_ok, pure_eq_ok] at run
  obtain ⟨_, _, ⟨-, rfl⟩, -, rfl⟩ := run
  rfl

/-- A second publication of the same result changes nothing and lists what is in force. -/
structure Registry.Repeats (snapshotId : Uuid) (versions : List Uuid) (r r' : Registry) : Prop where
  same : r.SameCatalogue r'
  rows : ∃ rows : List DiscoverySnapshotCapability,
    r'.snapshotCapabilities = r.snapshotCapabilities ++ rows ∧
    (∀ row ∈ rows, row.snapshotId = snapshotId) ∧
    rows.map DiscoverySnapshotCapability.capabilityVersionId = versions

theorem publishSuccess_again {context' : WorkspaceContext} {lease' : RefreshLease}
    {result : DiscoveryResult} {draws : PublicationDraws} {snapshot : DiscoverySnapshot}
    {versions : List Uuid} (settled : s.Settled) (h : s.rows.registry.Catalogued R)
    (published : s.rows.registry.Published R context (lease.observed result.protocolRevision)
      result versions)
    (same : lease'.connectionId = lease.connectionId)
    (run : DiscoveryPublicationService.publishSuccess R context' lease' result draws s =
      .ok snapshot t) :
    ∃ r', s.Revised t r' ∧ snapshot.id = draws.snapshotId ∧
      s.rows.registry.Repeats draws.snapshotId versions r' := by
  simp only [DiscoveryPublicationService.publishSuccess, lockedActiveJob, bind_eq_ok,
    requireCurrentRole_eq_ok settled, lockEligibleConnection_eq_ok, revise_eq_ok,
    putConnection_eq_ok, putRefreshJob_eq_ok, pure_eq_ok] at run
  obtain ⟨_, s₀, ⟨role, hs⟩, job, _, held, c, s₁, ⟨⟨found, eligible, target, allocated⟩, rfl⟩,
    payloadId, s₂, paid, _, s₃, rfl, _, s₄, loop, _, s₅, marked, final, s₆, settle, now, s₇, hnow,
    _, _, rfl, _, _, rfl, rfl, rfl⟩ := run
  obtain rfl := hs.symm
  obtain ⟨read, -, -⟩ := lockedJobForLease_ok settled held
  rw [read.registry] at found
  have located := Registry.located_of_find found
  -- The lease is for the version that was published, in the same workspace.
  obtain ⟨target', workspace⟩ := published.connection c located.mem (located.id.trans same)
  have version : lease'.connectionVersionId = lease.connectionVersionId :=
    Option.some.inj (target.symm.trans target')
  have holds : s₁.rows.registry.Holds R context' result := by
    rw [read.registry]
    unfold Registry.Holds
    rw [← located.workspaceId, workspace]
    exact published.holds
  obtain rfl := publishPayload_again holds paid
  let snapshot : DiscoverySnapshot := ⟨draws.snapshotId, context'.workspaceId, lease'.connectionId,
    lease'.connectionVersionId, payloadId, lease'.generation, lease'.controlEpoch,
    result.protocolRevision⟩
  have begun : s.Revised (s₂.revise fun r => r.addSnapshot snapshot)
      (s.rows.registry.addSnapshot snapshot) := read.revise _
  have catalogued : (s.rows.registry.addSnapshot snapshot).Catalogued R := { h with }
  have stands : List.Forall₂ (fun tool id => (s.rows.registry.addSnapshot snapshot).Stands R
      (lease'.observed result.protocolRevision) tool id) result.tools versions :=
    published.stands.imp fun _ _ stands => stands.congr same version rfl
  rw [← begun.registry] at catalogued stands
  have listed := publishTools_again begun.settled catalogued stands loop
  rw [begun.registry] at listed
  obtain rfl : s₅ = s₄ := by
    refine markMissingUnavailable_again ?_ marked
    rw [listed.registry, same]
    exact published.withdrawn
  have surveyed := begun.trans listed
  have found' : s₅.rows.registry.connections.find? (fun c => c.id == lease'.connectionId &&
      c.workspaceId == context'.workspaceId) = some c := by
    rw [surveyed.registry]
    exact found
  obtain ⟨written, hid, -⟩ := settle_ok surveyed.settled found' settle
  rw [surveyed.registry] at written
  have passed := written.read (durableNow_revised written.settled hnow)
  refine ⟨_, ((surveyed.trans passed).revise _).revise _, rfl, ⟨rfl, rfl, rfl, rfl, rfl⟩,
    versions.map (lease'.row context' draws.snapshotId), rfl, ?_, ?_⟩
  · intro row mem
    obtain ⟨_, -, rfl⟩ := List.mem_map.mp mem
    rfl
  · rw [List.map_map]
    exact List.map_id _

end Again

/-! ## In the installation -/

section Steps
variable {P : Platform} {R : RegistryPlatform} {limits : ExecutionLimits} {w w' : World}
  {e : Event} {call : RegistryCall} {reply : Except Failure RegistryReply}
  {context : WorkspaceContext} {observed : Observed} {result : DiscoveryResult}
  {versions : List Uuid}

theorem Transition.noted (h : Transition P R limits w e w') (kept : w.Kept R limits)
    (noted : w.store.registry.Noted w.drawn) : w'.store.registry.Noted w'.drawn := by
  obtain ⟨drawn, more, -, effect⟩ := h.effect kept.ledger kept.registry
  rw [more]
  exact effect.noted noted

theorem World.Installed.noted (h : w.Installed P R limits) : w.store.registry.Noted w.drawn := by
  have both : w.Kept R limits ∧ w.store.registry.Noted w.drawn := by
    refine Reachable.invariant (I := fun w : World => w.Kept R limits ∧
      w.store.registry.Noted w.drawn) ?_ ?_ h
    · intro w founded
      refine ⟨founded.kept, fun row mem => ?_⟩
      rw [founded.bare.snapshotCapabilities] at mem
      cases mem
    · intro w e w' inv step
      exact ⟨step.kept inv.1, step.noted inv.1 inv.2⟩
  exact both.2

/-- A call of the registry only adds identifiers to those that have been drawn. -/
theorem Transition.drawn (h : Transition P R limits w (.registry call reply) w') :
    w'.drawn = call.draws ++ w.drawn ∧ ∀ id ∈ call.draws, id ∉ w.drawn := by
  rcases h.cases_registry with ⟨_, _, _, drawn, fresh⟩ | ⟨_, _, _, _, ran⟩
  · exact ⟨drawn, fresh⟩
  · exact ⟨ran.drawn, ran.fresh⟩

/-- A refresh that is queued leaves the result published. -/
theorem Transition.enqueue_published {context' : WorkspaceContext} {connectionId jobId : Uuid}
    (h : Transition P R limits w (.registry (.enqueue context' connectionId jobId) reply) w')
    (kept : w.Kept R limits)
    (published : w.store.registry.Published R context observed result versions) :
    w'.store.registry.Published R context observed result versions ∧
      w.store.registry.SameCatalogue w'.store.registry ∧
      w'.store.registry.snapshotCapabilities = w.store.registry.snapshotCapabilities := by
  rcases h.cases_registry with ⟨_, _, same, -⟩ | ⟨_, s, t, _, ran⟩
  · rw [same]
    exact ⟨published, ⟨rfl, rfl, rfl, rfl, rfl⟩, rfl⟩
  · obtain ⟨job, _, run, ret⟩ := bind_eq_ok.mp ran.ran
    obtain ⟨-, rfl⟩ := pure_eq_ok.mp ret
    obtain ⟨c, versionId, located, -, -, -, revised⟩ :=
      RefreshJobService.enqueue_ok ran.settled run
    rw [ran.store, revised.settled.flushed, revised.registry, ran.rows]
    rw [ran.rows] at located
    have owners : (w.store.registry.setConnection c.id fun _ => c.allocate versionId).owners =
        w.store.registry.owners :=
      Registry.owners_setConnection kept.registry.catalogued.connections located.mem rfl rfl
    refine ⟨published.of_keeps ⟨rfl, rfl, rfl, rfl, rfl, owners⟩ rfl ?_,
      ⟨rfl, rfl, rfl, rfl, rfl⟩, rfl⟩
    intro row mem hid
    obtain ⟨old, hold, rfl⟩ := mem_updateWhere.mp mem
    by_cases same : old.id = c.id
    · rw [if_pos (beq_iff_eq.mpr same)] at hid ⊢
      exact published.connection c located.mem hid
    · rw [if_neg (by simpa using same)] at hid ⊢
      exact published.connection old hold hid

/-- So does a worker that takes it. -/
theorem Transition.claim_published {context' : WorkspaceContext} {jobId : Uuid}
    {workerId : String} {leaseDuration : Int}
    (h : Transition P R limits w
      (.registry (.claim context' jobId workerId leaseDuration) reply) w')
    (published : w.store.registry.Published R context observed result versions) :
    w'.store.registry.Published R context observed result versions ∧
      w.store.registry.SameCatalogue w'.store.registry ∧
      w'.store.registry.snapshotCapabilities = w.store.registry.snapshotCapabilities := by
  rcases h.cases_registry with ⟨_, _, same, -⟩ | ⟨_, s, t, _, ran⟩
  · rw [same]
    exact ⟨published, ⟨rfl, rfl, rfl, rfl, rfl⟩, rfl⟩
  · obtain ⟨lease, _, run, ret⟩ := bind_eq_ok.mp ran.ran
    obtain ⟨-, rfl⟩ := pure_eq_ok.mp ret
    obtain ⟨job, expiresAt, -, -, revised⟩ := RefreshJobService.claim_ok ran.settled run
    rw [ran.store, revised.settled.flushed, revised.registry, ran.rows]
    exact ⟨published.of_keeps ⟨rfl, rfl, rfl, rfl, rfl, rfl⟩ rfl published.connection,
      ⟨rfl, rfl, rfl, rfl, rfl⟩, rfl⟩

/-- The rows of a snapshot are those that were added under its identifier. -/
theorem Registry.listed_of_append {r r' : Registry} {rows : List DiscoverySnapshotCapability}
    {snapshotId : Uuid} {drawn : List Uuid}
    (added : r'.snapshotCapabilities = r.snapshotCapabilities ++ rows)
    (own : ∀ row ∈ rows, row.snapshotId = snapshotId) (noted : r.Noted drawn)
    (fresh : snapshotId ∉ drawn) :
    r'.listed snapshotId = rows.map DiscoverySnapshotCapability.capabilityVersionId := by
  have before : (r.snapshotCapabilities.filter fun row => row.snapshotId == snapshotId) = [] := by
    rw [List.filter_eq_nil_iff]
    intro row mem same
    exact fresh (beq_iff_eq.mp same ▸ noted row mem)
  have after : (rows.filter fun row => row.snapshotId == snapshotId) = rows := by
    rw [List.filter_eq_self]
    intro row mem
    exact beq_iff_eq.mpr (own row mem)
  rw [listed, added, List.filter_append, before, after, List.nil_append]

/-- The rows of another snapshot add nothing to what is listed. -/
theorem Registry.listed_of_other {r r' : Registry} {rows : List DiscoverySnapshotCapability}
    {snapshotId other : Uuid} (added : r'.snapshotCapabilities = r.snapshotCapabilities ++ rows)
    (own : ∀ row ∈ rows, row.snapshotId = other) (differs : other ≠ snapshotId) :
    r'.listed snapshotId = r.listed snapshotId := by
  have none : (rows.filter fun row => row.snapshotId == snapshotId) = [] := by
    rw [List.filter_eq_nil_iff]
    intro row mem same
    exact differs ((own row mem).symm.trans (beq_iff_eq.mp same))
  rw [listed, listed, added, List.filter_append, none, List.append_nil]

/-- A publication that returns has published its result, and its snapshot lists the versions that
are in force. -/
theorem Transition.published {lease : RefreshLease} {draws : PublicationDraws}
    {snapshot : DiscoverySnapshot} (kept : w.Kept R limits)
    (noted : w.store.registry.Noted w.drawn)
    (h : Transition P R limits w (.registry (.publishSuccess context lease result draws)
      (.ok (.snapshot snapshot))) w') :
    ∃ versions, w'.store.registry.Published R context (lease.observed result.protocolRevision)
        result versions ∧
      w'.store.registry.listed snapshot.id = versions ∧ snapshot.id = draws.snapshotId := by
  rcases h.cases_registry with ⟨_, raised, -⟩ | ⟨_, s, t, replied, ran⟩
  · cases raised
  obtain ⟨snapshot', _, run, ret⟩ := bind_eq_ok.mp ran.ran
  obtain ⟨hreply, rfl⟩ := pure_eq_ok.mp ret
  rw [hreply] at replied
  injection replied with replied
  injection replied with replied
  subst replied
  have unused := RegistryCall.unused (ran.rows ▸ kept.registry.named) ran.fresh
  obtain ⟨c, job, now, r₁, r₂, r', revised, hid, publishes⟩ :=
    DiscoveryPublicationService.publishSuccess_ok ran.settled
      (ran.rows ▸ kept.registry.catalogued) unused
      (ran.distinct.sublist (RegistryCall.drawnFor_sublist context lease result draws)) run
  obtain ⟨rows, added, own, published⟩ := publishes.published
  have store : w'.store.registry = r' := by
    rw [ran.store, revised.settled.flushed, revised.registry]
  rw [ran.rows] at added
  rw [store]
  refine ⟨_, published, Registry.listed_of_append added own noted ?_, hid⟩
  rw [hid]
  exact ran.fresh draws.snapshotId (by simp [RegistryCall.draws])

/-- A second publication of the result changes nothing, and its snapshot lists the same. -/
theorem Transition.republished {lease lease' : RefreshLease} {draws : PublicationDraws}
    {context' : WorkspaceContext} (kept : w.Kept R limits)
    (noted : w.store.registry.Noted w.drawn)
    (published : w.store.registry.Published R context (lease.observed result.protocolRevision)
      result versions)
    (same : lease'.connectionId = lease.connectionId)
    (h : Transition P R limits w
      (.registry (.publishSuccess context' lease' result draws) reply) w') :
    w.store.registry.SameCatalogue w'.store.registry ∧
      ∀ snapshot, reply = .ok (.snapshot snapshot) →
        w'.store.registry.listed snapshot.id = versions ∧
        ∀ id ∈ w.drawn, w'.store.registry.listed id = w.store.registry.listed id := by
  rcases h.cases_registry with ⟨_, raised, unchanged, -⟩ | ⟨_, s, t, replied, ran⟩
  · rw [unchanged]
    refine ⟨⟨rfl, rfl, rfl, rfl, rfl⟩, fun snapshot returned => ?_⟩
    rw [raised] at returned
    cases returned
  obtain ⟨snapshot', _, run, ret⟩ := bind_eq_ok.mp ran.ran
  obtain ⟨hreply, rfl⟩ := pure_eq_ok.mp ret
  obtain ⟨r', revised, hid, repeats⟩ := publishSuccess_again ran.settled
    (ran.rows ▸ kept.registry.catalogued) (ran.rows ▸ published) same run
  have store : w'.store.registry = r' := by
    rw [ran.store, revised.settled.flushed, revised.registry]
  have fresh : draws.snapshotId ∉ w.drawn :=
    ran.fresh draws.snapshotId (by simp [RegistryCall.draws])
  rw [ran.rows] at repeats
  obtain ⟨rows, added, own, listed⟩ := repeats.rows
  rw [store]
  refine ⟨repeats.same, fun snapshot returned => ⟨?_, fun id known => ?_⟩⟩
  · rw [replied, hreply] at returned
    injection returned with returned
    injection returned with returned
    rw [← returned, hid, Registry.listed_of_append added own noted fresh, listed]
  · refine Registry.listed_of_other added own ?_
    rintro rfl
    exact fresh known

/-- A publication that has returned, published once more by another refresh of the connection,
changes nothing, and its snapshot lists the same versions. Any of the later calls may also raise. -/
theorem publication_is_idempotent {w₁ w₂ w₃ w₄ : World} {lease lease' : RefreshLease}
    {draws draws' : PublicationDraws} {snapshot : DiscoverySnapshot}
    {context₁ context₂ context₃ : WorkspaceContext} {jobId : Uuid} {workerId : String}
    {leaseDuration : Int} {queued claimed again : Except Failure RegistryReply}
    (h : w.Installed P R limits)
    (first : Transition P R limits w (.registry (.publishSuccess context lease result draws)
      (.ok (.snapshot snapshot))) w₁)
    (enqueue : Transition P R limits w₁
      (.registry (.enqueue context₁ lease.connectionId jobId) queued) w₂)
    (claim : Transition P R limits w₂
      (.registry (.claim context₂ jobId workerId leaseDuration) claimed) w₃)
    (same : lease'.connectionId = lease.connectionId)
    (second : Transition P R limits w₃
      (.registry (.publishSuccess context₃ lease' result draws') again) w₄) :
    w₁.store.registry.SameCatalogue w₄.store.registry ∧
      ∀ snapshot', again = .ok (.snapshot snapshot') →
        w₄.store.registry.listed snapshot'.id = w₁.store.registry.listed snapshot.id ∧
        w₄.store.registry.listed snapshot.id = w₁.store.registry.listed snapshot.id := by
  have kept₁ := first.kept h.kept
  have kept₂ := enqueue.kept kept₁
  have noted₃ := claim.noted kept₂ (enqueue.noted kept₁ (first.noted h.kept h.noted))
  obtain ⟨versions, published₁, listed, hid⟩ := first.published h.kept h.noted
  obtain ⟨published₂, same₁, rows₁⟩ := enqueue.enqueue_published kept₁ published₁
  obtain ⟨published₃, same₂, rows₂⟩ := claim.claim_published published₂
  obtain ⟨same₃, lists⟩ := second.republished (claim.kept kept₂) noted₃ published₃ same
  refine ⟨(same₁.trans same₂).trans same₃, fun snapshot' returned => ?_⟩
  obtain ⟨listed', others⟩ := lists snapshot' returned
  rw [listed', listed]
  refine ⟨rfl, ?_⟩
  have known : snapshot.id ∈ w₃.drawn := by
    rw [claim.drawn.1, enqueue.drawn.1, first.drawn.1, hid]
    simp [RegistryCall.draws]
  rw [others _ known, Registry.listed, rows₂, rows₁]
  exact listed

end Steps

/-! ## The small installation, refreshed once more -/

namespace Installation

def reenqueue : RegistryCall := .enqueue admin 3 30
def reclaim : RegistryCall := .claim admin 30 "worker" 1000000
def laterLease : RefreshLease := ⟨30, 2, "worker", 1, 3, 4, 0, 2⟩
def republish : RegistryCall :=
  .publishSuccess admin laterLease discovery ⟨31, 32, 33, fun _ => ⟨34, 35, 36⟩⟩

def requeued : World := published.revised registryPlatform [] reenqueue
def reclaimed : World := requeued.revised registryPlatform [] Installation.reclaim
def republished : World := reclaimed.revised registryPlatform [] republish

/-- The call returned a snapshot of this identifier. -/
def returned (id : Uuid) : Except Failure RegistryReply → Bool
  | .ok (.snapshot snapshot) => snapshot.id == id
  | _ => false

theorem exists_of_returned {id : Uuid} {reply : Except Failure RegistryReply}
    (h : returned id reply = true) :
    ∃ snapshot, reply = .ok (.snapshot snapshot) ∧ snapshot.id = id := by
  unfold returned at h
  split at h
  · exact ⟨_, rfl, beq_iff_eq.mp h⟩
  · cases h

end Installation

open Installation in
theorem publication_is_idempotent_sample :
    republished.store.registry.listed 32 = [7] ∧
      published.store.registry.SameCatalogue republished.store.registry := by
  have first := (whole publish leased (by decide +kernel) rfl).1
  have second := (whole republish reclaimed (by decide +kernel) rfl).1
  obtain ⟨snapshot, hfirst, hid⟩ : ∃ snapshot,
      (transact (publish.run registryPlatform) (.begin leased.store leased.clock [] [] [])).result =
        .ok (.snapshot snapshot) ∧ snapshot.id = 5 := exists_of_returned (by decide +kernel)
  obtain ⟨snapshot', hsecond, hid'⟩ : ∃ snapshot,
      (transact (republish.run registryPlatform)
        (.begin reclaimed.store reclaimed.clock [] [] [])).result = .ok (.snapshot snapshot) ∧
      snapshot.id = 32 := exists_of_returned (by decide +kernel)
  unfold World.revision at first
  rw [hfirst] at first
  have same : laterLease.connectionId = refreshLease.connectionId := rfl
  have idempotent := publication_is_idempotent (World.Operated.installed leased_operated) first
    (whole reenqueue published (by decide +kernel) rfl).1
    (whole Installation.reclaim requeued (by decide +kernel) rfl).1 same second
  have lists := (idempotent.2 snapshot' hsecond).1
  rw [hid, hid'] at lists
  refine ⟨lists.trans ?_, idempotent.1⟩
  decide +kernel

end Modall
