import Modall.Registry.Statements

/-!
# One observed tool

`record_version` never raises once its metadata has passed and the connection still carries the
allocation. `Registry.Records` is what it does to the registry: it takes discovery steps on the
one capability of the tool, and if that capability is enabled afterwards, it is so at the version
that was returned.
-/
namespace Modall
open Library

/-- The principal may publish what was observed of this connection. -/
structure Registry.Accepts (r : Registry) (context : WorkspaceContext) (observed : Observed)
    (c : ServerConnection) : Prop where
  role : r.Authorizes context [.admin, .operator]
  found : r.connections.find? (fun c => c.id == observed.connectionId &&
    c.workspaceId == context.workspaceId) = some c
  eligible : c.lifecycle ≠ .disabled
  target : c.target = some observed.connectionVersionId
  allocated : c.Allocated observed.connectionVersionId observed.expectedControlEpoch
    observed.expectedRefreshGeneration

/-- The tool has a capability of the connection, at which this version is in force. -/
def Registry.Stands (R : RegistryPlatform) (observed : Observed) (tool : ToolDefinition)
    (versionId : Uuid) (r : Registry) : Prop :=
  ∃ c : Capability, c.connectionId = observed.connectionId ∧ c.toolIdentity = tool.identity ∧
    (r.dossier c.id).Stands R observed tool c versionId

/-- What `record_version` does to the registry. -/
structure Registry.Records (R : RegistryPlatform) (drawn : List Uuid) (observed : Observed)
    (tool : ToolDefinition) (versionId : Uuid) (r r' : Registry) : Prop where
  catalogued : r'.Catalogued R
  discovers : r.Discovers R drawn observed.connectionId r'
  others : ∀ row ∈ r'.capabilities, row.connectionId = observed.connectionId →
    row.toolIdentity ≠ tool.identity → row ∈ r.capabilities
  enabled : ∀ row ∈ r'.capabilities, row.connectionId = observed.connectionId →
    row.toolIdentity = tool.identity → row.status = .enabled →
    row.enabledVersionId = some versionId
  bound : ∃ binding ∈ r'.bindings, binding.capabilityVersionId = versionId ∧
    binding.connectionVersionId = observed.connectionVersionId
  noted : r'.snapshotCapabilities = r.snapshotCapabilities
  stands : r'.Stands R observed tool versionId
  apart : ∀ c ∈ r.capabilities, c.connectionId = observed.connectionId →
    c.toolIdentity ≠ tool.identity → r'.dossier c.id = r.dossier c.id

namespace Registry
variable {R : RegistryPlatform} {r r' : Registry} {c c' : Capability} {observed : Observed}
  {context : WorkspaceContext} {connection : ServerConnection} {drawn : List Uuid}

theorem Accepts.of_discovers (h : r.Accepts context observed connection) {connectionId : Uuid}
    (discovers : r.Discovers R drawn connectionId r') : r'.Accepts context observed connection := by
  rw [discovers.frame]
  exact ⟨⟨h.role.role, h.role.workspace, h.role.membership⟩, h.found, h.eligible, h.target,
    h.allocated⟩

/-- The capabilities of the connection belong to the caller's workspace. -/
theorem Accepts.workspace_eq (h : r.Accepts context observed connection)
    (catalogued : r.Catalogued R) (mem : c ∈ r.capabilities)
    (hc : c.connectionId = observed.connectionId) : c.workspaceId = context.workspaceId := by
  have located := located_of_find h.found
  rw [← catalogued.workspace_eq mem located.mem (located.id.trans hc.symm), located.workspaceId]

/-- Discovery moves the projection of a capability. -/
theorem Catalogued.observe (h : r.Catalogued R) (mem : c ∈ r.capabilities)
    (succeeds : c'.Succeeds c) (coherent : c'.Coherent)
    (enabled : c'.enabledVersionId = c.enabledVersionId)
    (pending : ∀ v, c'.pendingVersionId = some v →
      v ∈ (r.dossier c.id).versions.map CapabilityVersion.id)
    (sticky : c.status = .disabled → c'.status = .disabled) (context : WorkspaceContext) :
    (r.moveCapability c' (c'.statusEvent context)).Catalogued R ∧
      r.Discovers R drawn c.connectionId (r.moveCapability c' (c'.statusEvent context)) := by
  have logs := c'.statusEvent_logs context
  have step := Dossier.Step.observe (R := R) (h.of_mem mem).capabilities succeeds coherent enabled
    pending sticky logs
  exact ⟨h.move mem succeeds logs step, .move mem succeeds logs step⟩

/-- The capability of the tool is moved and everything else left alone. -/
theorem Records.of_move {tool : ToolDefinition} {versionId : Uuid} {event : CapabilityStatusEvent}
    (h : r.Catalogued R) (mem : c ∈ r.capabilities) (succeeds : c'.Succeeds c)
    (hc : c.connectionId = observed.connectionId) (hi : c.toolIdentity = tool.identity)
    (catalogued : (r.moveCapability c' event).Catalogued R)
    (discovers : r.Discovers R drawn c.connectionId (r.moveCapability c' event))
    (enabled : c'.enabledVersionId = c.enabledVersionId) (current : c'.Current versionId)
    (coherent : c'.Coherent) (logs : event.Logs c')
    (bound : ∃ binding ∈ r.bindings, binding.capabilityVersionId = versionId ∧
      binding.connectionVersionId = observed.connectionVersionId)
    (finds : (r.dossier c.id).Finds R observed tool c.enabledVersionId versionId) :
    r.Records R drawn observed tool versionId (r.moveCapability c' event) where
  catalogued := catalogued
  discovers := hc ▸ discovers
  others row hr _ other := by
    rcases (mem_moveCapability mem succeeds.id).mp hr with rfl | ⟨old, -⟩
    · exact (other (succeeds.toolIdentity.trans hi)).elim
    · exact old
  enabled row hr connection same status := by
    rcases (mem_moveCapability mem succeeds.id).mp hr with rfl | ⟨old, other⟩
    · rcases current.version with ⟨force, -⟩ | ⟨-, pending⟩
      · exact force
      · rw [(coherent.enabled status).2] at pending
        cases pending
    · have := h.identities row old c mem (connection.trans hc.symm) (same.trans hi.symm)
      rw [this, succeeds.id] at other
      exact (other rfl).elim
  bound := bound
  noted := rfl
  stands := by
    refine ⟨c', succeeds.connectionId.trans hc, succeeds.toolIdentity.trans hi, ?_⟩
    rw [dossier_moveCapability c' event logs.capabilityId, if_pos rfl, succeeds.id]
    refine ⟨?_, current, enabled ▸ finds.move⟩
    simp [Dossier.move, (h.of_mem mem).capabilities]
  apart row hr connection other := by
    rw [dossier_moveCapability c' event logs.capabilityId, if_neg]
    intro same
    obtain rfl := h.eq_of_id hr mem (same.trans succeeds.id)
    exact other hi

end Registry

section Reobserve
variable {R : RegistryPlatform} {s t : Session} {context : WorkspaceContext} {c : Capability}
  {observed : Observed}

/-- Storing a capability with its event. -/
theorem putCapability_appendStatusEvent (s : Session) (context : WorkspaceContext)
    (c : Capability) {versionId : Option Uuid} (h : versionId = c.decisionVersionId) :
    (putCapability c >>= fun _ => appendStatusEvent context c versionId) s =
      .ok () ((s.revise fun r => r.setCapability c.id fun _ => c).revise fun r =>
        r.addStatusEvent (c.statusEvent context)) := by
  subst h
  exact (bind_of_ok (revise_apply _ _)).trans (appendStatusEvent_eq_ok.mpr rfl)

theorem reobserve_returns (context : WorkspaceContext) (settled : s.Settled)
    (h : s.rows.registry.Catalogued R)
    (mem : c ∈ s.rows.registry.capabilities) (hc : c.connectionId = observed.connectionId)
    {tool : ToolDefinition} (hi : c.toolIdentity = tool.identity)
    {existing : CapabilityVersion} {binding : McpToolBinding}
    (recorded : (existing, binding) ∈ (s.rows.registry.dossier c.id).recorded)
    (hversion : binding.connectionVersionId = observed.connectionVersionId)
    (finds : (s.rows.registry.dossier c.id).Finds R observed tool c.enabledVersionId
      existing.id) :
    ∃ t r', reobserve context c existing s = .ok () t ∧ s.Revised t r' ∧
      s.rows.registry.Records R [] observed tool existing.id r' := by
  have valid := h.of_mem mem
  have bound : ∃ binding ∈ s.rows.registry.bindings, binding.capabilityVersionId = existing.id ∧
      binding.connectionVersionId = observed.connectionVersionId :=
    ⟨binding, (Registry.mem_dossier_bindings.mp (Dossier.mem_bindings_of_recorded recorded)).1,
      valid.bound_of_recorded recorded, hversion⟩
  have known : existing.id ∈ (s.rows.registry.dossier c.id).versions.map CapabilityVersion.id :=
    List.mem_map_of_mem (Dossier.mem_versions_of_recorded recorded)
  -- Every branch but the last stores a successor of the row and logs it.
  have moved (c' : Capability) (succeeds : c'.Succeeds c) (coherent : c'.Coherent)
      (enabled : c'.enabledVersionId = c.enabledVersionId)
      (pending : ∀ v, c'.pendingVersionId = some v →
        v ∈ (s.rows.registry.dossier c.id).versions.map CapabilityVersion.id)
      (sticky : c.status = .disabled → c'.status = .disabled)
      (current : c'.Current existing.id) :
      ∃ t r', (putCapability c' >>= fun _ => appendStatusEvent context c' (some existing.id)) s =
        .ok () t ∧ s.Revised t r' ∧
        s.rows.registry.Records R [] observed tool existing.id r' := by
    have kept : _ ∧ s.rows.registry.Discovers R [] c.connectionId _ :=
      h.observe mem succeeds coherent enabled pending sticky context
    obtain ⟨catalogued, discovers⟩ := kept
    exact ⟨_, _, putCapability_appendStatusEvent s context c' current.decision.symm,
      settled.revised.move c' context,
      .of_move h mem succeeds hc hi catalogued discovers enabled current coherent
        (c'.statusEvent_logs context) bound finds⟩
  unfold reobserve
  by_cases reverted : c.enabledVersionId = some existing.id ∧ c.pendingVersionId ≠ none
  · rw [if_pos reverted]
    refine moved _ ⟨rfl, rfl, rfl, rfl, rfl⟩ ⟨?_, ?_, ?_⟩ rfl ?_ ?_ ⟨.inl ⟨reverted.1, rfl⟩, ?_⟩
    · simp [reverted.1]
    · by_cases disabled : c.status = .disabled <;> simp [disabled]
    · simp
    · simp
    · intro disabled
      simp [disabled]
    · by_cases disabled : c.status = .disabled <;> simp [disabled]
  rw [if_neg reverted]
  by_cases returned : c.enabledVersionId = some existing.id ∧ c.status = .unavailable
  · rw [if_pos returned]
    have settled : c.pendingVersionId = none := by
      by_contra pending
      exact reverted ⟨returned.1, pending⟩
    refine moved _ ⟨rfl, rfl, rfl, rfl, rfl⟩ ⟨?_, ?_, ?_⟩ rfl ?_ ?_
      ⟨.inl ⟨returned.1, settled⟩, nofun⟩
    · simp [returned.1, settled]
    · simp
    · simp [settled]
    · simp [settled]
    · simp [returned.2]
  rw [if_neg returned]
  by_cases awaited : c.status = .unavailable ∧ c.pendingVersionId = some existing.id
  · rw [if_pos awaited]
    refine moved _ ⟨rfl, rfl, rfl, rfl, rfl⟩ ⟨?_, ?_, valid.coherent.distinct⟩ rfl valid.pending
      ?_ ⟨.inr ⟨valid.coherent.distinct _ awaited.2, awaited.2⟩, nofun⟩
    · simp
    · simp [awaited.2]
    · simp [awaited.1]
  rw [if_neg awaited]
  by_cases drifted : c.enabledVersionId ≠ some existing.id ∧ c.pendingVersionId ≠ some existing.id
  · rw [if_pos drifted]
    refine moved _ ⟨rfl, rfl, rfl, rfl, rfl⟩ ⟨?_, ?_, ?_⟩ rfl ?_ ?_ ⟨.inr ⟨drifted.1, rfl⟩, ?_⟩
    · by_cases disabled : c.status = .disabled <;> simp [disabled]
    · simp
    · rintro v hv
      rw [← Option.some.inj hv]
      exact drifted.1
    · rintro v hv
      exact Option.some.inj hv ▸ known
    · intro disabled
      simp [disabled]
    · by_cases disabled : c.status = .disabled <;> simp [disabled]
  -- The version is already the one in force: nothing is written.
  rw [if_neg drifted]
  have current : c.Current existing.id := by
    constructor
    · by_cases enabled : c.enabledVersionId = some existing.id
      · exact .inl ⟨enabled, not_not.mp fun pending => reverted ⟨enabled, pending⟩⟩
      · exact .inr ⟨enabled, not_not.mp fun pending => drifted ⟨enabled, pending⟩⟩
    · intro unavailable
      by_cases enabled : c.enabledVersionId = some existing.id
      · exact returned ⟨enabled, unavailable⟩
      · exact drifted ⟨enabled, fun pending => awaited ⟨unavailable, pending⟩⟩
  refine ⟨s, s.rows.registry, rfl, settled.revised, h, .refl _, fun row hr _ _ => hr, ?_, bound,
    rfl, ⟨c, hc, hi, valid.capabilities, current, finds⟩, fun _ _ _ _ => rfl⟩
  intro row hr connection identity status
  obtain rfl := h.identities row hr c mem (connection.trans hc.symm) (identity.trans hi.symm)
  have pending := (valid.coherent.enabled status).2
  by_contra other
  exact drifted ⟨other, by simp [pending]⟩

/-- The version is in force: seeing it again changes nothing. -/
theorem reobserve_of_current {existing : CapabilityVersion} (context : WorkspaceContext)
    (current : c.Current existing.id) : reobserve context c existing = pure () := by
  have available := current.available
  unfold reobserve
  rcases current.version with ⟨enabled, pending⟩ | ⟨enabled, pending⟩ <;>
    simp [enabled, pending, available]

end Reobserve

section RecordVersion
variable {R : RegistryPlatform} {s : Session} {context : WorkspaceContext} {c : Capability}
  {observed : Observed} {connection : ServerConnection} {tool : ToolDefinition}
  {draws : ToolDraws}

/-- The capability whose new version awaits review. -/
def Capability.drifted (c : Capability) (versionId : Uuid) : Capability :=
  { c with
    pendingVersionId := some versionId
    status := if c.status ≠ .disabled then .pendingReview else c.status
    statusEpoch := c.statusEpoch + 1 }

theorem Capability.drifted_succeeds (c : Capability) (versionId : Uuid) :
    (c.drifted versionId).Succeeds c := ⟨rfl, rfl, rfl, rfl, rfl⟩

theorem Capability.drifted_status (c : Capability) (versionId : Uuid) :
    (c.drifted versionId).status ≠ .enabled := by
  unfold drifted
  by_cases disabled : c.status = .disabled <;> simp [disabled]

theorem Capability.drifted_current (c : Capability) {versionId : Uuid}
    (h : c.enabledVersionId ≠ some versionId) :
    (c.drifted versionId).Current versionId := by
  refine ⟨.inr ⟨h, rfl⟩, ?_⟩
  unfold drifted
  by_cases disabled : c.status = .disabled <;> simp [disabled]

theorem recordNewVersion_returns {r : Registry} {t : Session} (revised : s.Revised t r)
    (context : WorkspaceContext) (c : Capability) (sequence : Nat) (observed : Observed)
    (tool : ToolDefinition) (correlationId : Option Uuid) (draws : ToolDraws) :
    ∃ u, recordNewVersion context c sequence observed.connectionId observed.connectionVersionId
        tool observed.protocolRevision correlationId draws t =
      .ok (newCapabilityVersion context c sequence tool draws.versionId) u ∧
      s.Revised u ((r.addCapabilityVersion
        (newCapabilityVersion context c sequence tool draws.versionId)
        (newBinding context c observed.connectionId observed.connectionVersionId tool
          observed.protocolRevision draws.versionId)).moveCapability
        (c.drifted draws.versionId) ((c.drifted draws.versionId).statusEvent context)) := by
  let record := fun r : Registry => r.addCapabilityVersion
    (newCapabilityVersion context c sequence tool draws.versionId)
    (newBinding context c observed.connectionId observed.connectionVersionId tool
      observed.protocolRevision draws.versionId)
  exact ⟨_, rfl, ((revised.revise record).move (c.drifted draws.versionId) context).audited
    ⟨context.workspaceId, context.actorUserId, .capabilityVersionRecorded, .capability, c.id,
      correlationId.getD draws.traceId⟩⟩

/-- Metadata that has not been seen before is recorded of a capability that exists. -/
theorem Registry.Catalogued.recordNew {r : Registry} (h : r.Catalogued R)
    (accepts : r.Accepts context observed connection) (mem : c ∈ r.capabilities)
    (hc : c.connectionId = observed.connectionId) (hi : c.toolIdentity = tool.identity)
    (missed : r.matchingVersion R c observed.connectionVersionId tool observed.protocolRevision =
      none)
    (fresh : draws.versionId ∉ r.capabilityVersions.map CapabilityVersion.id) {sequence : Nat}
    (hsequence : sequence = (r.dossier c.id).versions.length + 1) :
    r.Records R [draws.versionId] observed tool draws.versionId
      ((r.addCapabilityVersion (newCapabilityVersion context c sequence tool draws.versionId)
        (newBinding context c observed.connectionId observed.connectionVersionId tool
          observed.protocolRevision draws.versionId)).moveCapability
        (c.drifted draws.versionId) ((c.drifted draws.versionId).statusEvent context)) := by
  let version := newCapabilityVersion context c sequence tool draws.versionId
  let binding := newBinding context c observed.connectionId observed.connectionVersionId tool
    observed.protocolRevision draws.versionId
  have workspace := accepts.workspace_eq h mem hc
  have adds : Dossier.Adds R (r.dossier c.id) c version binding := {
    sequence := hsequence
    bound := rfl
    workspaceId := workspace.symm
    workspaceId' := workspace.symm
    connectionId := hc.symm
    new := fun row hrow agree =>
      h.not_describes mem missed row hrow (Registry.describes_of_agree agree) }
  obtain ⟨recorded, discovers⟩ := h.record mem adds rfl rfl fresh
  have valid := h.of_mem mem
  have read : (r.addCapabilityVersion version binding).dossier c.id =
      (r.dossier c.id).addVersion version binding := by
    rw [Registry.dossier_addCapabilityVersion version binding rfl]
    exact if_pos rfl
  let moved := (r.addCapabilityVersion version binding).moveCapability (c.drifted draws.versionId)
    ((c.drifted draws.versionId).statusEvent context)
  have describes : R.Describes observed tool (version, binding) :=
    Registry.describes_of_agree (.refl _)
  have coherent : (c.drifted draws.versionId).Coherent := by
    refine ⟨fun h => (c.drifted_status _ h).elim, fun _ => by simp [Capability.drifted], ?_⟩
    intro v hv enabled
    obtain rfl := Option.some.inj hv
    obtain ⟨row, hrow, hid, -⟩ := valid.reviewed _ enabled
    exact fresh (hid ▸ List.mem_map_of_mem
      (Registry.mem_dossier_versions.mp (Dossier.mem_versions_of_recorded hrow)).1)
  have kept : moved.Catalogued R ∧ (r.addCapabilityVersion version binding).Discovers R
      [draws.versionId] c.connectionId moved := by
    refine recorded.observe mem (c.drifted_succeeds draws.versionId) coherent rfl ?_ ?_ context
    · intro v hv
      obtain rfl := Option.some.inj hv
      rw [read, Dossier.addVersion, List.map_append]
      exact List.mem_append_right _ (List.mem_singleton_self _)
    · intro disabled
      simp [Capability.drifted, disabled]
  have bound : ∃ b ∈ (r.addCapabilityVersion version binding).bindings,
      b.capabilityVersionId = draws.versionId ∧
      b.connectionVersionId = observed.connectionVersionId :=
    ⟨binding, List.mem_append_right _ (List.mem_singleton_self _), rfl, rfl⟩
  have records : (r.addCapabilityVersion version binding).Records R [draws.versionId] observed tool
      draws.versionId moved := by
    refine .of_move recorded mem (c.drifted_succeeds _) hc hi kept.1 kept.2 rfl
      (c.drifted_current (coherent.distinct _ rfl)) coherent
      (Capability.statusEvent_logs _ context) bound ?_
    rw [read]
    exact valid.finds_addVersion (h.not_describes mem missed) describes
  refine { records with discovers := (hc ▸ discovers).trans records.discovers, apart := ?_ }
  intro row hr connection other
  rw [records.apart row hr connection other, Registry.dossier_addCapabilityVersion _ _ rfl, if_neg]
  intro same
  obtain rfl := h.eq_of_id hr mem same
  exact other hi

/-- A tool that has not been seen before is recorded with its first version. -/
theorem Registry.Catalogued.recordFirst {r : Registry} (h : r.Catalogued R)
    (accepts : r.Accepts context observed connection)
    (missed : ∀ c ∈ r.capabilities, c.connectionId = observed.connectionId →
      c.toolIdentity ≠ tool.identity)
    (fresh : draws.capabilityId ∉ r.capabilities.map Capability.id)
    (freshVersion : draws.versionId ∉ r.capabilityVersions.map CapabilityVersion.id) :
    let c := newCapability context observed.connectionId tool draws.capabilityId
    r.Records R [draws.capabilityId, draws.versionId] observed tool draws.versionId
      (r.addDiscovered c (c.drifted draws.versionId)
        (newCapabilityVersion context c 1 tool draws.versionId)
        (newBinding context c observed.connectionId observed.connectionVersionId tool
          observed.protocolRevision draws.versionId)
        ((c.drifted draws.versionId).statusEvent context)) := by
  intro c
  let c' := c.drifted draws.versionId
  let version := newCapabilityVersion context c 1 tool draws.versionId
  let binding := newBinding context c observed.connectionId observed.connectionVersionId tool
    observed.protocolRevision draws.versionId
  have located := located_of_find accepts.found
  have owner : (c'.connectionId, c'.workspaceId) ∈ r.owners :=
    List.mem_map.mpr ⟨connection, located.mem, by rw [located.id, located.workspaceId]; rfl⟩
  have adds : Dossier.Adds R .empty c' version binding :=
    ⟨rfl, rfl, rfl, rfl, rfl, fun _ => nofun⟩
  have hid := (c.drifted_succeeds draws.versionId).id
  have logs := c'.statusEvent_logs context
  obtain ⟨catalogued, discovers, rows⟩ := h.discover hid fresh freshVersion missed owner rfl rfl rfl
    rfl logs adds rfl rfl
  have read (k : Uuid) : (r.addDiscovered c c' version binding (c'.statusEvent context)).dossier k =
      if k = c'.id then ⟨[c'], [version], [binding], [c'.statusEvent context]⟩ else r.dossier k :=
    h.dossier_addDiscovered hid fresh logs rfl rfl k
  have describes : R.Describes observed tool (version, binding) :=
    Registry.describes_of_agree (.refl _)
  refine ⟨catalogued, discovers, fun row hr _ other => ?_, fun row hr hc same status => ?_,
    ⟨binding, List.mem_append_right _ (List.mem_singleton_self _), rfl, rfl⟩, rfl,
    ⟨c', rfl, rfl, ?_⟩, fun row hr hc other => ?_⟩
  · rcases (rows row).mp hr with rfl | old
    · exact (other rfl).elim
    · exact old
  · rcases (rows row).mp hr with rfl | old
    · cases status
    · exact (missed row old hc same).elim
  · rw [read, if_pos rfl]
    refine ⟨rfl, c.drifted_current nofun, ⟨(version, binding), ?_, rfl, describes⟩, fun _ _ _ => nofun⟩
    exact List.mem_singleton_self _
  · rw [read, if_neg]
    intro same
    have known : row.id ∈ r.capabilities.map Capability.id := List.mem_map_of_mem hr
    rw [same] at known
    exact fresh known

/-- `record_version` returns, whatever has been seen of the tool before. -/
theorem recordVersion_returns (correlationId : Option Uuid) (settled : s.Settled)
    (h : s.rows.registry.Catalogued R)
    (accepts : s.rows.registry.Accepts context observed connection)
    (metadata : R.validateMetadata tool observed.protocolRevision = .ok ())
    (fresh : draws.capabilityId ∉ s.rows.registry.capabilities.map Capability.id)
    (freshVersion : draws.versionId ∉
      s.rows.registry.capabilityVersions.map CapabilityVersion.id) :
    ∃ version t r', recordVersion R context observed tool correlationId draws s = .ok version t ∧
      s.Revised t r' ∧ s.rows.registry.Records R [draws.capabilityId, draws.versionId] observed
        tool version.id r' := by
  have role : requireCurrentRole context [.admin, .operator] true s = .ok () s :=
    (requireCurrentRole_eq_ok settled).mpr ⟨accepts.role, rfl⟩
  have valid : (lift (R.validateMetadata tool observed.protocolRevision) : Tx Unit) s = .ok () s :=
    lift_eq_ok.mpr ⟨metadata, rfl⟩
  have locked : lockedConnection context observed.connectionId s = .ok connection s :=
    lockedConnection_eq_ok.mpr ⟨accepts.found, rfl⟩
  have guard : (raiseIf (connection.lifecycle = .disabled ∨
      connection.target ≠ some observed.connectionVersionId ∨
      ¬ connection.Allocated observed.connectionVersionId observed.expectedControlEpoch
        observed.expectedRefreshGeneration) connectionRejected : Tx Unit) s = .ok () s := by
    simp [raiseIf_eq_ok, accepts.eligible, accepts.target, accepts.allocated]
  unfold recordVersion
  rw [bind_of_ok role, bind_of_ok valid, bind_of_ok locked, bind_of_ok guard,
    bind_of_ok (selectRow_apply _ _ _)]
  cases found : s.rows.registry.capabilities.find? fun c =>
      c.workspaceId == context.workspaceId && c.connectionId == observed.connectionId &&
        c.toolIdentity == tool.identity with
  | none =>
    have missed : ∀ c ∈ s.rows.registry.capabilities, c.connectionId = observed.connectionId →
        c.toolIdentity ≠ tool.identity := by
      intro c mem hc hi
      have := List.find?_eq_none.mp found c mem
      simp [accepts.workspace_eq h mem hc, hc, hi] at this
    have added : s.Revised (s.revise fun r => r.addCapability
        (newCapability context observed.connectionId tool draws.capabilityId)) _ :=
      settled.revised.revise _
    obtain ⟨u, returned, revised⟩ := recordNewVersion_returns added context
      (newCapability context observed.connectionId tool draws.capabilityId) 1 observed tool
      correlationId draws
    exact ⟨_, u, _, (bind_of_ok (revise_apply _ _)).trans returned, revised,
      h.recordFirst accepts missed fresh freshVersion⟩
  | some c =>
    have mem := List.mem_of_find?_eq_some found
    have own := List.find?_some found
    simp only [Bool.and_eq_true, beq_iff_eq] at own
    obtain ⟨⟨-, hc⟩, hi⟩ := own
    dsimp only
    rw [bind_of_ok (query_apply _ _)]
    cases known : s.rows.registry.matchingVersion R c observed.connectionVersionId tool
        observed.protocolRevision with
    | some existing =>
      obtain ⟨binding, recorded, hversion, finds⟩ := h.matchingVersion_eq_some mem known
      obtain ⟨t, r', returned, revised, records⟩ :=
        reobserve_returns context settled h mem hc hi recorded hversion finds
      exact ⟨existing, t, r', bind_of_ok returned, revised,
        { records with discovers := records.discovers.mono fun _ h => by cases h }⟩
    | none =>
      let sequence := (s.rows.registry.dossier c.id).versions.length + 1
      have sequences := (h.of_mem mem).sequences.maximum_eq
      obtain ⟨u, returned, revised⟩ := recordNewVersion_returns settled.revised context c sequence
        observed tool correlationId draws
      have records := h.recordNew accepts mem hc hi known freshVersion rfl
      refine ⟨newCapabilityVersion context c sequence tool draws.versionId, u, _, ?_, revised,
        { records with discovers := records.discovers.mono fun id mem => by simp_all }⟩
      dsimp only
      rw [bind_of_ok (query_apply _ _)]
      exact sequences.symm ▸ returned

end RecordVersion

end Modall
