import Modall.Registry.Observation

/-!
# Publication

The two loops of `publish_success`: every offered tool is recorded, then every capability of the
connection that is no longer offered is marked unavailable. What they leave behind is stated
relative to the registry they started from, `Registry.Discovers`, and by what a publication is
for: a capability of the connection that is enabled afterwards is offered by the new snapshot.
-/
namespace Modall
open Library

namespace Registry
variable {R : RegistryPlatform} {r r' : Registry} {c : Capability} {drawn : List Uuid}
  {connectionId versionId snapshotId : Uuid}

theorem Offers.mono (h : r.Offers c versionId snapshotId)
    (discovers : r.Discovers R drawn connectionId r') : r'.Offers c versionId snapshotId := by
  obtain ⟨id, enabled, ⟨binding, mem, bound⟩, row⟩ := h
  exact ⟨id, enabled, ⟨binding, discovers.bindings binding mem, bound⟩, discovers.rows _ row⟩

/-- The rows of the snapshot, one for each tool, list a version that is in force. -/
def Lists (R : RegistryPlatform) (observed : Observed) (snapshotId : Uuid)
    (tools : List ToolDefinition) (r r' : Registry) : Prop :=
  ∃ rows : List DiscoverySnapshotCapability,
    r'.snapshotCapabilities = r.snapshotCapabilities ++ rows ∧
    (∀ row ∈ rows, row.snapshotId = snapshotId) ∧
    List.Forall₂ (fun tool row => r'.Stands R observed tool row.capabilityVersionId) tools rows

/-- What one turn of the loop over the offered tools does. -/
structure Shows (R : RegistryPlatform) (drawn : List Uuid) (observed : Observed)
    (snapshotId : Uuid) (tool : ToolDefinition) (r r' : Registry) : Prop where
  catalogued : r'.Catalogued R
  discovers : r.Discovers R drawn observed.connectionId r'
  others : ∀ row ∈ r'.capabilities, row.connectionId = observed.connectionId →
    row.toolIdentity ≠ tool.identity → row ∈ r.capabilities
  offers : ∀ row ∈ r'.capabilities, row.connectionId = observed.connectionId →
    row.toolIdentity = tool.identity → row.status = .enabled →
    r'.Offers row observed.connectionVersionId snapshotId
  lists : r.Lists R observed snapshotId [tool] r'
  apart : ∀ c ∈ r.capabilities, c.connectionId = observed.connectionId →
    c.toolIdentity ≠ tool.identity → r'.dossier c.id = r.dossier c.id

/-- The capability of the tool is a row of the registry. -/
theorem mem_of_stands {observed : Observed} {tool : ToolDefinition}
    (h : (r.dossier c.id).Stands R observed tool c versionId) : c ∈ r.capabilities :=
  (mem_dossier_capabilities.mp (h.capabilities ▸ List.mem_singleton_self c)).1

/-- What happens to the capabilities of other tools leaves a version in force. -/
theorem Stands.of_apart {observed : Observed} {tool : ToolDefinition}
    (h : r.Stands R observed tool versionId)
    (apart : ∀ c ∈ r.capabilities, c.connectionId = observed.connectionId →
      c.toolIdentity = tool.identity → r'.dossier c.id = r.dossier c.id) :
    r'.Stands R observed tool versionId := by
  obtain ⟨c, hc, hi, stands⟩ := h
  refine ⟨c, hc, hi, ?_⟩
  rw [apart c (mem_of_stands stands) hc hi]
  exact stands

/-- The rows go on listing what is in force. -/
theorem Lists.of_apart {observed : Observed} {tools : List ToolDefinition} {r'' : Registry}
    (h : r.Lists R observed snapshotId tools r')
    (noted : r''.snapshotCapabilities = r'.snapshotCapabilities)
    (apart : ∀ c ∈ r'.capabilities, c.connectionId = observed.connectionId →
      c.toolIdentity ∈ tools.map ToolDefinition.identity → r''.dossier c.id = r'.dossier c.id) :
    r.Lists R observed snapshotId tools r'' := by
  obtain ⟨rows, added, own, stands⟩ := h
  refine ⟨rows, noted.trans added, own, ?_⟩
  clear added own
  induction stands with
  | nil => exact .nil
  | @cons tool row tools rows first _ ih =>
    refine .cons (first.of_apart fun c mem hc hi => apart c mem hc ?_)
      (ih fun c mem hc hi => apart c mem hc (List.mem_cons_of_mem _ hi))
    rw [hi]
    exact List.mem_cons_self

/-- One more tool is listed. -/
theorem Lists.append {observed : Observed} {tools : List ToolDefinition} {tool : ToolDefinition}
    {r'' : Registry} (h : r.Lists R observed snapshotId tools r')
    (next : r'.Lists R observed snapshotId [tool] r'')
    (apart : ∀ c ∈ r'.capabilities, c.connectionId = observed.connectionId →
      c.toolIdentity ∈ tools.map ToolDefinition.identity → r''.dossier c.id = r'.dossier c.id) :
    r.Lists R observed snapshotId (tools ++ [tool]) r'' := by
  obtain ⟨more, added', own', stands'⟩ := next
  have kept : r.Lists R observed snapshotId tools
      { r'' with snapshotCapabilities := r'.snapshotCapabilities } := h.of_apart rfl apart
  obtain ⟨rows, added, own, stands⟩ := kept
  refine ⟨rows ++ more, ?_, ?_, List.rel_append stands stands'⟩
  · rw [added', ← List.append_assoc, ← added]
  · exact List.forall_mem_append.mpr ⟨own, own'⟩

end Registry

/-! ## The offered tools -/

/-- What `publish_success` tells `record_version`. -/
def RefreshLease.observed (lease : RefreshLease) (protocolRevision : String) : Observed :=
  ⟨lease.connectionId, lease.connectionVersionId, lease.controlEpoch, lease.generation,
    protocolRevision⟩

/-- The identifiers that recording the tools may draw. -/
def drawnFor (draws : String → ToolDraws) (tools : List ToolDefinition) : List Uuid :=
  tools.flatMap fun tool =>
    [(draws tool.identity).capabilityId, (draws tool.identity).versionId]

/-- What the tool would draw is not in use. -/
def Registry.Unused (r : Registry) (draws : ToolDraws) : Prop :=
  draws.capabilityId ∉ r.capabilities.map Capability.id ∧
    draws.versionId ∉ r.capabilityVersions.map CapabilityVersion.id

section PublishTool
variable {R : RegistryPlatform} {s : Session} {context : WorkspaceContext} {lease : RefreshLease}
  {protocolRevision : String} {connection : ServerConnection} {tool : ToolDefinition}
  {snapshotId : Uuid} {draws : String → ToolDraws}

theorem publishTool_returns (snapshotId : Uuid) (settled : s.Settled)
    (h : s.rows.registry.Catalogued R)
    (accepts : s.rows.registry.Accepts context (lease.observed protocolRevision) connection)
    (metadata : R.validateMetadata tool protocolRevision = .ok ())
    (unused : s.rows.registry.Unused (draws tool.identity)) :
    ∃ t r', publishTool R context lease protocolRevision snapshotId draws tool s = .ok () t ∧
      s.Revised t r' ∧ s.rows.registry.Shows R (drawnFor draws [tool])
        (lease.observed protocolRevision) snapshotId tool r' := by
  obtain ⟨version, u, r', returned, revised, records⟩ :=
    recordVersion_returns none settled h accepts metadata unused.1 unused.2
  let row : DiscoverySnapshotCapability := ⟨context.workspaceId, lease.connectionId,
    lease.connectionVersionId, snapshotId, version.id⟩
  have discovers : r'.Discovers R (drawnFor draws [tool]) lease.connectionId
      (r'.addSnapshotCapability row) :=
    { Registry.Discovers.refl r' with
      rows := fun _ mem => List.mem_append_left _ mem
      frame := rfl }
  refine ⟨u.revise fun r => r.addSnapshotCapability row, r'.addSnapshotCapability row,
    (bind_of_ok returned).trans (revise_apply _ _), revised.revise _, ?_, ?_, ?_, ?_,
    ⟨[row], ?_, ?_, .cons records.stands .nil⟩, records.apart⟩
  · exact { records.catalogued with }
  · exact records.discovers.trans discovers
  · exact records.others
  · intro c mem hc identity status
    have accepts' := accepts.of_discovers records.discovers
    have workspace := accepts'.workspace_eq records.catalogued mem hc
    obtain ⟨binding, hb, bound, hversion⟩ := records.bound
    refine ⟨version.id, records.enabled c mem hc identity status, ⟨binding, hb, bound, hversion⟩, ?_⟩
    rw [workspace, hc]
    exact List.mem_append_right _ (List.mem_singleton_self row)
  · exact congrArg (· ++ [row]) records.noted
  · exact List.forall_mem_singleton.mpr rfl

/-- What a publication has established when it still has to record `rest`. -/
def Publishing (R : RegistryPlatform) (lease : RefreshLease) (protocolRevision : String)
    (snapshotId : Uuid) (draws : String → ToolDraws) (tools : List ToolDefinition) (s₀ : Session)
    (rest : List ToolDefinition) (s : Session) : Prop :=
  ∃ done r, done ++ rest = tools ∧ s₀.Revised s r ∧ r.Catalogued R ∧
    s₀.rows.registry.Discovers R (drawnFor draws tools) lease.connectionId r ∧
    s₀.rows.registry.Lists R (lease.observed protocolRevision) snapshotId done r ∧
    (∀ tool ∈ rest, r.Unused (draws tool.identity)) ∧
    ∀ c ∈ r.capabilities, c.connectionId = lease.connectionId →
      c.toolIdentity ∈ done.map ToolDefinition.identity → c.status = .enabled →
      r.Offers c lease.connectionVersionId snapshotId

theorem mem_drawnFor {tools : List ToolDefinition} (mem : tool ∈ tools) :
    ∀ id ∈ drawnFor draws [tool], id ∈ drawnFor draws tools := by
  intro id hid
  simp only [drawnFor, List.flatMap_cons, List.flatMap_nil, List.append_nil] at hid
  exact List.mem_flatMap.mpr ⟨tool, mem, hid⟩

theorem drawnFor_append (draws : String → ToolDraws) (tools tools' : List ToolDefinition) :
    drawnFor draws (tools ++ tools') = drawnFor draws tools ++ drawnFor draws tools' :=
  List.flatMap_append

/-- A tool that has yet to be recorded does not draw what another one may have used. -/
theorem Registry.Unused.of_discovers {r r' : Registry} {other : ToolDefinition}
    {connectionId : Uuid} (unused : r.Unused (draws other.identity))
    (distinct : (drawnFor draws [tool, other]).Nodup)
    (discovers : r.Discovers R (drawnFor draws [tool]) connectionId r') :
    r'.Unused (draws other.identity) := by
  simp only [drawnFor, List.flatMap_cons, List.flatMap_nil, List.append_nil] at distinct discovers
  constructor
  · intro mem
    obtain ⟨c, hc, hid⟩ := List.mem_map.mp mem
    rcases discovers.capability c hc with new | old
    · grind
    · exact unused.1 (hid ▸ old)
  · intro mem
    obtain ⟨v, hv, hid⟩ := List.mem_map.mp mem
    rcases discovers.version v hv with new | old
    · grind
    · exact unused.2 (hid ▸ old)

theorem drawnFor_pair_sublist {tools : List ToolDefinition} {other : ToolDefinition}
    (h : other ∈ tools) : (drawnFor draws [tool, other]).Sublist (drawnFor draws (tool :: tools)) := by
  simp only [drawnFor, List.flatMap_cons, List.flatMap_nil, List.append_nil]
  refine List.Sublist.append_left ?_ _
  obtain ⟨before, after, rfl⟩ := List.append_of_mem h
  simp only [List.flatMap_append, List.flatMap_cons]
  exact (List.sublist_append_left _ _).trans (List.sublist_append_right _ _)

/-- Every offered tool is recorded. -/
theorem publishTools_return {tools : List ToolDefinition} (snapshotId : Uuid)
    (settled : s.Settled) (h : s.rows.registry.Catalogued R)
    (accepts : s.rows.registry.Accepts context (lease.observed protocolRevision) connection)
    (metadata : ∀ tool ∈ tools, R.validateMetadata tool protocolRevision = .ok ())
    (unused : ∀ tool ∈ tools, s.rows.registry.Unused (draws tool.identity))
    (distinct : (drawnFor draws tools).Nodup) :
    ∃ t, forM tools (publishTool R context lease protocolRevision snapshotId draws) s = .ok () t ∧
      Publishing R lease protocolRevision snapshotId draws tools s [] t := by
  refine forM_invariant (I := Publishing R lease protocolRevision snapshotId draws tools s) ?_
    tools s ⟨[], s.rows.registry, rfl, settled.revised, h, .refl _,
      ⟨[], (List.append_nil _).symm, fun _ => nofun, .nil⟩, unused, fun _ _ _ => nofun⟩
  rintro tool rest u ⟨done, r, split, revised, catalogued, discovers, lists, unused, offers⟩
  have mem : tool ∈ tools := by simp [← split]
  rw [← revised.registry] at catalogued discovers lists unused offers
  obtain ⟨t, r', returned, revised', shows⟩ := publishTool_returns snapshotId
    revised.settled catalogued (accepts.of_discovers discovers) (metadata tool mem)
    (unused tool List.mem_cons_self)
  refine ⟨t, returned, done ++ [tool], r', by simp [split], revised.trans revised',
    shows.catalogued, discovers.trans (shows.discovers.mono (mem_drawnFor mem)),
    lists.append shows.lists fun c hc connection seen => ?_, ?_, ?_⟩
  · apply shows.apart c hc connection
    intro same
    rw [same] at seen
    -- A second tool of this identity would draw the same identifiers.
    obtain ⟨other, hother, identity⟩ := List.mem_map.mp seen
    rw [← split] at distinct
    have twice := (List.nodup_append.mp (drawnFor_append draws done (tool :: rest) ▸ distinct)).2.2
    have drawn : (draws tool.identity).capabilityId ∈ drawnFor draws (tool :: rest) := by
      simp [drawnFor]
    refine twice _ (List.mem_flatMap.mpr ⟨other, hother, ?_⟩) _ drawn rfl
    rw [identity]
    exact List.mem_cons_self
  · intro other hother
    refine (unused other (List.mem_cons_of_mem _ hother)).of_discovers ?_ shows.discovers
    have part : (drawnFor draws (tool :: rest)).Sublist (drawnFor draws tools) := by
      rw [← split, drawnFor, drawnFor, List.flatMap_append]
      exact List.sublist_append_right _ _
    exact distinct.sublist ((drawnFor_pair_sublist hother).trans part)
  · intro c hc connection seen status
    by_cases same : c.toolIdentity = tool.identity
    · exact shows.offers c hc connection same status
    · have old := shows.others c hc connection same
      have seen' : c.toolIdentity ∈ done.map ToolDefinition.identity := by
        simpa [same] using seen
      exact (offers c old connection seen' status).mono shows.discovers

end PublishTool

/-! ## The tools that are no longer offered -/

section MarkMissing
variable {R : RegistryPlatform} {s s₀ : Session} {context : WorkspaceContext} {c : Capability}
  {observed : Observed} {tools : List ToolDefinition} {drawn : List Uuid} {snapshotId : Uuid}

/-- A tool that is no longer offered cannot be run. -/
def Capability.Withdrawn (c : Capability) : Prop := c.status = .unavailable ∨ c.status = .disabled

/-- What a publication has established when it still has to look at `rest`. -/
def Marking (R : RegistryPlatform) (drawn : List Uuid) (observed : Observed) (snapshotId : Uuid)
    (tools : List ToolDefinition) (s₀ : Session) (rest : List Capability) (s : Session) : Prop :=
  ∃ r, s₀.Revised s r ∧ r.Catalogued R ∧
    s₀.rows.registry.Discovers R drawn observed.connectionId r ∧
    s₀.rows.registry.Lists R observed snapshotId tools r ∧
    (rest.map Capability.id).Nodup ∧ (∀ c ∈ rest, c ∈ r.capabilities ∧
      c.connectionId = observed.connectionId) ∧
    (∀ c ∈ r.capabilities, c.connectionId = observed.connectionId →
      c.toolIdentity ∉ tools.map ToolDefinition.identity → c.Withdrawn ∨ c ∈ rest) ∧
    ∀ c ∈ r.capabilities, c.connectionId = observed.connectionId → c.status = .enabled →
      r.Offers c observed.connectionVersionId snapshotId ∨
        c.toolIdentity ∉ tools.map ToolDefinition.identity ∧ c ∈ rest

theorem markMissing_step {rest : List Capability} (context : WorkspaceContext)
    (h : Marking R drawn observed snapshotId tools s₀ (c :: rest) s) :
    ∃ t, markMissing context (tools.map ToolDefinition.identity) c s = .ok () t ∧
      Marking R drawn observed snapshotId tools s₀ rest t := by
  obtain ⟨r, revised, catalogued, discovers, lists, distinct, listed, withdrawn, offers⟩ := h
  obtain ⟨mem, hc⟩ := listed c List.mem_cons_self
  rw [List.map_cons, List.nodup_cons] at distinct
  have listed' : ∀ row ∈ rest, row ∈ r.capabilities ∧
      row.connectionId = observed.connectionId :=
    fun row hr => listed row (List.mem_cons_of_mem _ hr)
  unfold markMissing
  by_cases left : c.toolIdentity ∈ tools.map ToolDefinition.identity ∨ c.status = .unavailable ∨
      c.status = .disabled
  · rw [if_pos left]
    refine ⟨s, rfl, r, revised, catalogued, discovers, lists, distinct.2, listed', ?_, ?_⟩
    · intro row hr connection missing
      rcases withdrawn row hr connection missing with gone | there
      · exact .inl gone
      · rcases List.mem_cons.mp there with rfl | later
        · exact .inl (left.resolve_left missing)
        · exact .inr later
    · intro row hr connection status
      rcases offers row hr connection status with offered | ⟨missing, there⟩
      · exact .inl offered
      · rcases List.mem_cons.mp there with rfl | later
        · rcases left.resolve_left missing with gone | gone
          all_goals
            rw [gone] at status
            cases status
        · exact .inr ⟨missing, later⟩
  · rw [if_neg left]
    simp only [not_or] at left
    obtain ⟨missing, -, enabled⟩ := left
    have valid := catalogued.of_mem mem
    let c' : Capability := { c with status := .unavailable, statusEpoch := c.statusEpoch + 1 }
    have succeeds : c'.Succeeds c := ⟨rfl, rfl, rfl, rfl, rfl⟩
    have kept : (r.moveCapability c' (c'.statusEvent context)).Catalogued R ∧
        r.Discovers R drawn c.connectionId (r.moveCapability c' (c'.statusEvent context)) :=
      catalogued.observe mem succeeds
        ⟨(fun h => by cases h), (fun h => by cases h), valid.coherent.distinct⟩ rfl valid.pending
        (fun disabled => (enabled disabled).elim) context
    refine ⟨_, putCapability_appendStatusEvent s context c' rfl, _, revised.move c' context, kept.1,
      discovers.trans (hc ▸ kept.2), lists.of_apart rfl ?_, distinct.2, ?_, ?_, ?_⟩
    · intro row hr _ seen
      rw [Registry.dossier_moveCapability c' _ rfl, if_neg]
      intro same
      obtain rfl := catalogued.eq_of_id hr mem same
      exact missing seen
    · intro row hr
      obtain ⟨old, connection⟩ := listed' row hr
      refine ⟨(Registry.mem_moveCapability mem succeeds.id).mpr (.inr ⟨old, ?_⟩), connection⟩
      intro same
      exact distinct.1 (same ▸ List.mem_map_of_mem hr)
    · intro row hr connection missing
      rcases (Registry.mem_moveCapability mem succeeds.id).mp hr with rfl | ⟨old, other⟩
      · exact .inl (.inl rfl)
      · rcases withdrawn row old connection missing with gone | there
        · exact .inl gone
        · rcases List.mem_cons.mp there with rfl | later
          · exact (other rfl).elim
          · exact .inr later
    · intro row hr connection status
      rcases (Registry.mem_moveCapability mem succeeds.id).mp hr with rfl | ⟨old, other⟩
      · cases status
      · rcases offers row old connection status with offered | ⟨missing, there⟩
        · exact .inl (offered.mono kept.2)
        · rcases List.mem_cons.mp there with rfl | later
          · exact (other rfl).elim
          · exact .inr ⟨missing, later⟩

end MarkMissing

/-! ## Both loops -/

/-- What the two loops of a publication leave behind. -/
structure Registry.Surveys (R : RegistryPlatform) (observed : Observed) (snapshotId : Uuid)
    (tools : List ToolDefinition) (drawn : List Uuid) (r r' : Registry) : Prop where
  catalogued : r'.Catalogued R
  discovers : r.Discovers R drawn observed.connectionId r'
  offers : ∀ c ∈ r'.capabilities, c.connectionId = observed.connectionId → c.status = .enabled →
    r'.Offers c observed.connectionVersionId snapshotId
  lists : r.Lists R observed snapshotId tools r'
  withdrawn : ∀ c ∈ r'.capabilities, c.connectionId = observed.connectionId →
    c.toolIdentity ∉ tools.map ToolDefinition.identity → c.Withdrawn

section Survey
variable {R : RegistryPlatform} {s t : Session} {context : WorkspaceContext} {lease : RefreshLease}
  {protocolRevision : String} {connection : ServerConnection} {tools : List ToolDefinition}
  {snapshotId : Uuid} {draws : String → ToolDraws}

theorem markMissingUnavailable_returns
    (accepts : s.rows.registry.Accepts context (lease.observed protocolRevision) connection)
    (h : Publishing R lease protocolRevision snapshotId draws tools s [] t) :
    ∃ u r, markMissingUnavailable context lease.connectionId
        (tools.map ToolDefinition.identity) t = .ok () u ∧ s.Revised u r ∧
      s.rows.registry.Surveys R (lease.observed protocolRevision) snapshotId tools
        (drawnFor draws tools) r := by
  obtain ⟨done, r, rfl, revised, catalogued, discovers, lists, -, offers⟩ := h
  rw [List.append_nil] at *
  let listed := r.capabilities.filter fun c =>
    c.workspaceId == context.workspaceId && c.connectionId == lease.connectionId
  have mem_listed : ∀ c ∈ r.capabilities, c.connectionId = lease.connectionId → c ∈ listed := by
    intro c mem hc
    have workspace := (accepts.of_discovers discovers).workspace_eq catalogued mem hc
    exact List.mem_filter.mpr ⟨mem, by simp [workspace, hc]⟩
  have marking : Marking R (drawnFor draws done) (lease.observed protocolRevision) snapshotId done
      s listed t := by
    refine ⟨r, revised, catalogued, discovers, lists, ?_, ?_, ?_, ?_⟩
    · exact catalogued.ids.sublist (List.filter_sublist.map _)
    · intro c mem
      obtain ⟨mem, own⟩ := List.mem_filter.mp mem
      simp only [Bool.and_eq_true, beq_iff_eq] at own
      exact ⟨mem, own.2⟩
    · intro c mem hc _
      exact .inr (mem_listed c mem hc)
    · intro c mem hc status
      by_cases seen : c.toolIdentity ∈ done.map ToolDefinition.identity
      · exact .inl (offers c mem hc seen status)
      · exact .inr ⟨seen, mem_listed c mem hc⟩
  obtain ⟨u, returned, r', revised', catalogued', discovers', lists', -, -, withdrawn, offers'⟩ :=
    forM_invariant (fun _ _ _ => markMissing_step context) listed t marking
  refine ⟨u, r', ?_, revised', catalogued', discovers', fun c mem hc status => ?_, lists',
    fun c mem hc missing => ?_⟩
  · unfold markMissingUnavailable
    rw [bind_of_ok (query_apply _ _), revised.registry]
    exact returned
  · rcases offers' c mem hc status with offered | ⟨-, none⟩
    · exact offered
    · cases none
  · rcases withdrawn c mem hc missing with gone | none
    · exact gone
    · cases none

/-- Both loops return. -/
theorem survey_returns (snapshotId : Uuid) (settled : s.Settled)
    (h : s.rows.registry.Catalogued R)
    (accepts : s.rows.registry.Accepts context (lease.observed protocolRevision) connection)
    (metadata : ∀ tool ∈ tools, R.validateMetadata tool protocolRevision = .ok ())
    (unused : ∀ tool ∈ tools, s.rows.registry.Unused (draws tool.identity))
    (distinct : (drawnFor draws tools).Nodup) :
    ∃ t u r, forM tools (publishTool R context lease protocolRevision snapshotId draws) s =
        .ok () t ∧
      markMissingUnavailable context lease.connectionId (tools.map ToolDefinition.identity) t =
        .ok () u ∧
      s.Revised u r ∧ s.rows.registry.Surveys R (lease.observed protocolRevision) snapshotId tools
        (drawnFor draws tools) r := by
  obtain ⟨t, returned, publishing⟩ := publishTools_return snapshotId settled h accepts metadata
    unused distinct
  obtain ⟨u, r, returned', revised, surveys⟩ := markMissingUnavailable_returns accepts publishing
  exact ⟨t, u, r, returned, returned', revised, surveys⟩

/-- A run over a list that returns has run every element. -/
theorem validateMetadata_of_forM {u : Unit}
    (h : forM tools (publishTool R context lease protocolRevision snapshotId draws) s = .ok u t) :
    ∀ tool ∈ tools, R.validateMetadata tool protocolRevision = .ok () := by
  induction tools generalizing s with
  | nil => exact fun _ => nofun
  | cons tool tools ih =>
    rw [List.forM_cons, bind_eq_ok] at h
    obtain ⟨_, v, first, rest⟩ := h
    intro other mem
    rcases List.mem_cons.mp mem with rfl | later
    · simp only [publishTool, recordVersion, bind_eq_ok, lift_eq_ok] at first
      obtain ⟨_, _, ⟨_, _, -, _, _, ⟨valid, -⟩, -⟩, -⟩ := first
      exact valid
    · exact ih rest other later

end Survey

/-! ## Payload and allocation -/

section Settle
variable {R : RegistryPlatform} {s t : Session} {context : WorkspaceContext} {lease : RefreshLease}
  {protocolRevision : String} {c : ServerConnection} {traceId : Uuid}

/-- The payload of the result is stored. -/
def Registry.Holds (R : RegistryPlatform) (context : WorkspaceContext) (result : DiscoveryResult)
    (r : Registry) : Prop :=
  ∃ payload, r.payloads.find? (fun p => p.workspaceId == context.workspaceId &&
      p.canonicalDigest == result.canonicalDigest) = some payload ∧
    payload.byteCount = result.byteCount ∧
    R.jsonEqual payload.normalizedPayload result.normalizedPayload = true

theorem publishPayload_ok {result : DiscoveryResult} {payloadId id : Uuid} (settled : s.Settled)
    (h : publishPayload R context result payloadId s = .ok id t) :
    ∃ payloads, s.Revised t { s.rows.registry with payloads } ∧
      Registry.Holds R context result { s.rows.registry with payloads } := by
  unfold publishPayload at h
  rw [bind_of_ok (selectRow_apply _ _ _)] at h
  cases found : s.rows.registry.payloads.find? fun p => p.workspaceId == context.workspaceId &&
      p.canonicalDigest == result.canonicalDigest with
  | none =>
    simp only [found, bind_eq_ok, revise_eq_ok, pure_eq_ok] at h
    obtain ⟨_, _, rfl, -, rfl⟩ := h
    refine ⟨_, settled.revised.revise _, ⟨payloadId, context.workspaceId, result.canonicalDigest,
      result.normalizedPayload, result.byteCount⟩, ?_, rfl, R.jsonEqual_refl _⟩
    rw [List.find?_append, found]
    simp
  | some payload =>
    simp only [found, bind_eq_ok, raiseIf_eq_ok, pure_eq_ok, not_or, not_not,
      Bool.not_eq_false] at h
    obtain ⟨_, _, ⟨same, rfl⟩, -, rfl⟩ := h
    exact ⟨_, settled.revised, payload, found, same⟩

/-- The only thing a publication may stumble over: another payload has the same digest. -/
theorem publishPayload_error {result : DiscoveryResult} {payloadId : Uuid} {e : Failure}
    (h : publishPayload R context result payloadId s = .error e t) :
    e = .invalidConnectionTransition "discovery digest collision rejected" ∧
      ∃ payload ∈ s.rows.registry.payloads, payload.workspaceId = context.workspaceId ∧
        payload.canonicalDigest = result.canonicalDigest ∧
        (payload.byteCount ≠ result.byteCount ∨
          R.jsonEqual payload.normalizedPayload result.normalizedPayload = false) := by
  unfold publishPayload at h
  rw [bind_of_ok (selectRow_apply _ _ _)] at h
  cases found : s.rows.registry.payloads.find? fun p => p.workspaceId == context.workspaceId &&
      p.canonicalDigest == result.canonicalDigest with
  | none =>
    rw [found] at h
    cases h
  | some payload =>
    have own := List.find?_some found
    simp only [Bool.and_eq_true, beq_iff_eq] at own
    simp only [found, bind_eq_error, raiseIf_apply] at h
    rcases h with raised | ⟨_, _, -, returned⟩
    · split_ifs at raised with collides
      injection raised with failure
      exact ⟨failure.symm, payload, List.mem_of_find?_eq_some found, own.1, own.2, collides⟩
    · cases returned

/-- The allocation is consumed, by promotion or completion alike. -/
theorem settle_ok {result : ServerConnection} (settled : s.Settled)
    (found : s.rows.registry.connections.find? (fun c => c.id == lease.connectionId &&
      c.workspaceId == context.workspaceId) = some c)
    (h : DiscoveryPublicationService.settle context lease c traceId s = .ok result t) :
    s.Revised t (s.rows.registry.setConnection c.id fun _ => result) ∧ result.id = c.id ∧
      ∀ snapshotId now, { result with
        currentSnapshotId := some snapshotId, lastRefreshErrorCode := none,
        lastRefreshAt := some now } = c.published lease.connectionVersionId snapshotId now := by
  unfold DiscoveryPublicationService.settle at h
  split_ifs at h with pending
  · obtain ⟨-, c', found', -, -, -, rfl, rfl⟩ :=
      (ConnectionService.promotePending_eq_ok settled).mp h
    obtain rfl : c = c' := Option.some.inj (found.symm.trans found')
    exact ⟨(settled.revised.revise _).audited _, rfl, fun _ _ => rfl⟩
  · obtain ⟨-, c', found', -, none, verified, -, rfl, rfl⟩ :=
      (ConnectionService.completeRefresh_eq_ok settled).mp h
    obtain rfl : c = c' := Option.some.inj (found.symm.trans found')
    refine ⟨settled.revised.revise _, rfl, fun _ _ => ?_⟩
    simp [ServerConnection.releaseAllocation, ServerConnection.published, none, verified]

/-- It can be consumed when a pending version is refreshed only while it is verified. -/
theorem settle_returns (traceId : Uuid) (settled : s.Settled)
    (accepts : s.rows.registry.Accepts context (lease.observed protocolRevision) c)
    (verifying : c.pendingVersionId ≠ none → c.lifecycle = .verifying) :
    ∃ result t, DiscoveryPublicationService.settle context lease c traceId s = .ok result t := by
  unfold DiscoveryPublicationService.settle
  split_ifs with pending
  · exact ⟨_, _, (ConnectionService.promotePending_eq_ok settled).mpr ⟨accepts.role, c,
      accepts.found, verifying pending, accepts.target, accepts.allocated, rfl, rfl⟩⟩
  · rw [ne_eq, not_not] at pending
    have verified := accepts.target
    rw [ServerConnection.target, pending, Option.none_or] at verified
    have open' : c.lifecycle ∈ [ConnectionLifecycle.verifying, .active, .degraded] := by
      have := accepts.eligible
      cases h : c.lifecycle <;> simp_all
    exact ⟨_, _, (ConnectionService.completeRefresh_eq_ok settled).mpr ⟨accepts.role, c,
      accepts.found, open', pending, verified, accepts.allocated, rfl, rfl⟩⟩

end Settle

/-! ## `publish_success` -/

/-- Everything a successful publication does, from `r` to `r'`. -/
structure Registry.Publishes (R : RegistryPlatform) (context : WorkspaceContext)
    (lease : RefreshLease) (result : DiscoveryResult) (drawn : List Uuid) (snapshot : DiscoverySnapshot)
    (c : ServerConnection) (job : DiscoveryRefreshJob) (now : Time) (r r₁ r₂ r' : Registry) :
    Prop where
  located : r.Located context lease.connectionId c
  mem : job ∈ r.refreshJobs
  leased : job.leasedTo context lease = true
  connectionId : snapshot.connectionId = lease.connectionId
  generation : snapshot.generation = lease.generation
  begun : ∃ payloads, r₁ = Registry.addSnapshot { r with payloads } snapshot
  holds : r₁.Holds R context result
  surveys : r₁.Surveys R (lease.observed result.protocolRevision) snapshot.id result.tools drawn r₂
  ended : r' = (r₂.setConnection c.id fun _ =>
    c.published lease.connectionVersionId snapshot.id now).setRefreshJob job.id fun _ =>
      job.closed .succeeded

theorem Registry.setConnection_setConnection (r : Registry) {c c' : ServerConnection} {id : Uuid}
    (h : c.id = id) :
    (r.setConnection id fun _ => c).setConnection id (fun _ => c') =
      r.setConnection id fun _ => c' := by
  simp only [setConnection, updateWhere, List.map_map]
  congr 1
  apply List.map_congr_left
  intro row _
  by_cases same : row.id = id <;> simp [same, h]

section PublishSuccess
variable {R : RegistryPlatform} {s t : Session} {context : WorkspaceContext} {lease : RefreshLease}
  {result : DiscoveryResult} {draws : PublicationDraws}

namespace DiscoveryPublicationService

theorem publishSuccess_ok {snapshot : DiscoverySnapshot} (settled : s.Settled)
    (h : s.rows.registry.Catalogued R)
    (unused : ∀ tool ∈ result.tools, s.rows.registry.Unused (draws.tool tool.identity))
    (distinct : (drawnFor draws.tool result.tools).Nodup)
    (run : publishSuccess R context lease result draws s = .ok snapshot t) :
    ∃ c job now r₁ r₂ r', s.Revised t r' ∧ snapshot.id = draws.snapshotId ∧
      s.rows.registry.Publishes R context lease result (drawnFor draws.tool result.tools) snapshot
        c job now r₁ r₂ r' := by
  simp only [publishSuccess, lockedActiveJob, bind_eq_ok, requireCurrentRole_eq_ok settled,
    lockEligibleConnection_eq_ok, revise_eq_ok, putConnection_eq_ok, putRefreshJob_eq_ok,
    pure_eq_ok] at run
  obtain ⟨_, s₀, ⟨role, hs⟩, job, _, held, c, s₁, ⟨⟨found, eligible, target, allocated⟩, rfl⟩,
    payloadId, s₂, paid, _, s₃, rfl, _, s₄, loop, _, s₅, marked, final, s₆, settle, now, s₇, hnow,
    _, _, rfl, _, _, rfl, rfl, rfl⟩ := run
  obtain rfl := hs.symm
  obtain ⟨read, mem, leased⟩ := lockedJobForLease_ok settled held
  obtain ⟨payloads, revised, holds⟩ := publishPayload_ok read.settled paid
  rw [read.registry] at revised found
  let snapshot : DiscoverySnapshot := ⟨draws.snapshotId, context.workspaceId, lease.connectionId,
    lease.connectionVersionId, payloadId, lease.generation, lease.controlEpoch,
    result.protocolRevision⟩
  let r₁ := Registry.addSnapshot { s.rows.registry with payloads } snapshot
  have begun : s.Revised (s₂.revise fun r => r.addSnapshot snapshot) r₁ :=
    (read.trans revised).revise _
  have accepts : r₁.Accepts context (lease.observed result.protocolRevision) c :=
    ⟨⟨role.role, role.workspace, role.membership⟩, found, eligible, target, allocated⟩
  have catalogued : r₁.Catalogued R := { h with }
  rw [← begun.registry] at accepts catalogued
  obtain ⟨_, _, r₂, returned, returned', surveyed, surveys⟩ := survey_returns snapshot.id
    begun.settled catalogued accepts (validateMetadata_of_forM loop)
    (fun tool mem => begun.registry ▸ unused tool mem) distinct
  obtain ⟨-, rfl⟩ := EStateM.Result.ok.inj (loop.symm.trans returned)
  obtain ⟨-, rfl⟩ := EStateM.Result.ok.inj (marked.symm.trans returned')
  have found' := (accepts.of_discovers surveys.discovers).found
  rw [← surveyed.registry] at found'
  obtain ⟨written, hid, published⟩ := settle_ok surveyed.settled found' settle
  rw [surveyed.registry] at written
  have passed := written.read (durableNow_revised written.settled hnow)
  have done := ((begun.trans surveyed).trans passed).revise fun r => r.setConnection final.id
    fun _ => c.published lease.connectionVersionId snapshot.id now
  rw [hid, Registry.setConnection_setConnection _ hid] at done
  refine ⟨c, job, now, r₁, r₂, _, ?_, rfl, Registry.located_of_find found, mem, leased, rfl, rfl,
    ⟨payloads, rfl⟩, holds, begun.registry ▸ surveys, rfl⟩
  rw [published, hid]
  exact done.revise _

/-- Once the lease and the allocation have been accepted, nothing but a payload that collides
with an older one stops a publication. -/
theorem publishSuccess_returns {job : DiscoveryRefreshJob} {c : ServerConnection} {s₁ s₂ : Session}
    (settled : s.Settled) (h : s.rows.registry.Catalogued R)
    (unused : ∀ tool ∈ result.tools, s.rows.registry.Unused (draws.tool tool.identity))
    (distinct : (drawnFor draws.tool result.tools).Nodup)
    (role : requireCurrentRole context [.admin, .operator] true s = .ok () s)
    (held : lockedActiveJob context lease s = .ok job s₁)
    (locked : lockEligibleConnection context lease.connectionId lease.connectionVersionId
      lease.controlEpoch lease.generation s₁ = .ok c s₂)
    (verifying : c.pendingVersionId ≠ none → c.lifecycle = .verifying)
    (metadata : ∀ tool ∈ result.tools,
      R.validateMetadata tool result.protocolRevision = .ok ()) :
    (∃ snapshot t, publishSuccess R context lease result draws s = .ok snapshot t) ∨
      ∃ e t, publishPayload R context result draws.payloadId s₂ = .error e t ∧
        publishSuccess R context lease result draws s = .error e t := by
  have authorized := ((requireCurrentRole_eq_ok settled).mp role).1
  obtain ⟨read, -, -⟩ := lockedJobForLease_ok settled held
  obtain ⟨⟨found, eligible, target, allocated⟩, rfl⟩ := lockEligibleConnection_eq_ok.mp locked
  rw [read.registry] at found
  unfold publishSuccess
  rw [bind_of_ok role, bind_of_ok held, bind_of_ok locked]
  cases paid : publishPayload R context result draws.payloadId s₂ with
  | error e t => exact .inr ⟨e, t, rfl, bind_eq_error.mpr (.inl paid)⟩
  | ok payloadId s₃ =>
    rw [bind_of_ok paid, bind_of_ok (revise_apply _ _)]
    obtain ⟨payloads, revised, -⟩ := publishPayload_ok read.settled paid
    rw [read.registry] at revised
    let snapshot : DiscoverySnapshot := ⟨draws.snapshotId, context.workspaceId, lease.connectionId,
      lease.connectionVersionId, payloadId, lease.generation, lease.controlEpoch,
      result.protocolRevision⟩
    let r₁ := Registry.addSnapshot { s.rows.registry with payloads } snapshot
    have begun : s.Revised (s₃.revise fun r => r.addSnapshot snapshot) r₁ :=
      (read.trans revised).revise _
    have accepts : r₁.Accepts context (lease.observed result.protocolRevision) c :=
      ⟨⟨authorized.role, authorized.workspace, authorized.membership⟩, found, eligible, target,
        allocated⟩
    have catalogued : r₁.Catalogued R := { h with }
    rw [← begun.registry] at accepts catalogued
    obtain ⟨s₄, s₅, r₂, loop, marked, surveyed, surveys⟩ := survey_returns snapshot.id
      begun.settled catalogued accepts metadata
      (fun tool mem => begun.registry ▸ unused tool mem) distinct
    have accepts' := accepts.of_discovers surveys.discovers
    rw [← surveyed.registry] at accepts'
    obtain ⟨final, s₆, hsettle⟩ := settle_returns draws.traceId surveyed.settled accepts'
      verifying
    obtain ⟨now, s₇, hnow⟩ := durableNow_returns s₆
    refine .inl ⟨snapshot, ?_⟩
    rw [bind_of_ok loop, bind_of_ok marked, bind_of_ok hsettle, bind_of_ok hnow]
    exact ⟨_, rfl⟩

end DiscoveryPublicationService

end PublishSuccess

end Modall
