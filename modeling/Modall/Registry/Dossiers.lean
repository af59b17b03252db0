import Modall.Registry.Dockets
import Modall.Registry.Dossier

/-!
# The capabilities of a registry

`Registry.dossier` reads the rows of one capability off the tables. A publication and a review
write one dossier at a time. `Registry.Catalogued` is what holds of all of them together: the
identifiers of versions are unique, a connection has one capability for a tool identity, and a
capability belongs to the workspace of its connection.
-/
namespace Modall
open Library

namespace Registry

def dossier (r : Registry) (id : Uuid) : Dossier where
  capabilities := r.capabilities.filter fun c => c.id == id
  versions := r.capabilityVersions.filter fun version => version.capabilityId == id
  bindings := r.bindings.filter fun binding => binding.capabilityId == id
  events := r.statusEvents.filter fun event => event.capabilityId == id

/-- Store a capability and log its status. -/
def moveCapability (r : Registry) (c : Capability) (event : CapabilityStatusEvent) : Registry :=
  (r.setCapability c.id fun _ => c).addStatusEvent event

section Slices
variable {r : Registry} {id k : Uuid}

theorem mem_dossier_capabilities {c : Capability} :
    c ∈ (r.dossier id).capabilities ↔ c ∈ r.capabilities ∧ c.id = id := by simp [dossier]

theorem mem_dossier_versions {version : CapabilityVersion} :
    version ∈ (r.dossier id).versions ↔
      version ∈ r.capabilityVersions ∧ version.capabilityId = id := by simp [dossier]

theorem mem_dossier_bindings {binding : McpToolBinding} :
    binding ∈ (r.dossier id).bindings ↔ binding ∈ r.bindings ∧ binding.capabilityId = id := by
  simp [dossier]

theorem dossier_moveCapability (c : Capability) (event : CapabilityStatusEvent)
    (h : event.capabilityId = c.id) :
    (r.moveCapability c event).dossier k =
      if k = c.id then (r.dossier k).move c event else r.dossier k := by
  have part : (updateWhere (fun row => row.id == c.id) (fun _ => c) r.capabilities).filter
        (fun row => row.id == k) =
      updateWhere (fun row => row.id == c.id) (fun _ => c)
        (r.capabilities.filter fun row => row.id == k) := by
    apply filter_updateWhere
    intro row hr
    rw [beq_iff_eq.mp hr]
  simp only [dossier, moveCapability, setCapability, addStatusEvent, part, List.filter_append]
  split_ifs with hk
  · subst hk
    rw [updateWhere_eq_map fun row hr => (List.mem_filter.mp hr).2]
    simp [Dossier.move, h]
  · rw [updateWhere_eq_self]
    · simp [h, Ne.symm hk]
    · intro row hr
      have other : row.id = k := beq_iff_eq.mp (List.mem_filter.mp hr).2
      simp [other, hk]

theorem dossier_addCapability (c : Capability) :
    (r.addCapability c).dossier k = if k = c.id
      then { r.dossier k with capabilities := (r.dossier k).capabilities ++ [c] }
      else r.dossier k := by
  split_ifs with hk
  · simp [dossier, addCapability, List.filter_append, hk]
  · simp [dossier, addCapability, List.filter_append, Ne.symm hk]

theorem dossier_addCapabilityVersion (version : CapabilityVersion) (binding : McpToolBinding)
    (h : binding.capabilityId = version.capabilityId) :
    (r.addCapabilityVersion version binding).dossier k = if k = version.capabilityId
      then (r.dossier k).addVersion version binding else r.dossier k := by
  split_ifs with hk
  · simp [dossier, addCapabilityVersion, Dossier.addVersion, List.filter_append, hk, h]
  · simp [dossier, addCapabilityVersion, List.filter_append, Ne.symm hk, h]

end Slices

/-! ## The invariant -/

/-- The capabilities of every connection are in order. -/
structure Catalogued (R : RegistryPlatform) (r : Registry) : Prop where
  dossiers : ∀ id, r.dossier id = .empty ∨ ∃ c, (r.dossier id).Valid R c
  versions : (r.capabilityVersions.map CapabilityVersion.id).Nodup
  identities : ∀ c ∈ r.capabilities, ∀ c' ∈ r.capabilities, c.connectionId = c'.connectionId →
    c.toolIdentity = c'.toolIdentity → c = c'
  owned : ∀ c ∈ r.capabilities, (c.connectionId, c.workspaceId) ∈ r.owners
  connections : (r.connections.map ServerConnection.id).Nodup

section Catalogued
variable {R : RegistryPlatform} {r : Registry} {c c' : Capability} {version : CapabilityVersion}
  {binding : McpToolBinding} {id : Uuid}

theorem Catalogued.of_mem (h : r.Catalogued R) (mem : c ∈ r.capabilities) :
    (r.dossier c.id).Valid R c := by
  have mine : c ∈ (r.dossier c.id).capabilities := mem_dossier_capabilities.mpr ⟨mem, rfl⟩
  rcases h.dossiers c.id with none | ⟨c', valid⟩
  · rw [none] at mine
    cases mine
  · rw [valid.capabilities, List.mem_singleton] at mine
    exact mine ▸ valid

theorem Catalogued.eq_of_id (h : r.Catalogued R) (mem : c ∈ r.capabilities)
    (mem' : c' ∈ r.capabilities) (same : c.id = c'.id) : c = c' := by
  have mine : c ∈ (r.dossier c'.id).capabilities := mem_dossier_capabilities.mpr ⟨mem, same⟩
  rwa [(h.of_mem mem').capabilities, List.mem_singleton] at mine

theorem Catalogued.ids (h : r.Catalogued R) : (r.capabilities.map Capability.id).Nodup := by
  apply nodup_map_of_filter_length_le_one
  intro k
  change (r.dossier k).capabilities.length ≤ 1
  rcases h.dossiers k with none | ⟨c, valid⟩
  · simp [none, Dossier.empty]
  · simp [valid.capabilities]

theorem mem_of_dossier (valid : (r.dossier id).Valid R c) : c ∈ r.capabilities ∧ c.id = id :=
  mem_dossier_capabilities.mp (valid.capabilities ▸ List.mem_singleton_self c)

/-- A version belongs to a capability and has a binding. -/
theorem Catalogued.of_version (h : r.Catalogued R) (mem : version ∈ r.capabilityVersions) :
    ∃ c binding, (r.dossier version.capabilityId).Valid R c ∧
      (version, binding) ∈ (r.dossier version.capabilityId).recorded := by
  have mine : version ∈ (r.dossier version.capabilityId).versions :=
    mem_dossier_versions.mpr ⟨mem, rfl⟩
  rcases h.dossiers version.capabilityId with none | ⟨c, valid⟩
  · rw [none] at mine
    cases mine
  · obtain ⟨binding, row⟩ := valid.recorded_of_version mine
    exact ⟨c, binding, valid, row⟩

/-- A binding belongs to a capability and binds a version of it. -/
theorem Catalogued.of_binding (h : r.Catalogued R) (mem : binding ∈ r.bindings) :
    ∃ c version, (r.dossier binding.capabilityId).Valid R c ∧
      (version, binding) ∈ (r.dossier binding.capabilityId).recorded ∧
      version ∈ r.capabilityVersions ∧ version.capabilityId = binding.capabilityId ∧
      version.id = binding.capabilityVersionId := by
  have mine : binding ∈ (r.dossier binding.capabilityId).bindings :=
    mem_dossier_bindings.mpr ⟨mem, rfl⟩
  rcases h.dossiers binding.capabilityId with none | ⟨c, valid⟩
  · rw [none] at mine
    cases mine
  · obtain ⟨version, row⟩ := valid.recorded_of_binding mine
    obtain ⟨known, hc⟩ := mem_dossier_versions.mp (Dossier.mem_versions_of_recorded row)
    exact ⟨c, version, valid, row, known, hc, (valid.bound_of_recorded row).symm⟩

theorem Catalogued.distinct (h : r.Catalogued R) (id : Uuid) :
    ((r.dossier id).versions.map CapabilityVersion.id).Nodup :=
  h.versions.sublist (List.filter_sublist.map _)

/-- A binding of a version stands beside it. -/
theorem Catalogued.recorded (h : r.Catalogued R) (hv : version ∈ r.capabilityVersions)
    (hb : binding ∈ r.bindings) (bound : binding.capabilityVersionId = version.id) :
    (version, binding) ∈ (r.dossier version.capabilityId).recorded := by
  obtain ⟨_, version', _, row, hv', hc, hid⟩ := h.of_binding hb
  obtain rfl : version' = version :=
    List.inj_on_of_nodup_map h.versions hv' hv (hid.trans bound)
  rwa [← hc] at row

/-- A version has one binding. -/
theorem Catalogued.eq_of_bound (h : r.Catalogued R) {binding' : McpToolBinding}
    (hb : binding ∈ r.bindings) (hb' : binding' ∈ r.bindings)
    (same : binding.capabilityVersionId = binding'.capabilityVersionId) : binding = binding' := by
  obtain ⟨_, version, valid, _, hv, hc, hid⟩ := h.of_binding hb
  have row' := h.recorded hv hb' (same.symm.trans hid.symm)
  rw [hc] at row'
  exact valid.eq_of_bound (h.distinct _) (mem_dossier_bindings.mpr ⟨hb, rfl⟩)
    (Dossier.mem_bindings_of_recorded row') same

/-- A capability belongs to the workspace of its connection. -/
theorem Catalogued.workspace_eq (h : r.Catalogued R) (mem : c ∈ r.capabilities)
    {connection : ServerConnection} (hc : connection ∈ r.connections)
    (own : connection.id = c.connectionId) : connection.workspaceId = c.workspaceId := by
  obtain ⟨owner, howner, heq⟩ := List.mem_map.mp (h.owned c mem)
  obtain ⟨hid, hw⟩ := Prod.mk.inj heq
  rw [← hw, List.inj_on_of_nodup_map h.connections hc howner (own.trans hid.symm)]

end Catalogued

/-! ## The search for a version that has been seen before -/

section Matching
variable {R : RegistryPlatform} {r : Registry} {c : Capability} {versionId : Uuid}
  {tool : ToolDefinition} {protocolRevision : String}

theorem mem_matchingRows {row : CapabilityVersion × McpToolBinding} :
    row ∈ r.matchingRows c versionId tool protocolRevision ↔
      row.1 ∈ r.capabilityVersions ∧ row.2 ∈ r.bindings ∧
        row.2.capabilityVersionId = row.1.id ∧ row.1.capabilityId = c.id ∧
        row.1.workspaceId = c.workspaceId ∧ row.1.metadataDigest = tool.metadataDigest ∧
        row.2.connectionVersionId = versionId ∧ row.2.toolName = tool.name ∧
        row.2.protocolRevision = protocolRevision := by
  obtain ⟨version, binding⟩ := row
  simp only [matchingRows, List.mem_flatMap, List.mem_map, List.mem_filter, Bool.and_eq_true,
    beq_iff_eq, Prod.mk.injEq]
  constructor
  · rintro ⟨_, hv, _, ⟨hb, ⟨⟨⟨⟨⟨h₁, h₂⟩, h₃⟩, h₄⟩, h₅⟩, h₆⟩, h₇⟩, rfl, rfl⟩
    exact ⟨hv, hb, h₁, h₂, h₃, h₄, h₅, h₆, h₇⟩
  · rintro ⟨hv, hb, h₁, h₂, h₃, h₄, h₅, h₆, h₇⟩
    exact ⟨version, hv, binding, ⟨hb, ⟨⟨⟨⟨⟨⟨h₁, h₂⟩, h₃⟩, h₄⟩, h₅⟩, h₆⟩, h₇⟩⟩, rfl, rfl⟩

/-- The rows that the search looks at are recorded of the capability. -/
theorem Catalogued.mem_matchingRows (h : r.Catalogued R) (mem : c ∈ r.capabilities)
    {row : CapabilityVersion × McpToolBinding} :
    row ∈ r.matchingRows c versionId tool protocolRevision ↔
      row ∈ (r.dossier c.id).recorded ∧ row.1.metadataDigest = tool.metadataDigest ∧
        row.2.connectionVersionId = versionId ∧ row.2.toolName = tool.name ∧
        row.2.protocolRevision = protocolRevision := by
  rw [Registry.mem_matchingRows]
  constructor
  · rintro ⟨hv, hb, bound, hc, -, rest⟩
    exact ⟨hc ▸ h.recorded hv hb bound, rest⟩
  · rintro ⟨recorded, rest⟩
    have valid := h.of_mem mem
    obtain ⟨hv, hc⟩ := mem_dossier_versions.mp (Dossier.mem_versions_of_recorded recorded)
    obtain ⟨hb, -⟩ := mem_dossier_bindings.mp (Dossier.mem_bindings_of_recorded recorded)
    exact ⟨hv, hb, valid.bound_of_recorded recorded, hc,
      valid.versions row.1 (Dossier.mem_versions_of_recorded recorded), rest⟩

theorem digest_of_sameMetadata {version : CapabilityVersion}
    (same : R.sameMetadata tool version = true) :
    version.metadataDigest = tool.metadataDigest := by
  simp only [RegistryPlatform.sameMetadata, Bool.and_eq_true, beq_iff_eq] at same
  exact same.1.2

/-- A row that describes the tool is among them. -/
theorem Catalogued.matchingRows_of_describes (h : r.Catalogued R) (mem : c ∈ r.capabilities)
    {observed : Observed} {row : CapabilityVersion × McpToolBinding}
    (recorded : row ∈ (r.dossier c.id).recorded) (describes : R.Describes observed tool row) :
    row ∈ r.matchingRows c observed.connectionVersionId tool observed.protocolRevision :=
  (h.mem_matchingRows mem).mpr ⟨recorded, digest_of_sameMetadata describes.metadata,
    describes.connectionVersionId, describes.toolName, describes.protocolRevision⟩

/-- The search looks a version up by its identifier. -/
theorem Catalogued.find_matchingRows (h : r.Catalogued R)
    {row : CapabilityVersion × McpToolBinding}
    (there : row ∈ r.matchingRows c versionId tool protocolRevision) :
    ((r.matchingRows c versionId tool protocolRevision).find? fun other =>
      other.1.id == row.1.id).map Prod.fst = some row.1 := by
  have some : ((r.matchingRows c versionId tool protocolRevision).find? fun other =>
      other.1.id == row.1.id).isSome = true :=
    List.find?_isSome.mpr ⟨row, there, beq_self_eq_true _⟩
  obtain ⟨other, found⟩ := Option.isSome_iff_exists.mp some
  have hid : other.1.id = row.1.id := by simpa using List.find?_some found
  have known := (Registry.mem_matchingRows.mp there).1
  have known' := (Registry.mem_matchingRows.mp (List.mem_of_find?_eq_some found)).1
  rw [found, Option.map_some, List.inj_on_of_nodup_map h.versions known' known hid]

section Observed
variable {observed : Observed}

/-- What is found has been recorded of this capability and describes the tool, and the enabled
version does not unless it is the one that was found. -/
theorem Catalogued.matchingVersion_eq_some (h : r.Catalogued R) (mem : c ∈ r.capabilities)
    {version : CapabilityVersion}
    (found : r.matchingVersion R c observed.connectionVersionId tool observed.protocolRevision =
      some version) :
    ∃ binding, (version, binding) ∈ (r.dossier c.id).recorded ∧
      binding.connectionVersionId = observed.connectionVersionId ∧
      (r.dossier c.id).Finds R observed tool c.enabledVersionId version.id := by
  unfold matchingVersion at found
  have same := List.find?_some found
  obtain ⟨id, -, hrow⟩ := List.mem_filterMap.mp (List.mem_of_find?_eq_some found)
  obtain ⟨⟨version', binding⟩, hfind, rfl⟩ := Option.map_eq_some_iff.mp hrow
  obtain ⟨recorded, -, hversion, name, revision⟩ :=
    (h.mem_matchingRows mem).mp (List.mem_of_find?_eq_some hfind)
  refine ⟨binding, recorded, hversion,
    ⟨(version', binding), recorded, rfl, hversion, name, revision, same⟩, ?_⟩
  intro row hrow describes enabled
  -- The enabled version is the first candidate.
  have first := h.find_matchingRows (h.matchingRows_of_describes mem hrow describes)
  simp only [enabled, Option.toList_some, List.singleton_append, List.cons_append,
    List.filterMap_cons, first, List.find?_cons, describes.metadata] at found
  rw [Option.some.inj found]

/-- When nothing is found, nothing that was recorded describes the tool. -/
theorem Catalogued.not_describes (h : r.Catalogued R) (mem : c ∈ r.capabilities)
    (missed : r.matchingVersion R c observed.connectionVersionId tool observed.protocolRevision =
      none) :
    ∀ row ∈ (r.dossier c.id).recorded, ¬ R.Describes observed tool row := by
  intro row recorded describes
  have there := h.matchingRows_of_describes mem recorded describes
  unfold matchingVersion at missed
  refine List.find?_eq_none.mp missed row.1 (List.mem_filterMap.mpr ⟨row.1.id, ?_, ?_⟩)
    describes.metadata
  · rw [List.mem_append]
    by_cases current : row.1.id ∈ c.enabledVersionId.toList ++ c.pendingVersionId.toList
    · exact .inl current
    · refine .inr (List.mem_filter.mpr ⟨?_, decide_eq_true current⟩)
      exact List.mem_map_of_mem (f := fun row : CapabilityVersion × McpToolBinding => row.1.id)
        (mem_orderedBy.mpr there)
  · exact h.find_matchingRows there

/-- Two rows that agree describe the same tool. -/
theorem describes_of_agree {row : CapabilityVersion × McpToolBinding} {context : WorkspaceContext}
    {sequence : Nat} {newId : Uuid} (agree : R.Agree row
      (newCapabilityVersion context c sequence tool newId,
        newBinding context c observed.connectionId observed.connectionVersionId tool
          observed.protocolRevision newId)) : R.Describes observed tool row := by
  refine ⟨agree.connectionVersionId, agree.toolName, agree.protocolRevision, ?_⟩
  have display : row.1.displayName = tool.displayName := agree.displayName
  have description : row.1.description = tool.description := agree.description
  have input : R.jsonEqual row.1.inputSchema tool.inputSchema = true := agree.inputSchema
  have output : R.optionEqual row.1.outputSchema tool.outputSchema = true := agree.outputSchema
  have digest : row.1.metadataDigest = tool.metadataDigest := agree.metadataDigest
  have supported : row.1.schemaSupported = tool.schemaSupported := agree.schemaSupported
  simp [RegistryPlatform.sameMetadata, display, description, input, output, digest, supported]

/-- A version that is in force is found again. -/
theorem Catalogued.matchingVersion_of_stands (h : r.Catalogued R) {id : Uuid}
    (stands : (r.dossier c.id).Stands R observed tool c id) :
    ∃ version, version.id = id ∧ r.matchingVersion R c observed.connectionVersionId tool
      observed.protocolRevision = some version := by
  have mem : c ∈ r.capabilities := (mem_dossier_capabilities.mp
    (stands.capabilities ▸ List.mem_singleton_self c)).1
  obtain ⟨row, recorded, rfl, describes⟩ := stands.finds.recorded
  have first := h.find_matchingRows (h.matchingRows_of_describes mem recorded describes)
  refine ⟨row.1, rfl, ?_⟩
  unfold matchingVersion
  rcases stands.current.version with ⟨enabled, -⟩ | ⟨other, pending⟩
  · simp only [enabled, Option.toList_some, List.singleton_append, List.cons_append,
      List.filterMap_cons, first, List.find?_cons, describes.metadata]
  · cases enabled : c.enabledVersionId with
    | none =>
      simp only [pending, Option.toList_none, Option.toList_some, List.nil_append,
        List.singleton_append, List.filterMap_cons, first, List.find?_cons, describes.metadata]
    | some id =>
      simp only [pending, Option.toList_some, List.singleton_append, List.cons_append,
        List.nil_append, List.filterMap_cons, first]
      cases looked : ((r.matchingRows c observed.connectionVersionId tool
          observed.protocolRevision).find? fun other => other.1.id == id) with
      | none => simp only [Option.map_none, List.find?_cons, describes.metadata]
      | some row' =>
        -- The enabled version is looked at first, but it does not describe the tool.
        have hid : row'.1.id = id := by simpa using List.find?_some looked
        obtain ⟨recorded', -, hversion, name, revision⟩ :=
          (h.mem_matchingRows mem).mp (List.mem_of_find?_eq_some looked)
        have differs : R.sameMetadata tool row'.1 = false := by
          by_contra same
          have describes' : R.Describes observed tool row' :=
            ⟨hversion, name, revision, by simpa using same⟩
          have enabled' : c.enabledVersionId = some row'.1.id := by rw [enabled, hid]
          rw [stands.finds.preferred row' recorded' describes' enabled'] at enabled'
          exact other enabled'
        simp only [Option.map_some, List.find?_cons, differs, describes.metadata]

end Observed

end Matching

/-! ## What discovery does -/

/-- The version a capability is enabled at was seen under this version of its connection, in
this snapshot. -/
def Offers (r : Registry) (c : Capability) (connectionVersionId snapshotId : Uuid) : Prop :=
  ∃ versionId, c.enabledVersionId = some versionId ∧
    (∃ binding ∈ r.bindings, binding.capabilityVersionId = versionId ∧
      binding.connectionVersionId = connectionVersionId) ∧
    ⟨c.workspaceId, c.connectionId, connectionVersionId, snapshotId, versionId⟩ ∈
      r.snapshotCapabilities

/-- What a publication may have done so far to the capabilities of a connection. -/
structure Discovers (R : RegistryPlatform) (drawn : List Uuid) (connectionId : Uuid)
    (r r' : Registry) : Prop where
  dossiers : ∀ k, Dossier.Moves R none (r.dossier k) (r'.dossier k)
  elsewhere : ∀ c ∈ r'.capabilities, c.connectionId ≠ connectionId → c ∈ r.capabilities
  bindings : ∀ binding ∈ r.bindings, binding ∈ r'.bindings
  rows : ∀ row ∈ r.snapshotCapabilities, row ∈ r'.snapshotCapabilities
  capability : ∀ c ∈ r'.capabilities, c.id ∈ drawn ∨ c.id ∈ r.capabilities.map Capability.id
  version : ∀ v ∈ r'.capabilityVersions,
    v.id ∈ drawn ∨ v.id ∈ r.capabilityVersions.map CapabilityVersion.id
  frame : r' = { r with
    capabilities := r'.capabilities, capabilityVersions := r'.capabilityVersions
    bindings := r'.bindings, statusEvents := r'.statusEvents
    snapshotCapabilities := r'.snapshotCapabilities }

section Discovers
variable {R : RegistryPlatform} {r r' r'' : Registry} {c c' : Capability}
  {version : CapabilityVersion} {binding : McpToolBinding} {event : CapabilityStatusEvent}
  {drawn drawn' : List Uuid} {connectionId : Uuid}

theorem Discovers.refl (r : Registry) : r.Discovers R drawn connectionId r where
  dossiers _ := .refl
  elsewhere _ h _ := h
  bindings _ h := h
  rows _ h := h
  capability _ h := .inr (List.mem_map_of_mem h)
  version _ h := .inr (List.mem_map_of_mem h)
  frame := rfl

theorem Discovers.mono (h : r.Discovers R drawn connectionId r')
    (more : ∀ id ∈ drawn, id ∈ drawn') : r.Discovers R drawn' connectionId r' :=
  { h with
    capability := fun c mem => (h.capability c mem).imp_left (more _)
    version := fun v mem => (h.version v mem).imp_left (more _) }

theorem Discovers.trans (h : r.Discovers R drawn connectionId r')
    (g : r'.Discovers R drawn connectionId r'') : r.Discovers R drawn connectionId r'' where
  dossiers k := Relation.ReflTransGen.trans (h.dossiers k) (g.dossiers k)
  elsewhere c mem other := h.elsewhere c (g.elsewhere c mem other) other
  bindings b mem := g.bindings b (h.bindings b mem)
  rows row mem := g.rows row (h.rows row mem)
  capability c mem := by
    rcases g.capability c mem with new | old
    · exact .inl new
    · obtain ⟨c', mem', hid⟩ := List.mem_map.mp old
      exact hid ▸ h.capability c' mem'
  version v mem := by
    rcases g.version v mem with new | old
    · exact .inl new
    · obtain ⟨v', mem', hid⟩ := List.mem_map.mp old
      exact hid ▸ h.version v' mem'
  frame := by
    have frame := g.frame
    rw [h.frame] at frame
    exact frame

theorem mem_moveCapability {row : Capability} (mem : c ∈ r.capabilities) (hid : c'.id = c.id) :
    row ∈ (r.moveCapability c' event).capabilities ↔
      row = c' ∨ row ∈ r.capabilities ∧ row.id ≠ c'.id := by
  change row ∈ updateWhere (fun row => row.id == c'.id) (fun _ => c') r.capabilities ↔ _
  rw [mem_updateWhere]
  constructor
  · rintro ⟨old, hold, rfl⟩
    by_cases same : old.id = c'.id
    · exact .inl (by simp [same])
    · exact .inr (by simp [same, hold])
  · rintro (rfl | ⟨hrow, other⟩)
    · exact ⟨c, mem, by simp [hid]⟩
    · exact ⟨row, hrow, by simp [other]⟩

/-- A capability that exists changes, by discovery or by a reviewer. -/
theorem Catalogued.move (h : r.Catalogued R) (mem : c ∈ r.capabilities)
    (succeeds : c'.Succeeds c) (logs : event.Logs c') {decision : Option Decision}
    (step : Dossier.Step R decision (r.dossier c.id) ((r.dossier c.id).move c' event)) :
    (r.moveCapability c' event).Catalogued R where
  dossiers k := by
    rw [dossier_moveCapability c' event logs.capabilityId, succeeds.id]
    split_ifs with hk
    · subst hk
      obtain ⟨c'', valid, -⟩ := step.sound (h.of_mem mem)
      exact .inr ⟨c'', valid⟩
    · exact h.dossiers k
  versions := h.versions
  identities := by
    intro a ha b hb connection identity
    rw [mem_moveCapability mem succeeds.id] at ha hb
    rcases ha with rfl | ⟨ha, hna⟩ <;> rcases hb with rfl | ⟨hb, hnb⟩
    · rfl
    · rw [succeeds.connectionId] at connection
      rw [succeeds.toolIdentity] at identity
      rw [← h.identities c mem b hb connection identity, succeeds.id] at hnb
      exact (hnb rfl).elim
    · rw [succeeds.connectionId] at connection
      rw [succeeds.toolIdentity] at identity
      rw [h.identities a ha c mem connection identity, succeeds.id] at hna
      exact (hna rfl).elim
    · exact h.identities a ha b hb connection identity
  owned := by
    intro row hr
    rcases (mem_moveCapability mem succeeds.id).mp hr with rfl | ⟨old, -⟩
    · rw [succeeds.connectionId, succeeds.workspaceId]
      exact h.owned c mem
    · exact h.owned row old
  connections := h.connections

/-- The dossiers after such a change. -/
theorem dossier_move (succeeds : c'.Succeeds c) (logs : event.Logs c') {decision : Option Decision}
    (step : Dossier.Step R decision (r.dossier c.id) ((r.dossier c.id).move c' event)) :
    Dossier.Step R decision (r.dossier c.id) ((r.moveCapability c' event).dossier c.id) ∧
      ∀ k, k ≠ c.id → (r.moveCapability c' event).dossier k = r.dossier k := by
  have read (k : Uuid) := dossier_moveCapability (r := r) (k := k) c' event logs.capabilityId
  rw [succeeds.id] at read
  refine ⟨?_, fun k hk => ?_⟩
  · rw [read, if_pos rfl]
    exact step
  · rw [read, if_neg hk]

/-- Discovery moves a capability. -/
theorem Discovers.move (mem : c ∈ r.capabilities) (succeeds : c'.Succeeds c)
    (logs : event.Logs c')
    (step : Dossier.Step R none (r.dossier c.id) ((r.dossier c.id).move c' event)) :
    r.Discovers R drawn c.connectionId (r.moveCapability c' event) where
  dossiers k := by
    obtain ⟨self, other⟩ := dossier_move succeeds logs step
    by_cases hk : k = c.id
    · rw [hk]
      exact .single self
    · rw [other k hk]
      exact .refl
  elsewhere row hr other := by
    rcases (mem_moveCapability mem succeeds.id).mp hr with rfl | ⟨old, -⟩
    · exact (other succeeds.connectionId).elim
    · exact old
  bindings _ h := h
  rows _ h := h
  capability row hr := by
    rcases (mem_moveCapability mem succeeds.id).mp hr with rfl | ⟨old, -⟩
    · exact .inr (succeeds.id ▸ List.mem_map_of_mem mem)
    · exact .inr (List.mem_map_of_mem old)
  version _ h := .inr (List.mem_map_of_mem h)
  frame := rfl

/-- Discovery records a version of a capability that exists. -/
theorem Catalogued.record (h : r.Catalogued R) (mem : c ∈ r.capabilities)
    (adds : Dossier.Adds R (r.dossier c.id) c version binding)
    (hv : version.capabilityId = c.id) (hb : binding.capabilityId = c.id)
    (fresh : version.id ∉ r.capabilityVersions.map CapabilityVersion.id) :
    (r.addCapabilityVersion version binding).Catalogued R ∧
      r.Discovers R [version.id] c.connectionId (r.addCapabilityVersion version binding) := by
  have read (k : Uuid) := dossier_addCapabilityVersion (r := r) (k := k) version binding
    (hb.trans hv.symm)
  rw [hv] at read
  have valid := h.of_mem mem
  constructor
  · exact { h with
      dossiers := fun k => by
        rw [read]
        split_ifs with hk
        · subst hk
          exact .inr ⟨c, (valid.addVersion adds).1⟩
        · exact h.dossiers k
      versions := by
        change ((r.capabilityVersions ++ [version]).map CapabilityVersion.id).Nodup
        rw [List.map_append]
        exact h.versions.append (List.nodup_singleton _) (by simpa using fresh) }
  · exact { Discovers.refl (R := R) r with
      dossiers := fun k => by
        rw [read]
        split_ifs with hk
        · subst hk
          exact .single (.record valid.capabilities adds)
        · exact .refl
      bindings := fun b hb => List.mem_append_left _ hb
      version := fun v hv => by
        rcases List.mem_append.mp hv with old | new
        · exact .inr (List.mem_map_of_mem old)
        · exact .inl (by simp [List.mem_singleton.mp new])
      frame := rfl }

theorem Catalogued.dossier_eq_empty (h : r.Catalogued R) {id : Uuid}
    (fresh : id ∉ r.capabilities.map Capability.id) : r.dossier id = .empty := by
  rcases h.dossiers id with none | ⟨c, valid⟩
  · exact none
  · obtain ⟨mem, hid⟩ := mem_of_dossier valid
    exact (fresh (hid ▸ List.mem_map_of_mem mem)).elim

/-- The registry after a tool has been seen for the first time. -/
def addDiscovered (r : Registry) (c c' : Capability) (version : CapabilityVersion)
    (binding : McpToolBinding) (event : CapabilityStatusEvent) : Registry :=
  ((r.addCapability c).addCapabilityVersion version binding).moveCapability c' event

theorem Catalogued.dossier_addDiscovered (h : r.Catalogued R) (hid : c'.id = c.id)
    (fresh : c'.id ∉ r.capabilities.map Capability.id) (logs : event.Logs c')
    (hv : version.capabilityId = c'.id) (hb : binding.capabilityId = c'.id) (k : Uuid) :
    (r.addDiscovered c c' version binding event).dossier k =
      if k = c'.id then ⟨[c'], [version], [binding], [event]⟩ else r.dossier k := by
  unfold addDiscovered
  rw [dossier_moveCapability c' event logs.capabilityId, dossier_addCapabilityVersion _ _
    (hb.trans hv.symm), dossier_addCapability, hv, hid]
  split_ifs with hk
  · rw [hk, ← hid, h.dossier_eq_empty fresh]
    rfl
  · rfl

/-- Discovery records a tool that has not been seen before. -/
theorem Catalogued.discover (h : r.Catalogued R) (hid : c'.id = c.id)
    (fresh : c'.id ∉ r.capabilities.map Capability.id)
    (freshVersion : version.id ∉ r.capabilityVersions.map CapabilityVersion.id)
    (new : ∀ row ∈ r.capabilities, row.connectionId = c'.connectionId →
      row.toolIdentity ≠ c'.toolIdentity)
    (owner : (c'.connectionId, c'.workspaceId) ∈ r.owners)
    (status : c'.status = .pendingReview) (pending : c'.pendingVersionId = some version.id)
    (enabled : c'.enabledVersionId = none) (epoch : c'.statusEpoch = 1) (logs : event.Logs c')
    (adds : Dossier.Adds R .empty c' version binding)
    (hv : version.capabilityId = c'.id) (hb : binding.capabilityId = c'.id) :
    (r.addDiscovered c c' version binding event).Catalogued R ∧
      r.Discovers R [c'.id, version.id] c'.connectionId
        (r.addDiscovered c c' version binding event) ∧
      ∀ row, row ∈ (r.addDiscovered c c' version binding event).capabilities ↔
        row = c' ∨ row ∈ r.capabilities := by
  have step : Dossier.Step R none .empty ⟨[c'], [version], [binding], [event]⟩ :=
    .discover status pending enabled epoch logs adds
  have read := h.dossier_addDiscovered hid fresh logs hv hb
  have rows (row : Capability) :
      row ∈ (r.addDiscovered c c' version binding event).capabilities ↔
        row = c' ∨ row ∈ r.capabilities := by
    have added : c ∈ ((r.addCapability c).addCapabilityVersion version binding).capabilities :=
      List.mem_append_right _ (List.mem_singleton_self c)
    rw [addDiscovered, mem_moveCapability added hid]
    refine or_congr_right ⟨?_, fun old => ⟨List.mem_append_left _ old, ?_⟩⟩
    · rintro ⟨mem, other⟩
      rcases List.mem_append.mp mem with old | self
      · exact old
      · rw [List.mem_singleton.mp self, hid] at other
        exact (other rfl).elim
    · intro same
      exact fresh (same ▸ List.mem_map_of_mem old)
  refine ⟨?_, ?_, rows⟩
  · refine { h with
      dossiers := fun k => ?_, versions := ?_, identities := ?_, owned := fun row hr => ?_ }
    · rw [read]
      split_ifs
      · exact .inr step.of_empty
      · exact h.dossiers k
    · change ((r.capabilityVersions ++ [version]).map CapabilityVersion.id).Nodup
      rw [List.map_append]
      exact h.versions.append (List.nodup_singleton _) (by simpa using freshVersion)
    · intro a ha b hb connection identity
      rw [rows] at ha hb
      rcases ha with rfl | ha <;> rcases hb with rfl | hb
      · rfl
      · exact (new b hb connection.symm identity.symm).elim
      · exact (new a ha connection identity).elim
      · exact h.identities a ha b hb connection identity
    · rcases (rows row).mp hr with rfl | old
      · exact owner
      · exact h.owned row old
  · refine {
      rows := fun _ h => h, dossiers := fun k => ?_, elsewhere := fun row hr other => ?_
      capability := fun row hr => ?_, bindings := fun b hb => List.mem_append_left _ hb
      version := fun v hv => ?_, frame := rfl }
    · rw [read]
      split_ifs with hk
      · rw [hk, h.dossier_eq_empty fresh]
        exact .single step
      · exact .refl
    · rcases (rows row).mp hr with rfl | old
      · exact (other rfl).elim
      · exact old
    · rcases (rows row).mp hr with rfl | old
      · exact .inl (by simp)
      · exact .inr (List.mem_map_of_mem old)
    · rcases List.mem_append.mp hv with old | new
      · exact .inr (List.mem_map_of_mem old)
      · exact .inl (by simp [List.mem_singleton.mp new])

end Discovers

end Registry

end Modall
