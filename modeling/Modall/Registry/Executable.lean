import Modall.Execution.Refinement.Admission
import Modall.Registry.Refresh

/-!
# The executable capabilities

`list_capabilities` with `executable=true` joins a capability with its connection and with the
binding of its enabled version, and tests six conditions; admission tests ten. The four that the
list leaves out hold of whatever it shows, because a publication leaves nothing enabled that its
snapshot does not offer and a review admits nothing that could not run.
-/
namespace Modall
open Library

namespace Registry

/-- The `WHERE` clause of `executable=true` on a joined row. -/
def executableRow (c : Capability) (connection : ServerConnection) (binding : McpToolBinding) :
    Bool :=
  connection.id == c.connectionId && some binding.capabilityVersionId == c.enabledVersionId &&
    c.status == .enabled && c.enabledVersionId.isSome && c.pendingVersionId == none &&
    connection.lifecycle == .active && connection.pendingVersionId == none &&
    connection.verifiedVersionId == some binding.connectionVersionId

/-- The rows that `list_capabilities` selects with `executable=true`, one for each joined row. -/
def executableCapabilities (r : Registry) (workspaceId : Uuid) : List Capability :=
  (r.capabilities.filter fun c => c.workspaceId == workspaceId).flatMap fun c =>
    r.connections.flatMap fun connection =>
      (r.bindings.filter (executableRow c connection)).map fun _ => c

section Executable
variable {R : RegistryPlatform} {r : Registry} {c : Capability} {connection : ServerConnection}
  {workspaceId : Uuid}

theorem mem_executableCapabilities :
    c ∈ r.executableCapabilities workspaceId ↔
      c ∈ r.capabilities ∧ c.workspaceId = workspaceId ∧ c.status = .enabled ∧
        c.pendingVersionId = none ∧ ∃ connection ∈ r.connections, connection.id = c.connectionId ∧
          connection.lifecycle = .active ∧ connection.pendingVersionId = none ∧
          ∃ binding ∈ r.bindings, c.enabledVersionId = some binding.capabilityVersionId ∧
            connection.verifiedVersionId = some binding.connectionVersionId := by
  simp only [executableCapabilities, executableRow, List.mem_flatMap, List.mem_filter,
    List.mem_map, Bool.and_eq_true, beq_iff_eq]
  constructor
  · rintro ⟨c', ⟨mem, hw⟩, connection, hconn, binding, ⟨hb, tests⟩, rfl⟩
    obtain ⟨⟨⟨⟨⟨⟨⟨hid, hv⟩, hs⟩, -⟩, hp⟩, hl⟩, hpc⟩, hver⟩ := tests
    exact ⟨mem, hw, hs, hp, connection, hconn, hid, hl, hpc, binding, hb, hv.symm, hver⟩
  · rintro ⟨mem, hw, hs, hp, connection, hconn, hid, hl, hpc, binding, hb, hv, hver⟩
    exact ⟨c, ⟨mem, hw⟩, connection, hconn, binding,
      ⟨hb, ⟨⟨⟨⟨⟨⟨⟨hid, hv.symm⟩, hs⟩, by simp [hv]⟩, hp⟩, hl⟩, hpc⟩, hver⟩⟩, rfl⟩

/-- Everything that running the enabled version of a capability rests on. -/
structure Runnable (r : Registry) (c : Capability) (connection : ServerConnection)
    (version : CapabilityVersion) (binding : McpToolBinding) (snapshotId : Uuid) : Prop where
  recorded : version ∈ r.capabilityVersions
  capabilityId : version.capabilityId = c.id
  enabled : c.enabledVersionId = some version.id
  binds : binding ∈ r.bindings
  bound : binding.capabilityVersionId = version.id
  current : connection.currentSnapshotId = some snapshotId
  offered : ⟨c.workspaceId, c.connectionId, binding.connectionVersionId, snapshotId, version.id⟩ ∈
    r.snapshotCapabilities
  verified : connection.verifiedVersionId = some binding.connectionVersionId
  schemaSupported : version.schemaSupported = true
  qualified : binding.protocolRevision = qualifiedProtocolRevision

/-- An enabled capability of an active connection can be run. -/
theorem Covered.runnable (covered : r.Covered) (catalogued : r.Catalogued R)
    (mem : c ∈ r.capabilities) (hc : connection ∈ r.connections)
    (own : connection.id = c.connectionId) (active : connection.lifecycle = .active)
    (status : c.status = .enabled) :
    ∃ version binding snapshotId, r.Runnable c connection version binding snapshotId := by
  obtain ⟨versionId, snapshotId, verified, current, id, enabled, ⟨bound, hbound, hv, hcv⟩, row⟩ :=
    covered connection hc active c mem own.symm status
  have valid := catalogued.of_mem mem
  obtain ⟨⟨version, binding⟩, recorded, rfl, supported, qualified⟩ := valid.reviewed id enabled
  obtain ⟨known, hcap⟩ := mem_dossier_versions.mp (Dossier.mem_versions_of_recorded recorded)
  obtain ⟨hb, -⟩ := mem_dossier_bindings.mp (Dossier.mem_bindings_of_recorded recorded)
  -- The binding that the snapshot names is the one the version was recorded with.
  obtain rfl : bound = binding :=
    catalogued.eq_of_bound hbound hb (hv.trans (valid.bound_of_recorded recorded).symm)
  obtain rfl := hcv.symm
  exact ⟨version, bound, snapshotId, known, hcap, enabled, hb, hv, current, row, verified,
    supported, qualified⟩

/-- What can be run is admitted. -/
theorem Runnable.admitted {version : CapabilityVersion} {binding : McpToolBinding}
    {snapshotId : Uuid} (h : r.Runnable c connection version binding snapshotId)
    (catalogued : r.Catalogued R) (mem : c ∈ r.capabilities) (hc : connection ∈ r.connections)
    (own : connection.id = c.connectionId) (active : connection.lifecycle = .active)
    (settled : connection.pendingVersionId = none) (status : c.status = .enabled)
    (reviewed : c.pendingVersionId = none) :
    r.admissionTarget c.workspaceId version.id = some ⟨c, version, binding, connection⟩ := by
  have valid := catalogued.of_mem mem
  have recorded := catalogued.recorded h.recorded h.binds h.bound
  rw [h.capabilityId] at recorded
  have hv := valid.versions version (Dossier.mem_versions_of_recorded recorded)
  obtain ⟨hbw, hbc⟩ := valid.bindings binding (Dossier.mem_bindings_of_recorded recorded)
  have hcw : connection.workspaceId = c.workspaceId := catalogued.workspace_eq mem hc own
  refine admissionTarget_eq_some.mpr ⟨?_, ?_, ?_, ?_, ?_, h.schemaSupported, status, h.enabled,
    reviewed, active, settled, h.verified, h.qualified⟩
  · refine find?_eq_some_of_only h.recorded (by simp [hv]) fun row hrow found => ?_
    simp only [Bool.and_eq_true, beq_iff_eq] at found
    exact List.inj_on_of_nodup_map catalogued.versions hrow h.recorded found.1
  · refine find?_eq_some_of_only mem (by simp [h.capabilityId]) fun row hrow found => ?_
    simp only [Bool.and_eq_true, beq_iff_eq] at found
    exact catalogued.eq_of_id hrow mem (found.1.trans h.capabilityId)
  · refine find?_eq_some_of_only h.binds (by simp [h.bound, hbw]) fun row hrow found => ?_
    simp only [Bool.and_eq_true, beq_iff_eq] at found
    exact catalogued.eq_of_bound hrow h.binds (found.1.trans h.bound.symm)
  · refine find?_eq_some_of_only hc (by simp [own, hbc, hcw]) fun row hrow found => ?_
    simp only [Bool.and_eq_true, beq_iff_eq] at found
    exact List.inj_on_of_nodup_map catalogued.connections hrow hc
      (found.1.trans (hbc.trans own.symm))
  · obtain ⟨row, there⟩ := exists_find? (p := fun row => row.workspaceId == c.workspaceId &&
      row.connectionId == connection.id &&
      row.connectionVersionId == binding.connectionVersionId && row.snapshotId == snapshotId &&
      row.capabilityVersionId == version.id) h.offered (by simp [own])
    exact ⟨snapshotId, row, h.current, there⟩

/-- What is admitted is the capability that is enabled at this version. -/
theorem Catalogued.eq_of_loaded (h : r.Catalogued R) (mem : c ∈ r.capabilities)
    {versionId : Uuid} {target : AdmissionTarget} (enabled : c.enabledVersionId = some versionId)
    (loaded : target.Loaded r workspaceId versionId) :
    target.capability = c ∧ target.binding.connectionId = c.connectionId := by
  have valid := h.of_mem mem
  obtain ⟨⟨version, binding⟩, recorded, hid, -⟩ := valid.reviewed versionId enabled
  obtain ⟨known, hcap⟩ := mem_dossier_versions.mp (Dossier.mem_versions_of_recorded recorded)
  have found := List.find?_some loaded.version
  simp only [Bool.and_eq_true, beq_iff_eq] at found
  obtain rfl : target.version = version := List.inj_on_of_nodup_map h.versions
    (List.mem_of_find?_eq_some loaded.version) known (found.1.trans hid.symm)
  have same := List.find?_some loaded.capability
  have bound := List.find?_some loaded.binding
  simp only [Bool.and_eq_true, beq_iff_eq] at same bound
  have row := h.recorded known (List.mem_of_find?_eq_some loaded.binding) bound.1
  rw [hcap] at row
  exact ⟨h.eq_of_id (List.mem_of_find?_eq_some loaded.capability) mem (same.1.trans hcap),
    (valid.bindings _ (Dossier.mem_bindings_of_recorded row)).2⟩

end Executable

end Registry

section Agreement
variable {P : Platform} {R : RegistryPlatform} {limits : ExecutionLimits} {w : World}

/-- The list of executable capabilities agrees with admission, and an enabled capability of an
active connection has all that admission asks for. -/
theorem executable_list_agrees (h : w.Operated P R limits) {c : Capability}
    (mem : c ∈ w.store.registry.capabilities) :
    (∀ workspaceId, c ∈ w.store.registry.executableCapabilities workspaceId ↔
      ∃ versionId target, c.enabledVersionId = some versionId ∧
        w.store.registry.admissionTarget workspaceId versionId = some target) ∧
      ∀ connection ∈ w.store.registry.connections, connection.id = c.connectionId →
        c.status = .enabled → c.pendingVersionId = none → connection.lifecycle = .active →
        connection.pendingVersionId = none → ∃ version binding snapshotId,
          w.store.registry.Runnable c connection version binding snapshotId := by
  obtain ⟨kept, refreshed⟩ := h.invariant
  have catalogued := kept.registry.catalogued
  constructor
  · intro workspaceId
    rw [Registry.mem_executableCapabilities]
    constructor
    · rintro ⟨-, rfl, status, reviewed, connection, hc, own, active, settled, -⟩
      obtain ⟨version, binding, snapshotId, runnable⟩ :=
        refreshed.covered.runnable catalogued mem hc own active status
      exact ⟨version.id, _, runnable.enabled, runnable.admitted catalogued mem hc own active
        settled status reviewed⟩
    · rintro ⟨versionId, target, enabled, admitted⟩
      have loaded := Registry.admissionTarget_eq_some.mp admitted
      obtain ⟨rfl, hbc⟩ := catalogued.eq_of_loaded mem enabled loaded
      have hw := List.find?_some loaded.capability
      have hid := List.find?_some loaded.connection
      have bound := List.find?_some loaded.binding
      simp only [Bool.and_eq_true, beq_iff_eq] at hw hid bound
      exact ⟨mem, hw.2, loaded.status, loaded.reviewed, target.connection,
        List.mem_of_find?_eq_some loaded.connection, hid.1.trans hbc, loaded.active,
        loaded.settled, target.binding, List.mem_of_find?_eq_some loaded.binding,
        loaded.enabled.trans (congrArg some bound.1.symm), loaded.verified⟩
  · intro connection hc own status _ active _
    exact refreshed.covered.runnable catalogued mem hc own active status

end Agreement

theorem executable_list_agrees_sample :
    { Installation.capability with status := .enabled, statusEpoch := 2 } ∈
        Installation.enabled.store.registry.executableCapabilities 1 ∧
      ∃ versionId target, some (7 : Uuid) = some versionId ∧
        Installation.enabled.store.registry.admissionTarget 1 versionId = some target := by
  have mem : { Installation.capability with status := .enabled, statusEpoch := 2 } ∈
      Installation.enabled.store.registry.executableCapabilities 1 := by decide +kernel
  refine ⟨mem, ?_⟩
  exact ((executable_list_agrees Installation.enabled_operated
    (Registry.mem_executableCapabilities.mp mem).1).1 1).mp mem

end Modall
