import Mathlib
import Modall.Registry.Discovery

/-!
# The record of one capability

What the registry keeps about a tool, stated for the rows of a single capability: the capability
itself, the versions that discovery has recorded with their bindings, and the log of its statuses.
`Dossier.Step` lists what may happen to them. Every change of the projection is one `move`, which
counts the epoch up and logs the new status; the steps differ in who may take them and in what
they may do to the enabled version.
-/
namespace Modall
open Library

/-- The status of a capability fits its two versions. -/
structure Capability.Coherent (c : Capability) : Prop where
  enabled : c.status = .enabled → c.enabledVersionId ≠ none ∧ c.pendingVersionId = none
  pendingReview : c.status = .pendingReview → c.pendingVersionId ≠ none
  distinct : ∀ v, c.pendingVersionId = some v → c.enabledVersionId ≠ some v

/-- The row after one more change of its projection. -/
structure Capability.Succeeds (c' c : Capability) : Prop where
  id : c'.id = c.id
  workspaceId : c'.workspaceId = c.workspaceId
  connectionId : c'.connectionId = c.connectionId
  toolIdentity : c'.toolIdentity = c.toolIdentity
  epoch : c'.statusEpoch = c.statusEpoch + 1

/-- The event that logs the present status of a capability. -/
structure CapabilityStatusEvent.Logs (event : CapabilityStatusEvent) (c : Capability) : Prop where
  capabilityId : event.capabilityId = c.id
  status : event.status = c.status
  epoch : event.statusEpoch = c.statusEpoch
  version : event.capabilityVersionId = c.decisionVersionId

/-- Two versions with their bindings record the same metadata of the same tool. -/
structure RegistryPlatform.Agree (R : RegistryPlatform)
    (a b : CapabilityVersion × McpToolBinding) : Prop where
  connectionVersionId : a.2.connectionVersionId = b.2.connectionVersionId
  toolName : a.2.toolName = b.2.toolName
  protocolRevision : a.2.protocolRevision = b.2.protocolRevision
  metadataDigest : a.1.metadataDigest = b.1.metadataDigest
  displayName : a.1.displayName = b.1.displayName
  description : a.1.description = b.1.description
  inputSchema : R.jsonEqual a.1.inputSchema b.1.inputSchema = true
  outputSchema : R.optionEqual a.1.outputSchema b.1.outputSchema = true
  schemaSupported : a.1.schemaSupported = b.1.schemaSupported

theorem RegistryPlatform.optionEqual_symm (R : RegistryPlatform) (a b : Option Json) :
    R.optionEqual a b = R.optionEqual b a := by
  cases a <;> cases b <;> first | rfl | exact R.jsonEqual_symm _ _

theorem RegistryPlatform.Agree.refl {R : RegistryPlatform}
    (row : CapabilityVersion × McpToolBinding) : R.Agree row row := by
  refine ⟨rfl, rfl, rfl, rfl, rfl, rfl, R.jsonEqual_refl _, ?_, rfl⟩
  cases row.1.outputSchema with
  | none => rfl
  | some schema => exact R.jsonEqual_refl schema

theorem RegistryPlatform.Agree.symm {R : RegistryPlatform}
    {a b : CapabilityVersion × McpToolBinding} (h : R.Agree a b) : R.Agree b a where
  connectionVersionId := h.connectionVersionId.symm
  toolName := h.toolName.symm
  protocolRevision := h.protocolRevision.symm
  metadataDigest := h.metadataDigest.symm
  displayName := h.displayName.symm
  description := h.description.symm
  inputSchema := (R.jsonEqual_symm _ _).trans h.inputSchema
  outputSchema := (R.optionEqual_symm _ _).trans h.outputSchema
  schemaSupported := h.schemaSupported.symm

/-- The version is the one in force, so that discovery has nothing to change when it sees it
again. -/
structure Capability.Current (c : Capability) (versionId : Uuid) : Prop where
  version : c.enabledVersionId = some versionId ∧ c.pendingVersionId = none ∨
    c.enabledVersionId ≠ some versionId ∧ c.pendingVersionId = some versionId
  available : c.status ≠ .unavailable

/-- The version in force is the one that a decision would be about. -/
theorem Capability.Current.decision {c : Capability} {versionId : Uuid} (h : c.Current versionId) :
    c.decisionVersionId = some versionId := by
  rcases h.version with ⟨enabled, pending⟩ | ⟨-, pending⟩ <;>
    simp [Capability.decisionVersionId, pending, *]

/-- The recorded version with its binding is what was observed of the tool. -/
structure RegistryPlatform.Describes (R : RegistryPlatform) (observed : Observed)
    (tool : ToolDefinition) (row : CapabilityVersion × McpToolBinding) : Prop where
  connectionVersionId : row.2.connectionVersionId = observed.connectionVersionId
  toolName : row.2.toolName = tool.name
  protocolRevision : row.2.protocolRevision = observed.protocolRevision
  metadata : R.sameMetadata tool row.1 = true

/-- The rows of one capability, table by table. -/
@[ext] structure Dossier where
  capabilities : List Capability
  versions : List CapabilityVersion
  bindings : List McpToolBinding
  events : List CapabilityStatusEvent

/-- What a reviewer may decide about a capability. -/
inductive Decision where
  | enable (versionId : Uuid)
  | disable
deriving DecidableEq

namespace Dossier

/-- The rows of a capability that does not exist. -/
def empty : Dossier := ⟨[], [], [], []⟩

/-- The versions, each with its binding. -/
def recorded (d : Dossier) : List (CapabilityVersion × McpToolBinding) := d.versions.zip d.bindings

/-- Change the projection and log the change. -/
def move (d : Dossier) (c : Capability) (event : CapabilityStatusEvent) : Dossier :=
  { d with capabilities := d.capabilities.map fun _ => c, events := d.events ++ [event] }

def addVersion (d : Dossier) (version : CapabilityVersion) (binding : McpToolBinding) : Dossier :=
  { d with versions := d.versions ++ [version], bindings := d.bindings ++ [binding] }

/-- A recorded version describes the tool, and the enabled version does not unless it is this
one. -/
structure Finds (R : RegistryPlatform) (observed : Observed) (tool : ToolDefinition)
    (d : Dossier) (enabledVersionId : Option Uuid) (versionId : Uuid) : Prop where
  recorded : ∃ row ∈ d.recorded, row.1.id = versionId ∧ R.Describes observed tool row
  preferred : ∀ row ∈ d.recorded, R.Describes observed tool row →
    enabledVersionId = some row.1.id → row.1.id = versionId

/-- The version that describes the tool is in force. -/
structure Stands (R : RegistryPlatform) (observed : Observed) (tool : ToolDefinition)
    (d : Dossier) (c : Capability) (versionId : Uuid) : Prop where
  capabilities : d.capabilities = [c]
  current : c.Current versionId
  finds : d.Finds R observed tool c.enabledVersionId versionId

/-! ## Steps -/

/-- A version that may be added to the record of a capability. -/
structure Adds (R : RegistryPlatform) (d : Dossier) (c : Capability) (version : CapabilityVersion)
    (binding : McpToolBinding) : Prop where
  sequence : version.sequence = d.versions.length + 1
  bound : binding.capabilityVersionId = version.id
  workspaceId : version.workspaceId = c.workspaceId
  workspaceId' : binding.workspaceId = c.workspaceId
  connectionId : binding.connectionId = c.connectionId
  new : ∀ row ∈ d.recorded, ¬ R.Agree row (version, binding)

/-- What may happen to the rows of a capability, by discovery or by a reviewer's decision. -/
inductive Step (R : RegistryPlatform) : Option Decision → Dossier → Dossier → Prop where
  /-- Discovery sees the tool for the first time. -/
  | discover {c version binding event} : c.status = .pendingReview →
      c.pendingVersionId = some version.id → c.enabledVersionId = none → c.statusEpoch = 1 →
      event.Logs c → Adds R empty c version binding →
      Step R none empty ⟨[c], [version], [binding], [event]⟩
  /-- Discovery records metadata that it has not seen of the tool. -/
  | record {d c version binding} : d.capabilities = [c] → Adds R d c version binding →
      Step R none d (d.addVersion version binding)
  /-- Discovery moves the projection. It does not touch the enabled version, and it does not lift
  a manual disable. -/
  | observe {d c c' event} : d.capabilities = [c] → c'.Succeeds c → c'.Coherent →
      c'.enabledVersionId = c.enabledVersionId →
      (∀ v, c'.pendingVersionId = some v → v ∈ d.versions.map CapabilityVersion.id) →
      (c.status = .disabled → c'.status = .disabled) → event.Logs c' →
      Step R none d (d.move c' event)
  | enable {d c c' versionId row event} : d.capabilities = [c] → c'.Succeeds c →
      c'.status = .enabled → c'.enabledVersionId = some versionId → c'.pendingVersionId = none →
      row ∈ d.recorded → row.1.id = versionId → row.1.schemaSupported = true →
      row.2.protocolRevision = qualifiedProtocolRevision → event.Logs c' →
      Step R (some (.enable versionId)) d (d.move c' event)
  | disable {d c c' event} : d.capabilities = [c] → c'.Succeeds c → c'.status = .disabled →
      c'.enabledVersionId = c.enabledVersionId → c'.pendingVersionId = c.pendingVersionId →
      event.Logs c' → Step R (some .disable) d (d.move c' event)

/-! ## The invariant -/

/-- The rows of an existing capability belong together. -/
structure Valid (R : RegistryPlatform) (d : Dossier) (c : Capability) : Prop where
  capabilities : d.capabilities = [c]
  coherent : c.Coherent
  numbered : Numbered CapabilityStatusEvent.statusEpoch d.events
  epoch : c.statusEpoch = d.events.length
  last : ∃ older event, d.events = older ++ [event] ∧ event.Logs c
  sequences : Numbered CapabilityVersion.sequence d.versions
  bound : d.bindings.map McpToolBinding.capabilityVersionId =
    d.versions.map CapabilityVersion.id
  distinct : d.recorded.Pairwise fun a b => ¬ R.Agree a b
  versions : ∀ v ∈ d.versions, v.workspaceId = c.workspaceId
  bindings : ∀ b ∈ d.bindings, b.workspaceId = c.workspaceId ∧ b.connectionId = c.connectionId
  pending : ∀ v, c.pendingVersionId = some v → v ∈ d.versions.map CapabilityVersion.id
  reviewed : ∀ v, c.enabledVersionId = some v → ∃ row ∈ d.recorded, row.1.id = v ∧
    row.1.schemaSupported = true ∧ row.2.protocolRevision = qualifiedProtocolRevision

/-- What a later state of the rows owes to an earlier one. -/
structure Continues (d : Dossier) (c : Capability) (d' : Dossier) (c' : Capability) : Prop where
  id : c'.id = c.id
  workspaceId : c'.workspaceId = c.workspaceId
  connectionId : c'.connectionId = c.connectionId
  toolIdentity : c'.toolIdentity = c.toolIdentity
  epoch : c.statusEpoch ≤ c'.statusEpoch
  kept : c'.statusEpoch = c.statusEpoch → c' = c
  versions : d.versions <+: d'.versions
  bindings : d.bindings <+: d'.bindings
  events : d.events <+: d'.events

theorem Continues.refl (d : Dossier) (c : Capability) : Continues d c d c :=
  ⟨rfl, rfl, rfl, rfl, Nat.le_refl _, fun _ => rfl, List.prefix_rfl, List.prefix_rfl,
    List.prefix_rfl⟩

theorem Continues.trans {d d' d'' : Dossier} {c c' c'' : Capability}
    (h : Continues d c d' c') (g : Continues d' c' d'' c'') : Continues d c d'' c'' where
  id := g.id.trans h.id
  workspaceId := g.workspaceId.trans h.workspaceId
  connectionId := g.connectionId.trans h.connectionId
  toolIdentity := g.toolIdentity.trans h.toolIdentity
  epoch := h.epoch.trans g.epoch
  kept same := by
    have first := h.epoch
    have second := g.epoch
    rw [g.kept (by omega), h.kept (by omega)]
  versions := h.versions.trans g.versions
  bindings := h.bindings.trans g.bindings
  events := h.events.trans g.events

section Sound
variable {R : RegistryPlatform} {d d' : Dossier} {c c' : Capability}
  {event : CapabilityStatusEvent} {version : CapabilityVersion} {binding : McpToolBinding}
  {decision : Option Decision}

theorem Valid.length_eq (h : Valid R d c) : d.versions.length = d.bindings.length := by
  simpa using (congrArg List.length h.bound).symm

theorem Valid.recorded_addVersion (h : Valid R d c) :
    (d.addVersion version binding).recorded = d.recorded ++ [(version, binding)] := by
  unfold recorded addVersion
  rw [List.zip_append h.length_eq]
  rfl

theorem Valid.move (h : Valid R d c) (succeeds : c'.Succeeds c) (coherent : c'.Coherent)
    (pending : ∀ v, c'.pendingVersionId = some v → v ∈ d.versions.map CapabilityVersion.id)
    (reviewed : ∀ v, c'.enabledVersionId = some v → ∃ row ∈ d.recorded, row.1.id = v ∧
      row.1.schemaSupported = true ∧ row.2.protocolRevision = qualifiedProtocolRevision)
    (logs : event.Logs c') : Valid R (d.move c' event) c' ∧ Continues d c (d.move c' event) c' := by
  constructor
  · exact {
      capabilities := by simp [Dossier.move, h.capabilities]
      coherent := coherent
      numbered := h.numbered.append (by rw [logs.epoch, succeeds.epoch, h.epoch])
      epoch := by simp [Dossier.move, succeeds.epoch, h.epoch]
      last := ⟨d.events, event, rfl, logs⟩
      sequences := h.sequences
      bound := h.bound
      distinct := h.distinct
      versions := fun v mem => (h.versions v mem).trans succeeds.workspaceId.symm
      bindings := fun b mem => by
        rw [succeeds.workspaceId, succeeds.connectionId]
        exact h.bindings b mem
      pending := pending
      reviewed := reviewed }
  · exact { Continues.refl d c with
      id := succeeds.id
      workspaceId := succeeds.workspaceId
      connectionId := succeeds.connectionId
      toolIdentity := succeeds.toolIdentity
      epoch := succeeds.epoch ▸ Nat.le_succ _
      kept := fun same => by
        rw [succeeds.epoch] at same
        exact (Nat.succ_ne_self _ same).elim
      events := List.prefix_append _ _ }

theorem Valid.addVersion (h : Valid R d c) (adds : Adds R d c version binding) :
    Valid R (d.addVersion version binding) c ∧
      Continues d c (d.addVersion version binding) c := by
  have rows : (d.addVersion version binding).recorded = d.recorded ++ [(version, binding)] :=
    h.recorded_addVersion
  constructor
  · exact { h with
      sequences := h.sequences.append adds.sequence
      bound := by simp [Dossier.addVersion, h.bound, adds.bound]
      distinct := by
        rw [rows]
        refine List.pairwise_append.mpr ⟨h.distinct, List.pairwise_singleton _ _, ?_⟩
        intro row mem new hnew
        rw [List.mem_singleton.mp hnew]
        exact adds.new row mem
      versions := fun v mem => by
        rcases List.mem_append.mp mem with mem | mem
        · exact h.versions v mem
        · rw [List.mem_singleton.mp mem]
          exact adds.workspaceId
      bindings := fun b mem => by
        rcases List.mem_append.mp mem with mem | mem
        · exact h.bindings b mem
        · rw [List.mem_singleton.mp mem]
          exact ⟨adds.workspaceId', adds.connectionId⟩
      pending := fun v hv => by
        rw [Dossier.addVersion, List.map_append]
        exact List.mem_append_left _ (h.pending v hv)
      reviewed := fun v hv => by
        obtain ⟨row, mem, rest⟩ := h.reviewed v hv
        exact ⟨row, rows ▸ List.mem_append_left _ mem, rest⟩ }
  · exact { Continues.refl d c with
      versions := List.prefix_append _ _
      bindings := List.prefix_append _ _ }

/-- A capability that has just been discovered. -/
theorem valid_discovered (status : c.status = .pendingReview)
    (pending : c.pendingVersionId = some version.id) (enabled : c.enabledVersionId = none)
    (epoch : c.statusEpoch = 1) (logs : event.Logs c) (adds : Adds R empty c version binding) :
    Valid R ⟨[c], [version], [binding], [event]⟩ c where
  capabilities := rfl
  coherent := ⟨by simp [status], by simp [pending], by simp [enabled]⟩
  numbered := by simp [Numbered, logs.epoch, epoch]
  epoch := epoch
  last := ⟨[], event, rfl, logs⟩
  sequences := by simp [Numbered, adds.sequence, empty]
  bound := by simp [adds.bound]
  distinct := List.pairwise_singleton _ _
  versions v mem := by
    rw [List.mem_singleton.mp mem]
    exact adds.workspaceId
  bindings b mem := by
    rw [List.mem_singleton.mp mem]
    exact ⟨adds.workspaceId', adds.connectionId⟩
  pending v hv := by simp_all
  reviewed v hv := by simp [enabled] at hv

theorem Valid.eq_of_capabilities (h : Valid R d c) (hc : d.capabilities = [c']) : c' = c := by
  rw [h.capabilities] at hc
  exact (List.cons.inj hc).1.symm

theorem Step.sound (step : Step R decision d d') (h : Valid R d c) :
    ∃ c', Valid R d' c' ∧ Continues d c d' c' := by
  cases step with
  | discover => cases h.capabilities
  | record hc adds =>
    obtain rfl := h.eq_of_capabilities hc
    exact ⟨_, h.addVersion adds⟩
  | observe hc succeeds coherent enabled pending _ logs =>
    obtain rfl := h.eq_of_capabilities hc
    exact ⟨_, h.move succeeds coherent pending (enabled.symm ▸ h.reviewed) logs⟩
  | @enable _ _ c' versionId row _ hc succeeds status enabled pending mem hid supported qualified
      logs =>
    obtain rfl := h.eq_of_capabilities hc
    refine ⟨_, h.move succeeds ⟨fun _ => ?_, ?_, ?_⟩ ?_ (fun v hv => ?_) logs⟩
    · simp [enabled, pending]
    · simp [status]
    · simp [pending]
    · simp [pending]
    · rw [enabled] at hv
      obtain rfl := Option.some.inj hv
      exact ⟨row, mem, hid, supported, qualified⟩
  | disable hc succeeds status enabled pending logs =>
    obtain rfl := h.eq_of_capabilities hc
    refine ⟨_, h.move succeeds ⟨?_, ?_, ?_⟩ ?_ (enabled.symm ▸ h.reviewed) logs⟩
    · simp [status]
    · simp [status]
    · rw [enabled, pending]
      exact h.coherent.distinct
    · rw [pending]
      exact h.pending

theorem Finds.move {observed : Observed} {tool : ToolDefinition} {enabledVersionId : Option Uuid}
    {versionId : Uuid} (h : d.Finds R observed tool enabledVersionId versionId) :
    (d.move c event).Finds R observed tool enabledVersionId versionId :=
  ⟨h.recorded, h.preferred⟩

/-- A version that describes the tool is added where none did. -/
theorem Valid.finds_addVersion (h : Valid R d c) {observed : Observed} {tool : ToolDefinition}
    (missed : ∀ row ∈ d.recorded, ¬ R.Describes observed tool row)
    (describes : R.Describes observed tool (version, binding)) :
    (d.addVersion version binding).Finds R observed tool c.enabledVersionId version.id := by
  have rows : (d.addVersion version binding).recorded = d.recorded ++ [(version, binding)] :=
    h.recorded_addVersion
  constructor
  · refine ⟨(version, binding), ?_, rfl, describes⟩
    rw [rows]
    exact List.mem_append_right _ (List.mem_singleton_self _)
  · intro row mem describes' _
    rw [rows] at mem
    rcases List.mem_append.mp mem with old | new
    · exact (missed row old describes').elim
    · rw [List.mem_singleton.mp new]

/-! ## Versions and their bindings -/

/-- Every recorded version is bound by the binding it stands beside. -/
theorem Valid.bound_of_recorded (h : Valid R d c) (mem : (version, binding) ∈ d.recorded) :
    binding.capabilityVersionId = version.id := by
  obtain ⟨i, hi, hrow⟩ := List.getElem_of_mem mem
  have rows := congrArg (fun ids => ids[i]?) h.bound
  simp only [recorded, List.getElem_zip, Prod.mk.injEq] at hrow
  simp only [recorded, List.length_zip] at hi
  simp only [List.getElem?_map] at rows
  rw [List.getElem?_eq_getElem (by omega), List.getElem?_eq_getElem (by omega), hrow.1, hrow.2]
    at rows
  exact Option.some.inj rows

theorem Valid.recorded_of_version (h : Valid R d c) (mem : version ∈ d.versions) :
    ∃ binding, (version, binding) ∈ d.recorded := by
  obtain ⟨i, hi, rfl⟩ := List.getElem_of_mem mem
  have length := h.length_eq
  exact ⟨d.bindings[i], List.mem_iff_getElem.mpr
    ⟨i, by simpa [recorded] using ⟨hi, length ▸ hi⟩, by simp [recorded]⟩⟩

theorem Valid.recorded_of_binding (h : Valid R d c) (mem : binding ∈ d.bindings) :
    ∃ version, (version, binding) ∈ d.recorded := by
  obtain ⟨i, hi, rfl⟩ := List.getElem_of_mem mem
  have length := h.length_eq
  exact ⟨d.versions[i], List.mem_iff_getElem.mpr
    ⟨i, by simpa [recorded] using ⟨length ▸ hi, hi⟩, by simp [recorded]⟩⟩

theorem mem_versions_of_recorded (mem : (version, binding) ∈ d.recorded) :
    version ∈ d.versions := (List.of_mem_zip mem).1

theorem mem_bindings_of_recorded (mem : (version, binding) ∈ d.recorded) :
    binding ∈ d.bindings := (List.of_mem_zip mem).2

/-- With distinct versions, a version has one binding. -/
theorem Valid.eq_of_bound (h : Valid R d c) (distinct : (d.versions.map CapabilityVersion.id).Nodup)
    {binding' : McpToolBinding} (hb : binding ∈ d.bindings) (hb' : binding' ∈ d.bindings)
    (same : binding.capabilityVersionId = binding'.capabilityVersionId) : binding = binding' := by
  rw [← h.bound] at distinct
  exact List.inj_on_of_nodup_map distinct hb hb' same

/-! ## What one operation does -/

/-- What an operation does to the rows of a capability: discovery takes any number of steps, a
reviewer one. -/
def Moves (R : RegistryPlatform) : Option Decision → Dossier → Dossier → Prop
  | none => Relation.ReflTransGen (Step R none)
  | some decision => Step R (some decision)

theorem Moves.continues (h : Moves R decision d d') (valid : Valid R d c) :
    ∃ c', Valid R d' c' ∧ Continues d c d' c' := by
  cases decision with
  | some decision => exact Step.sound h valid
  | none =>
    change Relation.ReflTransGen _ _ _ at h
    induction h with
    | refl => exact ⟨c, valid, .refl d c⟩
    | tail _ last ih =>
      obtain ⟨c', valid', continues⟩ := ih
      obtain ⟨c'', valid'', continues'⟩ := last.sound valid'
      exact ⟨c'', valid'', continues.trans continues'⟩

/-- A capability comes into being with rows that belong together. -/
theorem Step.of_empty (step : Step R decision empty d') : ∃ c', Valid R d' c' := by
  generalize hd : empty = d at step
  cases step with
  | discover status pending enabled epoch logs adds =>
    exact ⟨_, valid_discovered status pending enabled epoch logs adds⟩
  | record hc | observe hc | enable hc | disable hc =>
    subst hd
    cases hc

theorem Moves.of_empty (h : Moves R decision empty d') : d' = empty ∨ ∃ c', Valid R d' c' := by
  cases decision with
  | some decision => exact .inr (Step.of_empty h)
  | none =>
    change Relation.ReflTransGen _ _ _ at h
    induction h with
    | refl => exact .inl rfl
    | tail _ last ih =>
      rcases ih with rfl | ⟨c', valid⟩
      · exact .inr last.of_empty
      · obtain ⟨c'', valid', -⟩ := last.sound valid
        exact .inr ⟨c'', valid'⟩

end Sound

end Dossier

end Modall
