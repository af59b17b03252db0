import Mathlib
import Modall.Execution.Safety
import Modall.Registry.System

/-!
# Review

What is enabled has been reviewed. `Dossier.Follows` ties the rows of a capability to the last
decision about it: discovery may add versions, park a drifted tool or bring it back, but the
enabled version is the one the last `enable` named, and a `disable` stays until the next one.
The log of statuses tells the same story, epoch by epoch.
-/
namespace Modall
open Library

/-! ## The status log -/

section Log
variable {R : RegistryPlatform} {d : Dossier} {c : Capability}

/-- The event with the present epoch logs the present status. -/
theorem Dossier.Valid.logs (h : d.Valid R c) {event : CapabilityStatusEvent}
    (mem : event ∈ d.events) (epoch : event.statusEpoch = c.statusEpoch) : event.Logs c := by
  obtain ⟨older, last, split, logs⟩ := h.last
  have there : last ∈ d.events := by simp [split]
  rw [h.numbered.eq_of_number_eq mem there (epoch.trans logs.epoch.symm)]
  exact logs

theorem Dossier.Valid.exists_logs (h : d.Valid R c) : ∃ event ∈ d.events, event.Logs c := by
  obtain ⟨older, last, split, logs⟩ := h.last
  exact ⟨last, by simp [split], logs⟩

/-- Two recorded versions that agree are one. -/
theorem Dossier.Valid.eq_of_agree (h : d.Valid R c) {a b : CapabilityVersion × McpToolBinding}
    (ha : a ∈ d.recorded) (hb : b ∈ d.recorded) (agree : R.Agree a b) : a = b := by
  by_contra differ
  have : Std.Symm fun a b => ¬ R.Agree a b := ⟨fun _ _ apart agree => apart agree.symm⟩
  exact h.distinct.forall ha hb differ agree

end Log

section StatusLog
variable {P : Platform} {R : RegistryPlatform} {limits : ExecutionLimits} {w : World}
  {c : Capability}

/-- The rows about a capability in every world of an installation: its events count its epochs,
the newest one shows what it is, its status fits its two versions, and its versions are numbered
and tell apart what discovery has seen. -/
theorem capability_status_log (h : w.Installed P R limits)
    (mem : c ∈ w.store.registry.capabilities) :
    let events := w.store.registry.statusEvents.filter fun event => event.capabilityId == c.id
    let versions := w.store.registry.capabilityVersions.filter fun v => v.capabilityId == c.id
    events.map CapabilityStatusEvent.statusEpoch = List.range' 1 c.statusEpoch ∧
      (∃ event ∈ events, event.statusEpoch = c.statusEpoch) ∧
      (∀ event ∈ events, event.statusEpoch = c.statusEpoch → event.status = c.status ∧
        event.capabilityVersionId = c.pendingVersionId.or c.enabledVersionId) ∧
      (c.status = .enabled → c.enabledVersionId ≠ none ∧ c.pendingVersionId = none) ∧
      (c.status = .pendingReview → c.pendingVersionId ≠ none) ∧
      (∀ v, c.pendingVersionId = some v → c.enabledVersionId ≠ some v) ∧
      versions.map CapabilityVersion.sequence = List.range' 1 versions.length ∧
      (∀ v ∈ versions, ∃! binding, binding ∈ w.store.registry.bindings ∧
        binding.capabilityVersionId = v.id) ∧
      ∀ v ∈ versions, ∀ v' ∈ versions, ∀ binding ∈ w.store.registry.bindings,
        ∀ binding' ∈ w.store.registry.bindings, binding.capabilityVersionId = v.id →
        binding'.capabilityVersionId = v'.id → R.Agree (v, binding) (v', binding') → v = v' := by
  intro events versions
  have catalogued := h.kept.registry.catalogued
  have valid := catalogued.of_mem mem
  have known (v : CapabilityVersion) (hv : v ∈ versions) :
      v ∈ w.store.registry.capabilityVersions ∧ v.capabilityId = c.id :=
    Registry.mem_dossier_versions.mp hv
  refine ⟨?_, ?_, ?_, valid.coherent.enabled, valid.coherent.pendingReview,
    valid.coherent.distinct, valid.sequences, ?_, ?_⟩
  · rw [valid.epoch]
    exact valid.numbered
  · obtain ⟨event, there, logs⟩ := valid.exists_logs
    exact ⟨event, there, logs.epoch⟩
  · intro event there epoch
    have logs := valid.logs there epoch
    exact ⟨logs.status, logs.version⟩
  · intro v hv
    obtain ⟨binding, row⟩ := valid.recorded_of_version hv
    have bound := Registry.mem_dossier_bindings.mp (Dossier.mem_bindings_of_recorded row)
    refine ⟨binding, ⟨bound.1, valid.bound_of_recorded row⟩, ?_⟩
    rintro other ⟨there, same⟩
    exact catalogued.eq_of_bound there bound.1 (same.trans (valid.bound_of_recorded row).symm)
  · intro v hv v' hv' binding hb binding' hb' bound bound' agree
    have row := catalogued.recorded (known v hv).1 hb bound
    have row' := catalogued.recorded (known v' hv').1 hb' bound'
    rw [(known v hv).2] at row
    rw [(known v' hv').2] at row'
    exact (Prod.mk.inj (valid.eq_of_agree row row' agree)).1

end StatusLog

/-! ## Decisions -/

namespace Dossier

/-- What the last decision about a capability has left of it. -/
def Follows (d : Dossier) : Option Decision → Prop
  | none => ∀ c ∈ d.capabilities, c.enabledVersionId = none
  | some (.enable versionId) => ∃ c, d.capabilities = [c] ∧ c.enabledVersionId = some versionId
  | some .disable => ∃ c, d.capabilities = [c] ∧ c.status = .disabled

section Follows
variable {R : RegistryPlatform} {d d' : Dossier} {c c' : Capability}
  {event : CapabilityStatusEvent} {last decision : Option Decision}

/-- Discovery neither enables a version nor lifts a manual disable. -/
theorem Follows.move (h : d.Follows last) (hc : d.capabilities = [c])
    (enabled : c'.enabledVersionId = c.enabledVersionId)
    (sticky : c.status = .disabled → c'.status = .disabled) : (d.move c' event).Follows last := by
  have moved : (d.move c' event).capabilities = [c'] := by simp [Dossier.move, hc]
  rcases last with _ | versionId | _
  · intro row mem
    rw [moved, List.mem_singleton] at mem
    rw [mem, enabled]
    exact h c (by simp [hc])
  · obtain ⟨old, hold, version⟩ := h
    obtain rfl : old = c := by simpa [hold] using hc
    exact ⟨c', moved, enabled.trans version⟩
  · obtain ⟨old, hold, disabled⟩ := h
    obtain rfl : old = c := by simpa [hold] using hc
    exact ⟨c', moved, sticky disabled⟩

theorem Step.follows (step : Step R decision d d') (h : d.Follows last) :
    d'.Follows (decision.or last) := by
  cases step with
  | discover status pending enabled =>
    match last with
    | none =>
      intro row mem
      rw [List.mem_singleton.mp mem]
      exact enabled
    | some (.enable _) | some .disable =>
      obtain ⟨_, none, -⟩ := h
      cases none
  | record => exact h
  | observe hc _ _ enabled _ sticky => exact h.move hc enabled sticky
  | @enable _ _ c' _ _ _ hc _ _ enabled => exact ⟨c', by simp [Dossier.move, hc], enabled⟩
  | @disable _ _ c' _ hc _ status => exact ⟨c', by simp [Dossier.move, hc], status⟩

theorem Moves.follows (moves : Moves R decision d d') (h : d.Follows last) :
    d'.Follows (decision.or last) := by
  cases decision with
  | some decision => exact Step.follows moves h
  | none =>
    change Relation.ReflTransGen _ _ _ at moves
    induction moves with
    | refl => exact h
    | tail _ step ih => exact step.follows ih

/-- While nobody enables the capability it stays disabled. -/
theorem Moves.disabled (moves : Moves R decision d d') (h : d.Follows (some .disable))
    (others : ∀ versionId, decision ≠ some (.enable versionId)) :
    d'.Follows (some .disable) := by
  have follows := moves.follows h
  match decision with
  | none | some .disable => exact follows
  | some (.enable versionId) => exact (others versionId rfl).elim

end Follows

end Dossier

/-- The last decision that was taken about a capability. -/
def lastDecision (k : Uuid) (es : List Event) : Option Decision :=
  es.foldl (fun last e => (Registry.decisionAt e.decision k).or last) none

theorem lastDecision_append (k : Uuid) (es : List Event) (e : Event) :
    lastDecision k (es ++ [e]) = (Registry.decisionAt e.decision k).or (lastDecision k es) := by
  simp [lastDecision]

theorem Registry.decisionAt_eq_some {decision : Option (Uuid × Decision)} {k : Uuid}
    {d : Decision} : decisionAt decision k = some d ↔ decision = some (k, d) := by
  unfold decisionAt
  constructor
  · intro h
    obtain ⟨⟨id, d'⟩, rfl, hd⟩ := Option.bind_eq_some_iff.mp h
    grind
  · rintro rfl
    simp

/-- The last decision was taken in some step, and none after it. -/
theorem lastDecision_eq_some {k : Uuid} {es : List Event} {d : Decision}
    (h : lastDecision k es = some d) :
    ∃ before e after, es = before ++ e :: after ∧ e.decision = some (k, d) ∧
      ∀ e' ∈ after, ∀ d', e'.decision ≠ some (k, d') := by
  induction es using List.reverseRecOn with
  | nil => cases h
  | append_singleton es e ih =>
    rw [lastDecision_append] at h
    cases now : Registry.decisionAt e.decision k with
    | some d' =>
      rw [now, Option.some_or] at h
      obtain rfl := Option.some.inj h
      exact ⟨es, e, [], rfl, Registry.decisionAt_eq_some.mp now, by simp⟩
    | none =>
      rw [now, Option.none_or] at h
      obtain ⟨before, e₀, after, rfl, taken, later⟩ := ih h
      refine ⟨before, e₀, after ++ [e], by simp, taken, ?_⟩
      intro e' mem d' decided
      rcases List.mem_append.mp mem with mem | mem
      · exact later e' mem d' decided
      · rw [List.mem_singleton.mp mem] at decided
        rw [Registry.decisionAt_eq_some.mpr decided] at now
        cases now

section Decisions
variable {P : Platform} {R : RegistryPlatform} {limits : ExecutionLimits} {w₀ w w' : World}
  {es : List Event} {k : Uuid}

/-- Every capability follows the last decision about it. -/
theorem World.Founded.follows (founded : w₀.Founded) (path : Path (Transition P R limits) w₀ es w)
    (k : Uuid) : (w.store.registry.dossier k).Follows (lastDecision k es) := by
  induction path with
  | nil =>
    intro c mem
    rw [Registry.mem_dossier_capabilities, founded.bare.capabilities] at mem
    cases mem.1
  | snoc first last ih =>
    have kept := first.invariant (fun _ _ _ kept step => step.kept kept) founded.kept
    obtain ⟨drawn, -, -, effect⟩ := last.effect kept.ledger kept.registry
    rw [lastDecision_append]
    exact (effect.moves k).follows ih

/-- A disabled capability stays so while nobody enables it. -/
theorem disabled_along (path : Path (Transition P R limits) w es w') (kept : w.Kept R limits)
    (disabled : (w.store.registry.dossier k).Follows (some .disable))
    (others : ∀ e ∈ es, ∀ versionId, e.decision ≠ some (k, .enable versionId)) :
    (w'.store.registry.dossier k).Follows (some .disable) := by
  induction path with
  | nil => exact disabled
  | @snoc _ _ es e first last ih =>
    have kept := first.invariant (fun _ _ _ kept step => step.kept kept) kept
    obtain ⟨drawn, -, -, effect⟩ := last.effect kept.ledger kept.registry
    refine (effect.moves k).disabled (ih fun e mem => others e (List.mem_append_left _ mem)) ?_
    intro versionId decided
    exact others e (by simp) versionId (Registry.decisionAt_eq_some.mp decided)

/-- What is enabled was enabled by a reviewer at that version, with no decision since; and what
was disabled is disabled until a reviewer enables it. -/
theorem no_tool_without_review (founded : w₀.Founded)
    (path : Path (Transition P R limits) w₀ es w) :
    (∀ c ∈ w.store.registry.capabilities, c.status = .enabled →
      ∃ versionId before e after, c.enabledVersionId = some versionId ∧
        es = before ++ e :: after ∧ e.decision = some (c.id, .enable versionId) ∧
        ∀ e' ∈ after, ∀ d, e'.decision ≠ some (c.id, d)) ∧
      ∀ c ∈ w.store.registry.capabilities, c.status = .disabled →
        ∀ es' w', Path (Transition P R limits) w es' w' →
          (∀ e ∈ es', ∀ versionId, e.decision ≠ some (c.id, .enable versionId)) →
          ∃ c' ∈ w'.store.registry.capabilities, c'.id = c.id ∧ c'.status = .disabled := by
  have kept : w.Kept R limits :=
    path.invariant (fun _ _ _ kept step => step.kept kept) founded.kept
  constructor
  · intro c mem enabled
    have valid := kept.registry.catalogued.of_mem mem
    have follows := founded.follows path c.id
    match last : lastDecision c.id es with
    | none =>
      rw [last] at follows
      have never := follows c (valid.capabilities ▸ List.mem_singleton_self c)
      exact ((valid.coherent.enabled enabled).1 never).elim
    | some .disable =>
      rw [last] at follows
      obtain ⟨c', hc', disabled⟩ := follows
      rw [valid.eq_of_capabilities hc', enabled] at disabled
      cases disabled
    | some (.enable versionId) =>
      rw [last] at follows
      obtain ⟨c', hc', version⟩ := follows
      rw [valid.eq_of_capabilities hc'] at version
      obtain ⟨before, e, after, split, taken, later⟩ := lastDecision_eq_some last
      exact ⟨versionId, before, e, after, version, split, taken, later⟩
  · intro c mem disabled es' w' path' others
    have valid := kept.registry.catalogued.of_mem mem
    obtain ⟨c', hc', status⟩ := disabled_along path' kept ⟨c, valid.capabilities, disabled⟩ others
    obtain ⟨there, hid⟩ := Registry.mem_dossier_capabilities.mp
      (hc' ▸ List.mem_singleton_self c' : c' ∈ (w'.store.registry.dossier c.id).capabilities)
    exact ⟨c', there, hid, status⟩

end Decisions

/-! ## A small installation

A connection is created and refreshed, and the tool that its server offers is reviewed. -/

namespace Installation

/-- Schemas are compared as far as the sample tells them apart. -/
def registryPlatform : RegistryPlatform where
  endpointError _ _ _ _ := none
  containsObviousSecret _ := false
  schemaError _ _ := none
  jsonEqual a b := a.isObject == b.isObject
  jsonEqual_refl _ := beq_self_eq_true _
  jsonEqual_symm _ _ := Bool.beq_comm

def connectionService : ConnectionService := ⟨"production", false, nofun⟩
def admin : WorkspaceContext := ⟨1, 2, .admin⟩

def refreshLease : RefreshLease := ⟨8, 2, "worker", 1, 3, 4, 0, 1⟩

def tool : ToolDefinition :=
  ⟨"search", "search", "search", none, .obj [], none, String.ofList (List.replicate 64 'd'), true⟩

def discovery : DiscoveryResult :=
  ⟨qualifiedProtocolRevision, [tool], .obj [], 2, "digest", by decide⟩

def create : RegistryCall :=
  .createConnection connectionService admin "tools" ⟨"https://tools", none, "1"⟩ ⟨none, 20⟩ 3 4
def enqueue : RegistryCall := .enqueue admin 3 8
def claim : RegistryCall := .claim admin 8 "worker" 1000000
def draws : PublicationDraws := ⟨21, 5, 22, fun _ => ⟨6, 7, 23⟩⟩
def publish : RegistryCall := .publishSuccess admin refreshLease discovery draws
def enable : RegistryCall := .enableCapability admin 6 7 ⟨none, 24⟩
def disable : RegistryCall := .disableCapability admin 6 7 ⟨none, 25⟩

def founded : World :=
  ⟨⟨⟨[1], [⟨1, 2, .admin⟩], [], [], [], [], [], [], [], [], [], [], []⟩, none, [], [], [], [], [],
    [], [], []⟩, 0, [], []⟩

def created : World := founded.revised registryPlatform [] create
def refreshing : World := created.revised registryPlatform [] enqueue
def leased : World := refreshing.revised registryPlatform [] claim
def published : World := leased.revised registryPlatform [] publish
def enabled : World := published.revised registryPlatform [] enable
def disabled : World := enabled.revised registryPlatform [] disable

theorem founded_founded : founded.Founded := ⟨fun _ => rfl, ⟨rfl, rfl, rfl, rfl, rfl, rfl, rfl, rfl⟩⟩

theorem whole (call : RegistryCall) (w : World) (fresh : (call.draws ++ w.drawn).Nodup)
    (whole : call.standalone = false) :
    WholeTransition Sample.platform registryPlatform .default w
      (w.revision registryPlatform [] call) (w.revised registryPlatform [] call) := by
  obtain ⟨distinct, -, disjoint⟩ := List.nodup_append.mp fresh
  refine World.whole_revised _ _ _ [] call w (fun id new known => ?_) distinct whole
  exact disjoint id new id known rfl

theorem leases : Path (WholeTransition Sample.platform registryPlatform .default) founded
    [founded.revision registryPlatform [] create, created.revision registryPlatform [] enqueue,
      refreshing.revision registryPlatform [] claim] leased :=
  .snoc (.snoc (.snoc (.nil _) (whole create founded (by decide +kernel) rfl))
    (whole enqueue created (by decide +kernel) rfl)) (whole claim refreshing (by decide +kernel) rfl)

theorem reviews : Path (WholeTransition Sample.platform registryPlatform .default) leased
    [leased.revision registryPlatform [] publish, published.revision registryPlatform [] enable]
    enabled :=
  .snoc (.snoc (.nil _) (whole publish leased (by decide +kernel) rfl))
    (whole enable published (by decide +kernel) rfl)

theorem disables : WholeTransition Sample.platform registryPlatform .default enabled
    (enabled.revision registryPlatform [] disable) disabled :=
  whole disable enabled (by decide +kernel) rfl

theorem leased_operated : leased.Operated Sample.platform registryPlatform .default :=
  ⟨founded, _, founded_founded, leases⟩

theorem enabled_operated : enabled.Operated Sample.platform registryPlatform .default :=
  leased_operated.extend reviews

def capability : Capability := ⟨6, 1, 3, "search", none, some 7, .disabled, 3⟩

end Installation

theorem capability_status_log_sample :
    Installation.capability ∈ Installation.disabled.store.registry.capabilities ∧
      (Installation.disabled.store.registry.statusEvents.filter fun event =>
        event.capabilityId == 6).map CapabilityStatusEvent.statusEpoch = List.range' 1 3 := by
  have mem : Installation.capability ∈ Installation.disabled.store.registry.capabilities := by
    decide +kernel
  have reached := Installation.enabled_operated.extend (.single Installation.disables)
  exact ⟨mem, (capability_status_log (World.Operated.installed reached) mem).1⟩

theorem no_tool_without_review_sample :
    { Installation.capability with status := .enabled, statusEpoch := 2 } ∈
      Installation.enabled.store.registry.capabilities ∧
    Installation.capability ∈ Installation.disabled.store.registry.capabilities ∧
    ∀ es w, Path (Transition Sample.platform Installation.registryPlatform .default)
      Installation.disabled es w → (∀ e ∈ es, ∀ v, e.decision ≠ some (6, .enable v)) →
      ∃ c ∈ w.store.registry.capabilities, c.id = 6 ∧ c.status = .disabled := by
  have mem : Installation.capability ∈ Installation.disabled.store.registry.capabilities := by
    decide +kernel
  have path := ((Installation.leases.append Installation.reviews).snoc Installation.disables).mono
    fun _ _ _ step => step.1
  refine ⟨by decide +kernel, mem, ?_⟩
  exact (no_tool_without_review Installation.founded_founded path).2 _ mem rfl

end Modall
