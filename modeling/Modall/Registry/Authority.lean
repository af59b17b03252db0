import Modall.Execution.Leases
import Modall.Registry.Executable

/-!
# The authority a run is pinned to

A run is admitted against a capability and a connection, and it keeps their epochs. The fences
and the claim compare these epochs with the present ones. That is enough: a change of the
capability's projection counts its epoch up, and so does an intervention at the connection, while
a publication that leaves the connection's epoch alone also leaves a settled connection at the
version it had verified. So when the epochs agree, nothing has happened in between, not even
something that was undone again.
-/
namespace Modall
open Library

namespace Event

/-- The run that passed a fence in this step, or that a lease was granted for. -/
def authorized : Event → Option Uuid
  | .ledger _ (.fenceSession lease) (.ok _) => some lease.runId
  | .ledger _ (.fenceDispatch lease) (.ok _) => some lease.runId
  | .ledger _ _ (.ok (.claim (some lease) _)) => some lease.runId
  | _ => none

/-- The connection that was disabled or enabled in this step. -/
def switched : Event → Option Uuid
  | .registry (.disableConnection _ connectionId _) (.ok _) => some connectionId
  | .registry (.enableConnection _ connectionId _) (.ok _) => some connectionId
  | _ => none

end Event

namespace Registry

/-- The projection of a capability. -/
def standing (r : Registry) (capabilityId : Uuid) :
    Option (CapabilityStatus × Option Uuid × Option Uuid) :=
  (r.capabilities.find? fun c => c.id == capabilityId).map fun c =>
    (c.status, c.enabledVersionId, c.pendingVersionId)

/-- The versions of a connection. -/
def footing (r : Registry) (connectionId : Uuid) : Option (Option Uuid × Option Uuid) :=
  (r.connections.find? fun c => c.id == connectionId).map fun c =>
    (c.pendingVersionId, c.verifiedVersionId)

variable {R : RegistryPlatform} {r : Registry} {k : Uuid}

theorem standing_eq {c : Capability} (valid : (r.dossier k).Valid R c) :
    r.standing k = some (c.status, c.enabledVersionId, c.pendingVersionId) := by
  obtain ⟨mem, hid⟩ := mem_of_dossier valid
  have found : r.capabilities.find? (fun c => c.id == k) = some c := by
    refine find?_eq_some_of_only mem (by simp [hid]) fun other hother same => ?_
    have mine := mem_dossier_capabilities.mpr ⟨hother, beq_iff_eq.mp same⟩
    rwa [valid.capabilities, List.mem_singleton] at mine
  rw [standing, found, Option.map_some]

theorem footing_eq {c : ServerConnection} (valid : (r.docket k).Valid c) :
    r.footing k = some (c.pendingVersionId, c.verifiedVersionId) := by
  obtain ⟨mem, hid⟩ := of_docket valid
  have found : r.connections.find? (fun c => c.id == k) = some c := by
    refine find?_eq_some_of_only mem (by simp [hid]) fun other hother same => ?_
    have mine := mem_docket_connections.mpr ⟨hother, beq_iff_eq.mp same⟩
    rwa [valid.connections, List.mem_singleton] at mine
  rw [footing, found, Option.map_some]

/-- What the fences and the claim find when they let a run pass. -/
structure Current (r : Registry) (run : Run) (c : Capability) (connection : ServerConnection)
    (snapshotId : Uuid) : Prop where
  enabled : c ∈ r.capabilities
  capabilityId : c.id = run.capabilityId
  epoch : c.statusEpoch = run.capabilityStatusEpoch
  connected : connection ∈ r.connections
  connectionId : connection.id = run.connectionId
  active : connection.lifecycle = .active
  controlEpoch : connection.controlEpoch = run.connectionControlEpoch
  current : connection.currentSnapshotId = some snapshotId
  observed : ⟨run.workspaceId, run.connectionId, run.connectionVersionId, snapshotId,
    run.capabilityVersionId⟩ ∈ r.snapshotCapabilities

theorem current_of_targetIsCurrent {run : Run} (h : r.targetIsCurrent run = true) :
    ∃ c connection snapshotId, r.Current run c connection snapshotId := by
  simp only [targetIsCurrent, Bool.and_eq_true, Option.any_eq_true, List.any_eq_true,
    beq_iff_eq] at h
  obtain ⟨⟨⟨⟨⟨-, -⟩, c, hc, ⟨⟨-, -⟩, -⟩, epoch⟩, connection, hcon, ⟨⟨active, -⟩, -⟩,
    control⟩, connection', hcon', snapshotId, current, row, hrow, ⟨⟨⟨hw, hconn⟩, hver⟩, hsnap⟩,
    hcap⟩, -⟩ := h
  obtain rfl : connection = connection' := Option.some.inj (hcon.symm.trans hcon')
  have own := List.find?_some hc
  have own' := List.find?_some hcon
  simp only [Bool.and_eq_true, beq_iff_eq] at own own'
  refine ⟨c, connection, snapshotId, List.mem_of_find?_eq_some hc, own.1, epoch,
    List.mem_of_find?_eq_some hcon, own'.1, active, control, current, ?_⟩
  rw [← hw, ← hconn, ← hver, ← hsnap, ← hcap]
  exact hrow

end Registry

/-- Only what is pinned of a run matters to the fences. -/
theorem Registry.targetIsCurrent_of_pinned {r : Registry} {run run' : Run}
    (h : run'.pinned = run.pinned) : r.targetIsCurrent run' = r.targetIsCurrent run := by
  change r.targetIsCurrent run'.pinned = r.targetIsCurrent run.pinned
  rw [h]

/-! ## Admission and checks -/

section Ledger
variable {P : Platform} {R : RegistryPlatform} {limits : ExecutionLimits} {w w' : World}
  {e : Event} {run : Run}

theorem Transition.follows (h : Transition P R limits w e w') (kept : w.Kept R limits) :
    w.Follows limits w' := by
  obtain ⟨drawn, more, -, -⟩ := h.effect kept.ledger kept.registry
  have effect := h.ledgerEffect kept.ledger kept.registry
  exact effect.follows kept.ledger h.clock fun id mem => more ▸ List.mem_append_right _ mem

/-- The columns that a run takes over from what it is admitted against. -/
structure Run.AdmittedBy (run : Run) (target : AdmissionTarget) : Prop where
  capabilityId : run.capabilityId = target.capability.id
  epoch : run.capabilityStatusEpoch = target.capability.statusEpoch
  connectionId : run.connectionId = target.connection.id
  controlEpoch : run.connectionControlEpoch = target.connection.controlEpoch

/-- A call of `create_run` that brings a run into being. -/
theorem Ran.admitted {service : ExecutionService} {request : RunRequest} {reply : Reply}
    {s t : Session} {job : Job} (ran : Ran P limits w service (.createRun request) reply w' s t)
    (inv : w.Invariant limits) (valid : (w'.store.lineage run.id).Valid limits run job)
    (old : ∀ {run₀ job₀}, (w.store.lineage run.id).Valid limits run₀ job₀ → False) :
    ∃ workspaceId versionId target,
      w.store.registry.admissionTarget workspaceId versionId = some target ∧
      run.AdmittedBy target := by
  obtain ⟨created, u, hu, hr⟩ := bind_eq_ok.mp ran.ran
  obtain ⟨rfl, rfl⟩ := pure_eq_ok.mp hr
  have views := ran.settled.views t
  obtain ⟨presented, v, holds, result⟩ := createRun_views ran.settled.flushed views hu
  rw [ran.rows] at result
  rcases result with ⟨record, x, _, _, z, hx, mem, -, replays, opens⟩ |
    ⟨z, target, deadline, admits, -, opens⟩
  · rw [List.mem_singleton.mp hx] at mem
    obtain ⟨row, -, -, -, hrow, hid⟩ := inv.of_mem_records mem
    have consumes := replays.consumes opens ⟨row, hrow, hid.trans replays.runId.symm⟩
    rw [ran.store, replays.flushed] at valid
    obtain ⟨_, _, valid₀, -⟩ := consumes.continues valid
    exact (old valid₀).elim
  · have fresh := inv.lineage_eq_empty (ran.fresh request.runId (by simp [Call.draws]))
    have admitted := admits.admitted opens ran.same fresh
      (holds.epoch.trans (by rw [ran.rows])) (holds.quarantine.trans (by rw [ran.rows]))
    rw [← admits.flushed, ← ran.store] at admitted
    by_cases hid : run.id = request.runId
    · rw [hid] at valid
      obtain rfl := valid.eq_run admitted.valid.runs
      refine ⟨_, _, target, opens.registry ▸ admits.loaded, ?_⟩
      rw [admits.run_eq]
      exact ⟨rfl, rfl, rfl, rfl⟩
    · rw [admitted.other _ hid] at valid
      exact (old valid).elim

/-- A run that was not there before the step has been admitted in it. -/
theorem Transition.admitted (h : Transition P R limits w e w') (kept : w.Kept R limits)
    (mem : run ∈ w'.store.runs) (new : ∀ old ∈ w.store.runs, old.id ≠ run.id) :
    w'.store.registry = w.store.registry ∧ ∃ workspaceId versionId target,
      w.store.registry.admissionTarget workspaceId versionId = some target ∧
      run.AdmittedBy target := by
  obtain ⟨job, valid, -⟩ := (h.kept kept).ledger.sound.of_mem_runs mem
  have old {run₀ : Run} {job₀ : Job} (valid₀ : (w.store.lineage run.id).Valid limits run₀ job₀) :
      False := by
    have mine : run₀ ∈ (w.store.lineage run.id).runs := by simp [valid₀.runs]
    obtain ⟨there, hid⟩ := Store.mem_lineage_runs.mp mine
    exact new run₀ there hid
  have effect := h.ledgerEffect kept.ledger kept.registry
  have continued (other : ∀ service request run, e.label w'.store.registry ≠
      .call service (.createRun request) (.ok (.run run))) : False := by
    obtain ⟨_, _, valid₀, -⟩ := effect.continues kept.ledger.sound other valid
    exact old valid₀
  cases e with
  | identity | registry call result => exact (continued fun _ _ _ h => by cases h).elim
  | ledger service call result =>
    cases h with
    | ledger step =>
      refine ⟨(step.effect kept.ledger).registry_eq, ?_⟩
      rcases step.cases_call with ⟨e, rfl, -⟩ | ⟨reply, s, t, rfl, ran⟩
      · exact (continued fun _ _ _ h => by cases h).elim
      · cases call with
        | createRun request => exact ran.admitted kept.ledger valid old
        | _ => exact (continued fun _ _ _ h => by cases h).elim

/-- A run that passes a fence, or that a lease is granted for, is current. -/
theorem Transition.current (h : Transition P R limits w e w') (kept : w.Kept R limits) {r : Uuid}
    (authorized : e.authorized = some r) :
    ∃ run job, (w.store.lineage r).Valid limits run job ∧
      w.store.registry.targetIsCurrent run = true := by
  have fenced {s u : Session} {lease : JobLease} {expected : RunStatus} {run : Run} {job : Job}
      {attempt : RunAttempt} {now : Time} (rows : s.rows = w.store)
      (holds : FenceHolds limits s u lease expected run job attempt now) :
      ∃ run job, (w.store.lineage lease.runId).Valid limits run job ∧
        w.store.registry.targetIsCurrent run = true := by
    have valid := holds.valid
    rw [holds.opened.lineage, holds.runId, rows] at valid
    exact ⟨run, job, valid, rows ▸ holds.current⟩
  unfold Event.authorized at authorized
  split at authorized
  · obtain rfl := Option.some.inj authorized
    cases h with
    | ledger step =>
      obtain ⟨s, t, ran⟩ := step.ran
      obtain ⟨_, u, hu, -⟩ := bind_eq_ok.mp ran.ran
      obtain ⟨-, _, _, _, _, _, holds⟩ := fenceSession_ok ran.settled (ran.sound kept.ledger) hu
      exact fenced ran.rows holds
  · obtain rfl := Option.some.inj authorized
    cases h with
    | ledger step =>
      obtain ⟨s, t, ran⟩ := step.ran
      obtain ⟨_, u, hu, -⟩ := bind_eq_ok.mp ran.ran
      obtain ⟨-, _, _, _, _, _, holds⟩ := fenceDispatch_ok ran.settled (ran.sound kept.ledger) hu
      exact fenced ran.rows holds
  · obtain rfl := Option.some.inj authorized
    cases h with
    | ledger step =>
      obtain ⟨s, t, ran⟩ := step.ran
      obtain ⟨workerId, leaseDuration, -, claimed⟩ := Call.of_claim ran.ran
      have sound := ran.sound kept.ledger
      obtain ⟨-, -, all⟩ := claimJob_ok ran.settled sound claimed
      obtain ⟨u, run, job, grants⟩ := all _ rfl
      obtain ⟨run₀, job₀, valid₀, continues⟩ := grants.before.continues sound grants.leases.valid
      have current := grants.current
      rw [Registry.targetIsCurrent_of_pinned continues.pinnedRun, ran.rows] at current
      rw [ran.rows, ← grants.leases.runId] at valid₀
      exact ⟨run₀, job₀, valid₀, current⟩
  · cases authorized

end Ledger

/-! ## What a later registry owes to an earlier one -/

section Succession
variable {P : Platform} {R : RegistryPlatform} {limits : ExecutionLimits} {w w' w'' : World}
  {e : Event} {es : List Event}

/-- Every capability and every connection of the one continues in the other. -/
structure Registry.Succeeds (R : RegistryPlatform) (r r' : Registry) : Prop where
  capability : ∀ {k c}, (r.dossier k).Valid R c →
    ∃ c', (r'.dossier k).Valid R c' ∧ (r.dossier k).Continues c (r'.dossier k) c'
  connection : ∀ {k c}, (r.docket k).Valid c →
    ∃ c', (r'.docket k).Valid c' ∧ (r.docket k).Continues c (r'.docket k) c'

theorem Registry.Succeeds.refl (r : Registry) : r.Succeeds R r :=
  ⟨fun valid => ⟨_, valid, .refl _ _⟩, fun valid => ⟨_, valid, .refl _ _⟩⟩

theorem Registry.Succeeds.trans {r r' r'' : Registry} (h : r.Succeeds R r')
    (g : r'.Succeeds R r'') : r.Succeeds R r'' where
  capability valid := by
    obtain ⟨c', valid', continues⟩ := h.capability valid
    obtain ⟨c'', valid'', continues'⟩ := g.capability valid'
    exact ⟨c'', valid'', continues.trans continues'⟩
  connection valid := by
    obtain ⟨c', valid', continues⟩ := h.connection valid
    obtain ⟨c'', valid'', continues'⟩ := g.connection valid'
    exact ⟨c'', valid'', continues.trans continues'⟩

/-- What holds in every world that whole operations lead to. -/
def World.Ordered (R : RegistryPlatform) (limits : ExecutionLimits) (w : World) : Prop :=
  w.Kept R limits ∧ w.Refreshed

theorem WholeTransition.ordered (h : WholeTransition P R limits w e w')
    (ordered : w.Ordered R limits) : w'.Ordered R limits :=
  ⟨h.1.kept ordered.1, h.refreshed ordered.1 ordered.2⟩

theorem WholeTransition.succeeds (h : WholeTransition P R limits w e w')
    (ordered : w.Ordered R limits) : w.store.registry.Succeeds R w'.store.registry where
  capability {k _} valid := by
    obtain ⟨drawn, -, -, effect⟩ := h.1.effect ordered.1.ledger ordered.1.registry
    exact (effect.moves k).continues valid
  connection {k _} valid := (h.advances ordered.1 ordered.2 k).continues valid

theorem ordered_along (path : Path (WholeTransition P R limits) w es w')
    (ordered : w.Ordered R limits) : w'.Ordered R limits :=
  path.invariant (fun _ _ _ ordered step => step.ordered ordered) ordered

theorem succeeds_along (path : Path (WholeTransition P R limits) w es w')
    (ordered : w.Ordered R limits) : w.store.registry.Succeeds R w'.store.registry :=
  path.relation (R := fun w w' => w.store.registry.Succeeds R w'.store.registry)
    (fun w => .refl w.store.registry) (fun _ _ _ h g => h.trans g)
    (fun _ _ _ ordered step => step.ordered ordered)
    (fun _ _ _ ordered step => step.succeeds ordered) ordered

theorem follows_along (path : Path (WholeTransition P R limits) w es w')
    (ordered : w.Ordered R limits) : w.Follows limits w' :=
  path.relation .refl (fun _ _ _ h g => h.trans g)
    (fun _ _ _ ordered step => step.ordered ordered)
    (fun _ _ _ ordered step => step.1.follows ordered.1) ordered

/-- An intervention counts the epoch of a connection up. -/
theorem Registry.Located.counted {r r' : Registry} {context : WorkspaceContext} {k : Uuid}
    {c₀ c c' : ServerConnection} (located : r.Located context k c₀)
    (lifecycle : ConnectionLifecycle) (pending : Option Uuid)
    (connections : r'.connections =
      (r.setConnection c₀.id fun _ => c₀.intervened lifecycle pending).connections)
    (valid : (r.docket k).Valid c) (valid' : (r'.docket k).Valid c') :
    c'.controlEpoch = c.controlEpoch + 1 := by
  have before : c₀ ∈ (r.docket k).connections :=
    Registry.mem_docket_connections.mpr ⟨located.mem, located.id⟩
  rw [valid.connections, List.mem_singleton] at before
  subst before
  have after : c₀.intervened lifecycle pending ∈ (r'.docket k).connections := by
    refine Registry.mem_docket_connections.mpr ⟨?_, located.id⟩
    rw [connections]
    exact mem_updateWhere.mpr ⟨c₀, located.mem, by simp⟩
  rw [valid'.connections, List.mem_singleton] at after
  rw [← after]
  rfl

/-- Switching a connection off or on counts its epoch up. -/
theorem Transition.switched (h : Transition P R limits w e w') {k : Uuid}
    {c c' : ServerConnection} (switched : e.switched = some k)
    (valid : (w.store.registry.docket k).Valid c)
    (valid' : (w'.store.registry.docket k).Valid c') :
    c'.controlEpoch = c.controlEpoch + 1 := by
  unfold Event.switched at switched
  split at switched
  · obtain rfl := Option.some.inj switched
    rcases h.cases_registry with ⟨_, error, -⟩ | ⟨reply, s, t, -, ran⟩
    · cases error
    · obtain ⟨_, _, run, ret⟩ := bind_eq_ok.mp ran.ran
      obtain ⟨-, rfl⟩ := pure_eq_ok.mp ret
      obtain ⟨c₀, located, revised⟩ := ConnectionService.disable_ok ran.settled run
      rw [ran.rows] at located revised
      refine located.counted .disabled c₀.pendingVersionId ?_ valid valid'
      rw [ran.store, revised.settled.flushed, revised.registry]
      rfl
  · obtain rfl := Option.some.inj switched
    rcases h.cases_registry with ⟨_, error, -⟩ | ⟨reply, s, t, -, ran⟩
    · cases error
    · obtain ⟨_, _, run, ret⟩ := bind_eq_ok.mp ran.ran
      obtain ⟨-, rfl⟩ := pure_eq_ok.mp ret
      obtain ⟨c₀, located, -, revised⟩ := ConnectionService.enable_ok ran.settled run
      rw [ran.rows] at located revised
      refine located.counted .verifying c₀.pendingVersionId ?_ valid valid'
      rw [ran.store, revised.settled.flushed, revised.registry]
  · cases switched

end Succession

/-! ## Between admission and a check -/

section Authority
variable {P : Platform} {R : RegistryPlatform} {limits : ExecutionLimits} {w₀ w₁ w₂ w₃ : World}
  {e₀ e : Event} {es : List Event} {run : Run}

/-- When the capability has the same epoch at both ends of a run, it is the same in between. -/
theorem Registry.Succeeds.same_capability {r r' r'' : Registry} {k : Uuid} {c c'' : Capability}
    (h : r.Succeeds R r') (g : r'.Succeeds R r'') (valid : (r.dossier k).Valid R c)
    (valid'' : (r''.dossier k).Valid R c'') (epoch : c''.statusEpoch = c.statusEpoch) :
    (r'.dossier k).Valid R c := by
  obtain ⟨c', valid', continues⟩ := h.capability valid
  obtain ⟨_, last, continues'⟩ := g.capability valid'
  obtain rfl := valid''.eq_of_capabilities last.capabilities
  have first := continues.epoch
  have second := continues'.epoch
  rw [continues.kept (by omega)] at valid'
  exact valid'

/-- When a settled connection has the same epoch at both ends of a run, it has it in between,
and it is settled at the same version. -/
theorem Registry.Succeeds.same_connection {r r' r'' : Registry} {k : Uuid}
    {c c'' : ServerConnection} (h : r.Succeeds R r') (g : r'.Succeeds R r'')
    (valid : (r.docket k).Valid c) (valid'' : (r''.docket k).Valid c'')
    (settled : c.pendingVersionId = none) (epoch : c''.controlEpoch = c.controlEpoch) :
    ∃ c', (r'.docket k).Valid c' ∧ c'.controlEpoch = c.controlEpoch ∧
      c'.pendingVersionId = none ∧ c'.verifiedVersionId = c.verifiedVersionId := by
  obtain ⟨c', valid', continues⟩ := h.connection valid
  obtain ⟨_, last, continues'⟩ := g.connection valid'
  obtain rfl := valid''.eq_of_connections last.connections
  have first := continues.epoch
  have second := continues'.epoch
  have same : c'.controlEpoch = c.controlEpoch := by omega
  exact ⟨c', valid', same, continues.kept same settled⟩

/-- Whatever lets a run pass has found its authority untouched since it was admitted, and what
it is pinned to in force. -/
theorem pinned_authority (h : w₀.Operated P R limits)
    (admission : WholeTransition P R limits w₀ e₀ w₁)
    (new : ∀ old ∈ w₀.store.runs, old.id ≠ run.id) (admitted : run ∈ w₁.store.runs)
    (path : Path (WholeTransition P R limits) w₁ es w₂)
    (check : WholeTransition P R limits w₂ e w₃) (authorized : e.authorized = some run.id) :
    (∀ before e' after u v, es = before ++ e' :: after →
      Path (WholeTransition P R limits) w₁ before u → WholeTransition P R limits u e' v →
      Path (WholeTransition P R limits) v after w₂ →
      v.store.registry.standing run.capabilityId = u.store.registry.standing run.capabilityId ∧
        v.store.registry.footing run.connectionId = u.store.registry.footing run.connectionId ∧
        e'.switched ≠ some run.connectionId) ∧
      ∃ connection ∈ w₂.store.registry.connections, connection.id = run.connectionId ∧
        connection.lifecycle = .active ∧ ∃ snapshotId,
          connection.currentSnapshotId = some snapshotId ∧
          ⟨run.workspaceId, run.connectionId, run.connectionVersionId, snapshotId,
            run.capabilityVersionId⟩ ∈ w₂.store.registry.snapshotCapabilities := by
  have ordered₀ : w₀.Ordered R limits := h.invariant
  have ordered₁ := admission.ordered ordered₀
  have ordered₂ := ordered_along path ordered₁
  -- What the run was admitted against.
  obtain ⟨registry, _, _, target, loads, pins⟩ :=
    admission.1.admitted ordered₀.1 admitted new
  have loaded := Registry.admissionTarget_eq_some.mp loads
  have validC := ordered₁.1.registry.catalogued.of_mem (c := target.capability)
    (registry ▸ List.mem_of_find?_eq_some loaded.capability)
  have validS := ordered₁.2.docketed.of_mem (c := target.connection)
    (registry ▸ List.mem_of_find?_eq_some loaded.connection)
  rw [← pins.capabilityId] at validC
  rw [← pins.connectionId] at validS
  -- What the check has found.
  obtain ⟨run₂, job₂, valid₂, current₂⟩ := check.1.current ordered₂.1 authorized
  obtain ⟨job₁, valid₁, -⟩ := ordered₁.1.ledger.sound.of_mem_runs admitted
  have pinned : run₂.pinned = run.pinned := by
    rcases (follows_along path ordered₁).run valid₂ with ⟨_, _, valid, continues⟩ | ⟨fresh, -⟩
    · rw [continues.pinnedRun, valid₁.eq_run valid.runs]
    · exact (fresh (ordered₁.1.ledger.drawn valid₁).1).elim
  rw [Registry.targetIsCurrent_of_pinned pinned] at current₂
  obtain ⟨c₂, connection₂, snapshotId, current⟩ := Registry.current_of_targetIsCurrent current₂
  have validC₂ := ordered₂.1.registry.catalogued.of_mem current.enabled
  have validS₂ := ordered₂.2.docketed.of_mem current.connected
  rw [current.capabilityId] at validC₂
  rw [current.connectionId] at validS₂
  have epochC : c₂.statusEpoch = target.capability.statusEpoch := current.epoch.trans pins.epoch
  have epochS : connection₂.controlEpoch = target.connection.controlEpoch :=
    current.controlEpoch.trans pins.controlEpoch
  refine ⟨?_, connection₂, current.connected, current.connectionId, current.active, snapshotId,
    current.current, current.observed⟩
  intro before e' after u v _ reached step remaining
  have orderedU := ordered_along reached ordered₁
  have orderedV := step.ordered orderedU
  have toU := succeeds_along reached ordered₁
  have toV := toU.trans (step.succeeds orderedU)
  have fromV := succeeds_along remaining orderedV
  have fromU := (step.succeeds orderedU).trans fromV
  have capabilityU := toU.same_capability fromU validC validC₂ epochC
  have capabilityV := toV.same_capability fromV validC validC₂ epochC
  obtain ⟨cU, connectionU, sameU, pendingU, verifiedU⟩ :=
    toU.same_connection fromU validS validS₂ loaded.settled epochS
  obtain ⟨cV, connectionV, sameV, pendingV, verifiedV⟩ :=
    toV.same_connection fromV validS validS₂ loaded.settled epochS
  refine ⟨?_, ?_, fun switched => ?_⟩
  · rw [Registry.standing_eq capabilityU, Registry.standing_eq capabilityV]
  · rw [Registry.footing_eq connectionU, Registry.footing_eq connectionV, pendingU, pendingV,
      verifiedU, verifiedV]
  · have counted := step.1.switched switched connectionU connectionV
    omega

end Authority

/-! ## A run of the small installation -/

namespace Installation

def request : RunRequest := { Sample.request with context := admin }

def admitted : World := enabled.after Sample.platform Sample.service [] (.createRun request)

/-- The connection is refreshed again before the run is claimed. -/
def refreshed : World := admitted.revised registryPlatform [] (.enqueue admin 3 30)

def claimed : World :=
  refreshed.after Sample.platform Sample.service [] (.claimJob "worker" 1000000)

/-- The event of a call of the ledger. -/
def ledgerEvent (w : World) (call : Call) : Event :=
  .ledger Sample.service call (transact (call.run Sample.service Sample.platform)
    (.begin w.store w.clock [] [] [])).result

theorem admits : WholeTransition Sample.platform registryPlatform .default enabled
    (ledgerEvent enabled (.createRun request)) admitted := by
  refine ⟨.ledger (World.step_after Sample.platform Sample.service [] _ enabled ?_ nofun), rfl⟩
  have fresh : ([request.runId, request.jobId] ++ enabled.drawn).Nodup := by decide +kernel
  exact fun id new known => (List.nodup_append.mp fresh).2.2 id new id known rfl

theorem refreshes : WholeTransition Sample.platform registryPlatform .default admitted
    (admitted.revision registryPlatform [] (.enqueue admin 3 30)) refreshed :=
  whole _ admitted (by decide +kernel) rfl

theorem claims : WholeTransition Sample.platform registryPlatform .default refreshed
    (ledgerEvent refreshed (.claimJob "worker" 1000000)) claimed :=
  ⟨.ledger (World.step_after Sample.platform Sample.service [] _ refreshed nofun nofun), rfl⟩

end Installation

theorem pinned_authority_sample :
    ∃ run ∈ Installation.admitted.store.runs, run.id = 100 ∧
      Installation.refreshed.store.registry.standing run.capabilityId =
        Installation.admitted.store.registry.standing run.capabilityId := by
  have ids : Installation.admitted.store.runs.map Run.id = [100] := by decide +kernel
  obtain ⟨run, mem, hid⟩ := List.mem_map.mp (ids ▸ List.mem_singleton_self (100 : Uuid))
  have none : Installation.enabled.store.runs.map Run.id = [] := by decide +kernel
  have new : ∀ old ∈ Installation.enabled.store.runs, old.id ≠ run.id := by
    rw [List.map_eq_nil_iff.mp none]
    exact fun _ => nofun
  have granted : (Installation.ledgerEvent Installation.refreshed
      (.claimJob "worker" 1000000)).authorized = some run.id := by
    rw [hid]
    decide +kernel
  have authority := pinned_authority Installation.enabled_operated Installation.admits new mem
    (.single Installation.refreshes) Installation.claims granted
  exact ⟨run, mem, hid,
    (authority.1 [] _ [] _ _ rfl (.nil _) Installation.refreshes (.nil _)).1⟩

end Modall
