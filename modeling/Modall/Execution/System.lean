import Modall.Library.Transition
import Modall.Execution.Refinement.Claim
import Modall.Execution.Refinement.Retention
import Modall.Execution.Refinement.Admission

/-!
# The ledger as a system

A world is a committed store, the database clock and the identifiers drawn so far. It moves
when some caller runs one operation of `ExecutionService` as a transaction, with any arguments
and any leases, or when the registry changes. All callers share one set of limits; their
keyrings and their authority are their own. `Step.effect` says what a step can do to the
ledger, and the invariants of the whole system follow from it by induction over runs.
-/
namespace Modall
open Library

/-- An operation with its arguments, the values it would draw with `uuid4` among them. -/
inductive Call where
  | preflight (context : WorkspaceContext) (capabilityVersionId : Uuid) (arguments : Json)
      (nonce : String)
  | createRun (request : RunRequest)
  | claimJob (workerId : String) (leaseDuration : Int)
  | fenceSession (lease : JobLease)
  | fenceDispatch (lease : JobLease)
  | heartbeat (lease : JobLease) (leaseDuration : Int)
  | completeLease (lease : JobLease) (status : RunStatus) (code : Option RunFailureCode)
  | completeInvocationSuccess (lease : JobLease) (result : AcceptedToolResult)
  | cancelRun (context : WorkspaceContext) (runId correlationId : Uuid)
  | enterRestoreQuarantine
  | reconcileRestoreQuarantine (batchSize : Int)
  | clearRestoreQuarantine
  | expireRetainedContent (batchSize : Int)
  | expireRetainedResults (batchSize : Int)
  | deleteExpiredRunMetadata (batchSize : Int)

inductive Reply where
  | preflight (preflight : RunPreflight)
  | run (run : Run)
  | claim (lease : Option JobLease) (reconciled : List ReconciledJob)
  | lease (lease : JobLease)
  | number (n : Nat)

namespace Call

def run (service : ExecutionService) (P : Platform) : Call → Tx Reply
  | preflight context capabilityVersionId arguments nonce => do
    return .preflight (← service.preflight P context capabilityVersionId arguments nonce)
  | createRun request => do return .run (← service.createRun P request)
  | claimJob workerId leaseDuration => do
    let claimed ← service.claimJob workerId leaseDuration
    return .claim claimed.1 claimed.2
  | fenceSession lease => do return .run (← Modall.fenceSession lease)
  | fenceDispatch lease => do return .run (← Modall.fenceDispatch lease)
  | heartbeat lease leaseDuration => do return .lease (← Modall.heartbeat lease leaseDuration)
  | completeLease lease status code => do return .run (← Modall.completeLease lease status code)
  | completeInvocationSuccess lease result => do
    return .run (← service.completeInvocationSuccess P lease result)
  | cancelRun context runId correlationId => do
    return .run (← Modall.cancelRun context runId correlationId)
  | enterRestoreQuarantine => do return .number (← service.enterRestoreQuarantine)
  | reconcileRestoreQuarantine batchSize => do
    return .number (← service.reconcileRestoreQuarantine batchSize)
  | clearRestoreQuarantine => do return .number (← service.clearRestoreQuarantine)
  | expireRetainedContent batchSize => do
    return .number (← Modall.expireRetainedContent batchSize)
  | expireRetainedResults batchSize => do
    return .number (← Modall.expireRetainedResults batchSize)
  | deleteExpiredRunMetadata batchSize => do
    return .number (← service.deleteExpiredRunMetadata batchSize)

/-- The identifiers of rows that the call would draw. -/
def draws : Call → List Uuid
  | createRun request => [request.runId, request.jobId]
  | _ => []

/-- The token nonce that the call would draw. -/
def nonces : Call → List String
  | preflight _ _ _ nonce => [nonce]
  | _ => []

end Call

structure World where
  store : Store
  clock : Time
  drawn : List Uuid
  nonces : List String

/-- What happened in a step. -/
inductive Label where
  | call (service : ExecutionService) (call : Call) (reply : Except Failure Reply)
  | registry (registry : Registry)

namespace Label

/-- A restore quarantine was entered in this step. -/
def enters : Label → Bool
  | .call _ .enterRestoreQuarantine (.ok _) => true
  | _ => false

/-- The restore quarantine was cleared in this step. -/
def clears : Label → Bool
  | .call _ .clearRestoreQuarantine (.ok _) => true
  | _ => false

/-- Expired run metadata was deleted in this step. -/
def deletes : Label → Bool
  | .call _ (.deleteExpiredRunMetadata _) (.ok _) => true
  | _ => false

end Label

/-- One step of the system. Time passes within a call and after it, and `uuid4` never draws a
value twice. -/
inductive Step (P : Platform) (limits : ExecutionLimits) : World → Label → World → Prop where
  | call {w : World} {service : ExecutionService} {call : Call} {outcome : Outcome Reply}
      (ticks : List Nat) (held : List Uuid) (later : Time) : service.limits = limits →
      (∀ id ∈ call.draws, id ∉ w.drawn) → (∀ n ∈ call.nonces, n ∉ w.nonces) →
      transact (call.run service P) (.begin w.store w.clock ticks held []) = outcome →
      w.clock ≤ later → outcome.clock ≤ later →
      Step P limits w (.call service call outcome.result)
        ⟨outcome.store, later, call.draws ++ w.drawn, call.nonces ++ w.nonces⟩
  | registry {w : World} (registry : Registry) :
      Step P limits w (.registry registry) { w with store := { w.store with registry } }

/-- An installation whose ledger is still empty. -/
def World.Initial (w : World) : Prop := ∀ r, w.store.lineage r = .empty

/-! ## What a step does -/

/-- A call that returned, with the session it ran in. -/
structure Ran (P : Platform) (limits : ExecutionLimits) (w : World) (service : ExecutionService)
    (call : Call) (reply : Reply) (w' : World) (s t : Session) : Prop where
  ran : call.run service P s = .ok reply t
  settled : s.Settled
  rows : s.rows = w.store
  clock : s.clock = w.clock
  same : service.limits = limits
  fresh : ∀ id ∈ call.draws, id ∉ w.drawn
  drawn : w'.drawn = call.draws ++ w.drawn
  store : w'.store = t.objects
  later : t.clock ≤ w'.clock

/-- A call returns, or it raises and leaves the store as it was. -/
theorem Step.cases_call {P : Platform} {limits : ExecutionLimits} {w w' : World}
    {service : ExecutionService} {call : Call} {result : Except Failure Reply}
    (h : Step P limits w (.call service call result) w') :
    (∃ e, result = .error e ∧ w'.store = w.store) ∨
      ∃ reply s t, result = .ok reply ∧ Ran P limits w service call reply w' s t := by
  generalize hl : Label.call service call result = l at h
  cases h with
  | registry => cases hl
  | @call service' call' outcome ticks held later same fresh _ heq _ hlater =>
    injection hl with hs hc hr
    subst hs hc hr
    unfold transact at heq
    cases hrun : call.run service P (Session.begin w.store w.clock ticks held []) with
    | error e t =>
      rw [hrun] at heq
      subst heq
      exact .inl ⟨e, rfl, rfl⟩
    | ok a t =>
      rw [hrun] at heq
      subst heq
      exact .inr ⟨a, _, t, rfl, hrun, ⟨rfl, rfl⟩, rfl, rfl, same, fresh, rfl, rfl, hlater⟩

theorem Step.ran {P : Platform} {limits : ExecutionLimits} {w w' : World}
    {service : ExecutionService} {call : Call} {reply : Reply}
    (h : Step P limits w (.call service call (.ok reply)) w') :
    ∃ s t, Ran P limits w service call reply w' s t := by
  rcases h.cases_call with ⟨e, he, -⟩ | ⟨reply', s, t, heq, ran⟩
  · cases he
  · injection heq with heq
    subst heq
    exact ⟨s, t, ran⟩

/-- What a step can do to the ledger. -/
inductive Effect (limits : ExecutionLimits) (w : World) (l : Label) (w' : World) : Prop where
  | evolve : w.store.Evolves w'.store → Effect limits w l w'
  /-- A run is replayed, and the presented nonce consumed. -/
  | replay {service : ExecutionService} {request : RunRequest} {run : Run} :
      l = .call service (.createRun request) (.ok (.run run)) → w.store.Consumes w'.store →
      Effect limits w l w'
  | admission {service : ExecutionService} {request : RunRequest} {run : Run} {job : Job} :
      l = .call service (.createRun request) (.ok (.run run)) → request.runId ∉ w.drawn →
      request.jobId ∉ w.drawn → request.runId ∈ w'.drawn → request.jobId ∈ w'.drawn →
      w.store.Admitted limits w'.clock w'.store request run job → Effect limits w l w'
  /-- The system row changes: a quarantine is entered. -/
  | enter {state : SystemExecutionState} : w'.store.registry = w.store.registry →
      (∀ r, w'.store.lineage r = w.store.lineage r) → w'.store.system = some state →
      state.executionEpoch = w.store.executionEpoch + 1 → state.dispatchQuarantined = true →
      Effect limits w l w'
  /-- The quarantine is cleared once no run is active. -/
  | clear {state : SystemExecutionState} : l.clears = true →
      w'.store.registry = w.store.registry →
      (∀ r, w'.store.lineage r = w.store.lineage r) → w'.store.system = some state →
      state.executionEpoch = w.store.executionEpoch → w.store.quarantined = true →
      (∀ run ∈ w.store.runs, run.status.active = false) → Effect limits w l w'
  /-- Runs that ended a retention period ago are deleted, with everything that hangs off them. -/
  | deletion {ids : List Uuid} : l.deletes = true → w'.store = w.store.deleteRuns ids →
      (∀ r ∈ ids, ∃ run job terminalAt, (w.store.lineage r).Valid limits run job ∧
        run.terminalAt = some terminalAt ∧
        terminalAt + days limits.runRetentionDays ≤ w'.clock) → Effect limits w l w'
  | registry {registry : Registry} : (∀ r, w'.store.lineage r = w.store.lineage r) →
      w'.store.system = w.store.system → l = .registry registry → Effect limits w l w'

/-- What holds in every world of a run. The identifiers in use have been drawn, no two jobs
share theirs, and outside a quarantine no active run is left behind in an older epoch. -/
structure World.Invariant (limits : ExecutionLimits) (w : World) : Prop where
  sound : w.store.Sound limits w.clock
  drawn : ∀ {r run job}, (w.store.lineage r).Valid limits run job → r ∈ w.drawn ∧ job.id ∈ w.drawn
  unique : ∀ {r q run run' job job'}, (w.store.lineage r).Valid limits run job →
    (w.store.lineage q).Valid limits run' job' → job.id = job'.id → r = q
  epoch : ∀ {r run job}, (w.store.lineage r).Valid limits run job →
    job.executionEpoch ≤ w.store.executionEpoch ∧
      (w.store.quarantined = false → run.status.terminal = false →
        job.executionEpoch = w.store.executionEpoch)

section Steps
variable {P : Platform} {limits : ExecutionLimits} {w w' w'' : World} {l : Label}
  {service : ExecutionService} {call : Call} {reply : Reply} {s t : Session}

theorem World.Invariant.lineage_eq_empty (inv : w.Invariant limits) {r : Uuid}
    (h : r ∉ w.drawn) : w.store.lineage r = .empty := by
  rcases inv.sound r with he | ⟨run, job, hv, -⟩
  · exact he
  · exact (h (inv.drawn hv).1).elim

theorem Ran.sound (h : Ran P limits w service call reply w' s t) (inv : w.Invariant limits) :
    s.rows.Sound limits s.clock := by
  rw [h.rows, h.clock]
  exact inv.sound

theorem Ran.evolves (h : Ran P limits w service call reply w' s t) (advanced : s.Advanced t) :
    w.store.Evolves w'.store := by
  rw [h.store, advanced.settled.flushed, ← h.rows]
  exact advanced.evolves

/-- The worlds around a call that set the system row. -/
theorem Ran.systemSet (h : Ran P limits w service call reply w' s t)
    {state : SystemExecutionState} (set : SystemSet s t state) :
    w'.store.registry = w.store.registry ∧ (∀ r, w'.store.lineage r = w.store.lineage r) ∧
      w'.store.system = some state := by
  have hstore : w'.store = t.rows := h.store.trans set.settled.flushed
  refine ⟨?_, fun r => ?_, ?_⟩
  · rw [hstore, set.registry, h.rows]
  · rw [hstore, set.lineage, h.rows]
  · rw [hstore, set.system]

/-- A record belongs to a run of the store. -/
theorem World.Invariant.of_mem_records (inv : w.Invariant limits) {record : IdempotencyRecord}
    (h : record ∈ w.store.records) :
    ∃ run job, (w.store.lineage record.resourceId).Valid limits run job ∧
      (w.store.lineage record.resourceId).records = [record] ∧ run ∈ w.store.runs ∧
      run.id = record.resourceId := by
  have mem := Store.mem_lineage_records.mpr ⟨h, rfl⟩
  rcases inv.sound record.resourceId with he | ⟨run, job, valid, -⟩
  · rw [he] at mem
    cases mem
  · obtain ⟨kept, only, -⟩ := valid.record
    rw [only, List.mem_singleton] at mem
    subst mem
    have mine : run ∈ (w.store.lineage record.resourceId).runs := by simp [valid.runs]
    exact ⟨run, job, valid, only, Store.mem_lineage_runs.mp mine⟩

/-- A `create_run` among other transactions replays a run of the world or admits one to it. -/
theorem createRun_effect {request : RunRequest} {run : Run} {seen : List Store}
    (inv : w.Invariant limits) (flushed : s.objects = s.rows) (views : s.Views t seen w.store)
    (h : service.createRun P request s = .ok run t) (same : service.limits = limits)
    (fresh : ∀ id ∈ (Call.createRun request).draws, id ∉ w.drawn)
    (drawn : w'.drawn = (Call.createRun request).draws ++ w.drawn)
    (store : w'.store = t.objects) (later : t.clock ≤ w'.clock)
    (epoch : s.rows.executionEpoch = w.store.executionEpoch)
    (quarantine : s.rows.quarantined = w.store.quarantined)
    (retained : ∀ x ∈ seen, ∀ record ∈ x.records, run.id = record.resourceId →
      ∃ row ∈ w.store.runs, row.id = run.id) :
    Effect limits w (.call service (.createRun request) (.ok (.run run))) w' := by
  obtain ⟨presented, u, holds, result⟩ := createRun_views flushed views h
  rcases result with ⟨record, x, v, v', z, hx, mem, -, replays, opens⟩ |
    ⟨v, target, deadline, admits, -, opens⟩
  · refine .replay rfl ?_
    rw [store, replays.flushed]
    exact replays.consumes opens (retained x hx record mem replays.runId)
  · have admitted := admits.admitted opens same
      (inv.lineage_eq_empty (fresh request.runId (by simp [Call.draws])))
      (holds.epoch.trans epoch) (holds.quarantine.trans quarantine)
    rw [← admits.flushed, ← store] at admitted
    refine .admission rfl (fresh request.runId ?_) (fresh request.jobId ?_) ?_ ?_
      { admitted with created := admitted.created.trans later }
    · simp [Call.draws]
    · simp [Call.draws]
    · simp [drawn, Call.draws]
    · simp [drawn, Call.draws]

/-- Every operation but `create_run`, taken through its own refinement. The rows may have been
admitted under `wider` limits than the caller's own. -/
theorem Ran.effect_of_other {wider : ExecutionLimits}
    (h : Ran P limits w service call reply w' s t) (rows : w.store.Sound wider w.clock)
    (retention : wider.runRetentionDays = limits.runRetentionDays)
    (other : ∀ request, call ≠ .createRun request) :
    Effect wider w (.call service call (.ok reply)) w' := by
  have sound : s.rows.Sound wider s.clock := by rwa [h.rows, h.clock]
  have run := h.ran
  have advance advanced : Effect wider w (.call service call (.ok reply)) w' :=
    .evolve (h.evolves advanced)
  cases call with
  | preflight context capabilityVersionId arguments nonce =>
    obtain ⟨preflight, u, hu, hr⟩ := bind_eq_ok.mp run
    injection hr with _ ht
    subst ht
    exact advance (Reads.opened (.preflight service P _ _ _ _) h.settled hu).1.advanced
  | createRun request => exact (other request rfl).elim
  | claimJob workerId leaseDuration =>
    obtain ⟨claimed, u, hu, hr⟩ := bind_eq_ok.mp run
    injection hr with _ ht
    subst ht
    exact advance (claimJob_ok h.settled sound hu).1
  | fenceSession lease =>
    obtain ⟨result, u, hu, hr⟩ := bind_eq_ok.mp run
    injection hr with _ ht
    subst ht
    exact advance (fenceSession_ok h.settled sound hu).1
  | fenceDispatch lease =>
    obtain ⟨result, u, hu, hr⟩ := bind_eq_ok.mp run
    injection hr with _ ht
    subst ht
    exact advance (fenceDispatch_ok h.settled sound hu).1
  | heartbeat lease leaseDuration =>
    obtain ⟨result, u, hu, hr⟩ := bind_eq_ok.mp run
    injection hr with _ ht
    subst ht
    exact advance (heartbeat_ok h.settled sound hu).1
  | completeLease lease status code =>
    obtain ⟨result, u, hu, hr⟩ := bind_eq_ok.mp run
    injection hr with _ ht
    subst ht
    exact advance (completeLease_ok h.settled sound hu).1
  | completeInvocationSuccess lease result =>
    obtain ⟨result, u, hu, hr⟩ := bind_eq_ok.mp run
    injection hr with _ ht
    subst ht
    exact advance (completeInvocationSuccess_ok h.settled sound hu).1
  | cancelRun context runId correlationId =>
    obtain ⟨result, u, hu, hr⟩ := bind_eq_ok.mp run
    injection hr with _ ht
    subst ht
    exact advance (cancelRun_ok h.settled sound hu)
  | enterRestoreQuarantine =>
    obtain ⟨epoch, u, hu, hr⟩ := bind_eq_ok.mp run
    injection hr with _ ht
    subst ht
    obtain ⟨now, set⟩ := enterRestoreQuarantine_ok h.settled hu
    obtain ⟨registry, lineage, system⟩ := h.systemSet set
    exact .enter registry lineage system (by rw [h.rows]) rfl
  | reconcileRestoreQuarantine batchSize =>
    obtain ⟨result, u, hu, hr⟩ := bind_eq_ok.mp run
    injection hr with _ ht
    subst ht
    exact advance (reconcileRestoreQuarantine_ok h.settled sound hu).1
  | clearRestoreQuarantine =>
    obtain ⟨epoch, u, hu, hr⟩ := bind_eq_ok.mp run
    injection hr with _ ht
    subst ht
    obtain ⟨quarantined, idle, now, set⟩ := clearRestoreQuarantine_ok h.settled hu
    rw [h.rows] at quarantined idle
    obtain ⟨registry, lineage, system⟩ := h.systemSet set
    exact .clear rfl registry lineage system (by rw [h.rows]) quarantined idle
  | expireRetainedContent batchSize =>
    obtain ⟨result, u, hu, hr⟩ := bind_eq_ok.mp run
    injection hr with _ ht
    subst ht
    exact advance (expireRetainedContent_ok h.settled sound hu)
  | expireRetainedResults batchSize =>
    obtain ⟨result, u, hu, hr⟩ := bind_eq_ok.mp run
    injection hr with _ ht
    subst ht
    exact advance (expireRetainedResults_ok h.settled sound hu)
  | deleteExpiredRunMetadata batchSize =>
    obtain ⟨result, u, hu, hr⟩ := bind_eq_ok.mp run
    injection hr with _ ht
    subst ht
    obtain ⟨settled, -, ids, hrows, expired⟩ := deleteExpiredRunMetadata_ok h.settled sound hu
    rw [h.rows, h.same, ← retention] at *
    refine .deletion rfl (by rw [h.store, settled.flushed, hrows]) fun r mem => ?_
    obtain ⟨run, job, terminalAt, valid, hsome, old⟩ := expired r mem
    exact ⟨run, job, terminalAt, valid, hsome, old.trans h.later⟩

/-- Every operation, taken through its own refinement. -/
theorem Ran.effect (h : Ran P limits w service call reply w' s t) (inv : w.Invariant limits) :
    Effect limits w (.call service call (.ok reply)) w' := by
  cases call with
  | createRun request =>
    obtain ⟨created, u, hu, hr⟩ := bind_eq_ok.mp h.ran
    injection hr with hreply ht
    subst hreply ht
    have views := h.settled.views u
    rw [h.rows] at views
    refine createRun_effect inv h.settled.flushed views hu h.same h.fresh h.drawn h.store h.later
      (by rw [h.rows]) (by rw [h.rows]) fun x hx record mem heq => ?_
    rw [List.mem_singleton.mp hx] at mem
    obtain ⟨row, -, -, -, hrow, hid⟩ := inv.of_mem_records mem
    exact ⟨row, hrow, hid.trans heq.symm⟩
  | _ => exact h.effect_of_other inv.sound rfl (fun _ => nofun)

/-- What a later world owes to an earlier one: a run it holds continues one that was there, or
is new altogether. -/
structure World.Follows (limits : ExecutionLimits) (w w' : World) : Prop where
  drawn : ∀ id ∈ w.drawn, id ∈ w'.drawn
  clock : w.clock ≤ w'.clock
  epoch : w.store.executionEpoch ≤ w'.store.executionEpoch
  system : w.store.system.isSome = true → w'.store.system.isSome = true
  run : ∀ {r run' job'}, (w'.store.lineage r).Valid limits run' job' →
    (∃ run job, (w.store.lineage r).Valid limits run job ∧
      (w.store.lineage r).Continues run job (w'.store.lineage r) run' job') ∨
    r ∉ w.drawn ∧ job'.id ∉ w.drawn

theorem World.Follows.refl (w : World) : w.Follows limits w where
  drawn _ h := h
  clock := le_refl _
  epoch := Nat.le_refl _
  system h := h
  run valid := .inl ⟨_, _, valid, .refl _ _ _⟩

theorem World.Follows.trans (h : w.Follows limits w') (g : w'.Follows limits w'') :
    w.Follows limits w'' where
  drawn id mem := g.drawn id (h.drawn id mem)
  clock := h.clock.trans g.clock
  epoch := h.epoch.trans g.epoch
  system row := g.system (h.system row)
  run valid := by
    rcases g.run valid with ⟨run', job', valid', continues'⟩ | ⟨hr, hj⟩
    · rcases h.run valid' with ⟨run, job, valid, continues⟩ | ⟨hr, hj⟩
      · exact .inl ⟨run, job, valid, continues.trans continues'⟩
      · exact .inr ⟨hr, Job.id_of_pinned continues'.pinnedJob ▸ hj⟩
    · exact .inr ⟨fun mem => hr (h.drawn _ mem), fun mem => hj (h.drawn _ mem)⟩

theorem Step.effect (h : Step P limits w l w') (inv : w.Invariant limits) :
    Effect limits w l w' := by
  cases l with
  | call service call result =>
    rcases h.cases_call with ⟨e, -, hstore⟩ | ⟨reply, s, t, rfl, ran⟩
    · exact .evolve (hstore ▸ .refl _)
    · exact ran.effect inv
  | registry registry =>
    cases h
    exact .registry (fun _ => rfl) rfl rfl

/-- The ledger leaves the registry alone. -/
theorem Effect.registry_eq {result : Except Failure Reply}
    (h : Effect limits w (.call service call result) w') :
    w'.store.registry = w.store.registry := by
  cases h with
  | evolve evolves => exact evolves.registry
  | replay _ consumes => exact consumes.registry
  | admission _ _ _ _ _ admitted => exact admitted.registry
  | enter registry | clear _ registry => exact registry
  | deletion _ hstore => rw [hstore]; rfl
  | registry _ _ hl => cases hl

theorem Step.clock (h : Step P limits w l w') : w.clock ≤ w'.clock := by
  cases h with
  | call _ _ _ _ _ _ _ hle _ => exact hle
  | registry => exact le_refl _

theorem Step.drawn (h : Step P limits w l w') : ∀ id ∈ w.drawn, id ∈ w'.drawn := by
  cases h with
  | call => exact fun id mem => List.mem_append_right _ mem
  | registry => exact fun id mem => mem

/-- A run that is still there after its rows evolved was there before. -/
theorem Store.Evolves.continues {s t : Store} {clock : Time} {r : Uuid} {run' : Run} {job' : Job}
    (h : s.Evolves t) (sound : s.Sound limits clock)
    (valid : (t.lineage r).Valid limits run' job') :
    ∃ run job, (s.lineage r).Valid limits run job ∧
      (s.lineage r).Continues run job (t.lineage r) run' job' := by
  rcases sound r with he | ⟨run, job, hv, -⟩
  · have steps := h.steps r
    rw [he] at steps
    exact (valid.ne_empty steps.eq_empty).elim
  · obtain ⟨run'', job'', hv', continues⟩ := (h.steps r).sound hv
    obtain rfl := valid.eq_run hv'.runs
    obtain rfl := valid.eq_job hv'.jobs
    exact ⟨run, job, hv, continues⟩

/-- A run that is there after a nonce was consumed was there before. -/
theorem Store.Consumes.continues {s t : Store} {r : Uuid} {run : Run} {job : Job}
    (h : s.Consumes t) (valid : (t.lineage r).Valid limits run job) :
    ∃ run' job', (s.lineage r).Valid limits run' job' ∧
      (s.lineage r).Continues run' job' (t.lineage r) run job := by
  rcases h.lineage r with same | ⟨-, nonce, added⟩
  · rw [same] at valid ⊢
    exact ⟨run, job, valid, .refl _ _ _⟩
  · rw [added] at valid ⊢
    exact ⟨run, job, { valid with },
      { Lineage.Continues.refl _ run job with nonces := List.prefix_append _ _ }⟩

theorem Store.Consumes.sound {s t : Store} {clock : Time} (h : s.Consumes t)
    (sound : s.Sound limits clock) : t.Sound limits clock := by
  intro r
  rcases h.lineage r with same | ⟨some, nonce, added⟩
  · rw [same]
    exact sound r
  · rw [added]
    rcases sound r with he | ⟨run, job, valid, created⟩
    · simp [he, Lineage.empty] at some
    · exact .inr ⟨run, job, { valid with }, created⟩

/-- A run that is still there after a deletion was left alone. -/
theorem Store.continues_of_deleteRuns {s : Store} {ids : List Uuid} {r : Uuid} {run : Run}
    {job : Job} (valid : ((s.deleteRuns ids).lineage r).Valid limits run job) :
    ∃ run' job', (s.lineage r).Valid limits run' job' ∧
      (s.lineage r).Continues run' job' ((s.deleteRuns ids).lineage r) run job := by
  rw [Store.lineage_deleteRuns] at valid ⊢
  split_ifs at valid ⊢ with hr
  · exact (valid.ne_empty rfl).elim
  · exact ⟨run, job, valid, .refl _ _ _⟩

theorem continues_of_lineage_eq (lineage : ∀ r, w'.store.lineage r = w.store.lineage r) {r : Uuid} {run' : Run}
    {job' : Job} (valid : (w'.store.lineage r).Valid limits run' job') :
    ∃ run job, (w.store.lineage r).Valid limits run job ∧
      (w.store.lineage r).Continues run job (w'.store.lineage r) run' job' := by
  rw [lineage] at valid ⊢
  exact ⟨run', job', valid, .refl _ _ _⟩

/-- A step in which no `create_run` returns brings no run into being. -/
theorem Effect.continues (effect : Effect limits w l w') (sound : w.store.Sound limits w.clock)
    (other : ∀ service request run, l ≠ .call service (.createRun request) (.ok (.run run)))
    {r : Uuid} {run' : Run} {job' : Job} (valid : (w'.store.lineage r).Valid limits run' job') :
    ∃ run job, (w.store.lineage r).Valid limits run job ∧
      (w.store.lineage r).Continues run job (w'.store.lineage r) run' job' := by
  cases effect with
  | evolve evolves => exact evolves.continues sound valid
  | replay hl | admission hl => exact (other _ _ _ hl).elim
  | enter _ lineage | clear _ _ lineage | registry lineage =>
    exact continues_of_lineage_eq lineage valid
  | deletion _ hstore =>
    rw [hstore] at valid ⊢
    exact Store.continues_of_deleteRuns valid

/-- Nor does it leave the rows of one in disorder. -/
theorem Effect.sound (effect : Effect limits w l w') (sound : w.store.Sound limits w.clock)
    (other : ∀ service request run, l ≠ .call service (.createRun request) (.ok (.run run))) :
    w'.store.Sound limits w.clock := by
  cases effect with
  | evolve evolves => exact evolves.sound sound
  | replay hl | admission hl => exact (other _ _ _ hl).elim
  | enter _ lineage | clear _ _ lineage | registry lineage =>
    intro r
    rw [lineage]
    exact sound r
  | deletion _ hstore =>
    intro r
    rw [hstore, Store.lineage_deleteRuns]
    split_ifs
    · exact .inl rfl
    · exact sound r

theorem Effect.follows (h : Effect limits w l w') (inv : w.Invariant limits)
    (clock : w.clock ≤ w'.clock) (drawn : ∀ id ∈ w.drawn, id ∈ w'.drawn) :
    w.Follows limits w' := by
  cases h with
  | evolve evolves =>
    refine ⟨drawn, clock, evolves.system.executionEpoch.ge, evolves.system.isSome,
      fun valid => .inl ?_⟩
    exact evolves.continues inv.sound valid
  | replay _ consumes =>
    exact ⟨drawn, clock, consumes.system.executionEpoch.ge, consumes.system.isSome,
      fun valid => .inl (consumes.continues valid)⟩
  | @admission service request run job _ freshRun freshJob _ _ admitted =>
    refine ⟨drawn, clock, admitted.system.executionEpoch.ge, admitted.system.isSome, ?_⟩
    intro r run' job' valid
    by_cases hr : r = request.runId
    · subst hr
      obtain rfl := admitted.valid.eq_job valid.jobs
      exact .inr ⟨freshRun, admitted.jobId ▸ freshJob⟩
    · rw [admitted.other r hr] at valid ⊢
      exact .inl ⟨run', job', valid, .refl _ _ _⟩
  | enter _ lineage hsystem hepoch _ =>
    refine ⟨drawn, clock, ?_, fun _ => by simp [hsystem], fun valid => .inl (continues_of_lineage_eq lineage valid)⟩
    rw [Store.executionEpoch_of_system hsystem, hepoch]
    exact Nat.le_succ _
  | clear _ _ lineage hsystem hepoch =>
    refine ⟨drawn, clock, ?_, fun _ => by simp [hsystem], fun valid => .inl (continues_of_lineage_eq lineage valid)⟩
    rw [Store.executionEpoch_of_system hsystem, hepoch]
  | deletion _ hstore _ =>
    refine ⟨drawn, clock, ?_, fun row => hstore ▸ row, fun valid => .inl ?_⟩
    · rw [hstore]
      exact Nat.le_refl _
    · rw [hstore] at valid ⊢
      exact Store.continues_of_deleteRuns valid
  | registry lineage hsystem =>
    refine ⟨drawn, clock, ?_, fun row => hsystem ▸ row, fun valid => .inl (continues_of_lineage_eq lineage valid)⟩
    rw [Store.executionEpoch, Store.executionEpoch, hsystem]

/-- When every run continues an earlier one, the identifiers stay as they are. -/
theorem World.Invariant.of_continues (inv : w.Invariant limits)
    (drawn : ∀ id ∈ w.drawn, id ∈ w'.drawn) (sound : w'.store.Sound limits w'.clock)
    (continues : ∀ {r run' job'}, (w'.store.lineage r).Valid limits run' job' →
      ∃ run job, (w.store.lineage r).Valid limits run job ∧
        (w.store.lineage r).Continues run job (w'.store.lineage r) run' job')
    (epoch : ∀ {r run job}, (w.store.lineage r).Valid limits run job →
      job.executionEpoch ≤ w'.store.executionEpoch ∧
        (w'.store.quarantined = false → run.status.terminal = false →
          job.executionEpoch = w'.store.executionEpoch)) :
    w'.Invariant limits where
  sound := sound
  drawn := by
    intro r run' job' valid
    obtain ⟨run, job, before, kept⟩ := continues valid
    rw [Job.id_of_pinned kept.pinnedJob]
    obtain ⟨hr, hj⟩ := inv.drawn before
    exact ⟨drawn r hr, drawn _ hj⟩
  unique := by
    intro r q run' run'' job' job'' valid valid' heq
    obtain ⟨_, _, before, kept⟩ := continues valid
    obtain ⟨_, _, before', kept'⟩ := continues valid'
    rw [Job.id_of_pinned kept.pinnedJob, Job.id_of_pinned kept'.pinnedJob] at heq
    exact inv.unique before before' heq
  epoch := by
    intro r run' job' valid
    obtain ⟨run, job, before, kept⟩ := continues valid
    rw [Job.executionEpoch_of_pinned kept.pinnedJob]
    obtain ⟨le, same⟩ := epoch before
    refine ⟨le, fun hq live => same hq ?_⟩
    by_contra ended
    rw [Bool.not_eq_false] at ended
    rw [(kept.terminal ended).1, ended] at live
    cases live

theorem World.Invariant.of_effect (inv : w.Invariant limits) (h : Effect limits w l w')
    (clock : w.clock ≤ w'.clock) (drawn : ∀ id ∈ w.drawn, id ∈ w'.drawn) :
    w'.Invariant limits := by
  have sound (lineage : ∀ r, w'.store.lineage r = w.store.lineage r) :
      w'.store.Sound limits w'.clock := by
    intro r
    rw [lineage]
    exact inv.sound.mono clock r
  cases h with
  | evolve evolves =>
    refine inv.of_continues drawn ((evolves.sound inv.sound).mono clock)
      (evolves.continues inv.sound) ?_
    intro r run job valid
    rw [evolves.system.executionEpoch, evolves.system.quarantined]
    exact inv.epoch valid
  | replay _ consumes =>
    refine inv.of_continues drawn ((consumes.sound inv.sound).mono clock) consumes.continues ?_
    intro r run job valid
    rw [consumes.system.executionEpoch, consumes.system.quarantined]
    exact inv.epoch valid
  | @admission service request run job _ freshRun freshJob drawnRun drawnJob admitted =>
    have cases {r : Uuid} {run' : Run} {job' : Job}
        (valid : (w'.store.lineage r).Valid limits run' job') :
        r = request.runId ∧ job' = job ∨ (w.store.lineage r).Valid limits run' job' := by
      by_cases hr : r = request.runId
      · subst hr
        exact .inl ⟨rfl, (valid.eq_job admitted.valid.jobs).symm⟩
      · rw [admitted.other r hr] at valid
        exact .inr valid
    exact {
      sound := by
        intro r
        by_cases hr : r = request.runId
        · subst hr
          exact .inr ⟨run, job, admitted.valid, admitted.created⟩
        · rw [admitted.other r hr]
          exact inv.sound.mono clock r
      drawn := by
        intro r run' job' valid
        rcases cases valid with ⟨rfl, rfl⟩ | before
        · exact ⟨drawnRun, admitted.jobId ▸ drawnJob⟩
        · obtain ⟨hr, hj⟩ := inv.drawn before
          exact ⟨drawn r hr, drawn _ hj⟩
      unique := by
        intro r q run' run'' job' job'' valid valid' heq
        rcases cases valid with ⟨rfl, rfl⟩ | before <;>
          rcases cases valid' with ⟨rfl, rfl⟩ | before'
        · rfl
        · rw [admitted.jobId] at heq
          exact (freshJob (heq ▸ (inv.drawn before').2)).elim
        · rw [admitted.jobId] at heq
          exact (freshJob (heq ▸ (inv.drawn before).2)).elim
        · exact inv.unique before before' heq
      epoch := by
        intro r run' job' valid
        rw [admitted.system.executionEpoch, admitted.system.quarantined]
        rcases cases valid with ⟨rfl, rfl⟩ | before
        · exact ⟨admitted.epoch.le, fun _ _ => admitted.epoch⟩
        · exact inv.epoch before }
  | enter _ lineage hsystem hepoch quarantined =>
    refine inv.of_continues drawn (sound lineage) (continues_of_lineage_eq lineage) ?_
    intro r run job valid
    rw [Store.executionEpoch_of_system hsystem, Store.quarantined_of_system hsystem, hepoch,
      quarantined]
    exact ⟨(inv.epoch valid).1.trans (Nat.le_succ _), nofun⟩
  | clear _ _ lineage hsystem hepoch _ idle =>
    refine inv.of_continues drawn (sound lineage) (continues_of_lineage_eq lineage) ?_
    intro r run job valid
    rw [Store.executionEpoch_of_system hsystem, hepoch]
    refine ⟨(inv.epoch valid).1, fun _ live => ?_⟩
    have mem : run ∈ (w.store.lineage r).runs := by simp [valid.runs]
    have := idle run (Store.mem_lineage_runs.mp mem).1
    simp [live] at this
  | deletion _ hstore _ =>
    refine inv.of_continues drawn (fun r => ?_) (fun valid => ?_) ?_
    · rw [hstore, Store.lineage_deleteRuns]
      split_ifs
      · exact .inl rfl
      · exact inv.sound.mono clock r
    · rw [hstore] at valid ⊢
      exact Store.continues_of_deleteRuns valid
    · intro r run job valid
      rw [hstore]
      exact inv.epoch valid
  | registry lineage hsystem =>
    refine inv.of_continues drawn (sound lineage) (continues_of_lineage_eq lineage) ?_
    have hepoch : w'.store.executionEpoch = w.store.executionEpoch := by
      rw [Store.executionEpoch, Store.executionEpoch, hsystem]
    have hquarantined : w'.store.quarantined = w.store.quarantined := by
      rw [Store.quarantined, Store.quarantined, hsystem]
    intro r run job valid
    rw [hepoch, hquarantined]
    exact inv.epoch valid

/-! ## Runs of the system -/

theorem Step.invariant (h : Step P limits w l w') (inv : w.Invariant limits) :
    w'.Invariant limits := inv.of_effect (h.effect inv) h.clock h.drawn

theorem Step.follows (h : Step P limits w l w') (inv : w.Invariant limits) :
    w.Follows limits w' := (h.effect inv).follows inv h.clock h.drawn

theorem World.Initial.invariant (h : w.Initial) : w.Invariant limits where
  sound r := .inl (h r)
  drawn valid := (valid.ne_empty (h _)).elim
  unique valid := (valid.ne_empty (h _)).elim
  epoch valid := (valid.ne_empty (h _)).elim

/-- The worlds an installation can be in. -/
def World.Reached (P : Platform) (limits : ExecutionLimits) (w : World) : Prop :=
  Reachable World.Initial (Step P limits) w

theorem World.Reached.invariant (h : w.Reached P limits) : w.Invariant limits :=
  Reachable.invariant (fun _ hw => hw.invariant) (fun _ _ _ inv step => step.invariant inv) h

variable {ls : List Label}

theorem World.Reached.extend (h : w.Reached P limits) (path : Path (Step P limits) w ls w') :
    w'.Reached P limits := Reachable.extend h path

theorem follows_of_path (path : Path (Step P limits) w ls w') (inv : w.Invariant limits) :
    w.Follows limits w' :=
  path.relation .refl (fun _ _ _ h g => h.trans g) (fun _ _ _ inv step => step.invariant inv)
    (fun _ _ _ inv step => step.follows inv) inv

end Steps

/-! ## Calls as they are made -/

/-- The world after a call that nothing is held from and that no time passes after. -/
def World.after (P : Platform) (service : ExecutionService) (ticks : List Nat) (call : Call)
    (w : World) : World :=
  let outcome := transact (call.run service P) (.begin w.store w.clock ticks [] [])
  ⟨outcome.store, max w.clock outcome.clock, call.draws ++ w.drawn, call.nonces ++ w.nonces⟩

/-- The label of that call. -/
def World.label (P : Platform) (service : ExecutionService) (ticks : List Nat) (call : Call)
    (w : World) : Label :=
  .call service call (transact (call.run service P) (.begin w.store w.clock ticks [] [])).result

theorem World.step_after (P : Platform) (service : ExecutionService) (ticks : List Nat)
    (call : Call) (w : World) (fresh : ∀ id ∈ call.draws, id ∉ w.drawn)
    (freshNonce : ∀ n ∈ call.nonces, n ∉ w.nonces) :
    Step P service.limits w (w.label P service ticks call) (w.after P service ticks call) :=
  .call ticks [] _ rfl fresh freshNonce rfl (Int.le_max_left ..) (Int.le_max_right ..)

end Modall
