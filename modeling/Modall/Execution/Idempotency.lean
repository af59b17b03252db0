import Modall.Execution.Safety

/-!
# Idempotent admission

`create_run` records the idempotency key it was called with under whichever HMAC key was
active, and looks a key up under every version it is configured with. The results here hold
for every rotation of the keyrings and for calls that overlap: a history is a world together
with the stores that were committed before, and a call may have begun on any of them. It waits
at the workspace or at the run it replays while others commit, and writes to the present store.
-/
namespace Modall
open Library

/-- The request that a call asks to be recorded, unless it raises before it gets there. -/
def ExecutionService.canonical (service : ExecutionService) (P : Platform)
    (request : RunRequest) : Except Failure CanonicalRequest := do
  let arguments ← P.normalizeArguments service.limits request.arguments
  let claims ← service.decodeConfirmation P request.confirmationToken
  let deadline ← canonicalizeDeadline request.deadline
  return canonicalRequest claims request.capabilityVersionId arguments.2 deadline

/-- The keyring gives every version the secret that it denotes everywhere. -/
def ExecutionService.Agrees (service : ExecutionService) (secretOf : String → Bytes) : Prop :=
  ∀ key ∈ service.idempotencyKeys, key.secret = secretOf key.version

instance (service : ExecutionService) (secretOf : String → Bytes) :
    Decidable (service.Agrees secretOf) :=
  inferInstanceAs (Decidable (∀ key ∈ service.idempotencyKeys, key.secret = secretOf key.version))

def Label.Agrees (secretOf : String → Bytes) : Label → Prop
  | .call service _ _ => service.Agrees secretOf
  | .registry _ => True

/-- The two calls are made by one actor in one workspace under one key. -/
def RunRequest.SameScope (a b : RunRequest) : Prop :=
  a.context.workspaceId = b.context.workspaceId ∧
    a.context.actorUserId = b.context.actorUserId ∧ a.idempotencyKey = b.idempotencyKey

def Store.Retains (store : Store) (r : Uuid) : Prop := ∃ run ∈ store.runs, run.id = r

instance (store : Store) (r : Uuid) : Decidable (store.Retains r) :=
  inferInstanceAs (Decidable (∃ run ∈ store.runs, run.id = r))

/-- A world and the stores that have been committed on the way to it. -/
structure History where
  world : World
  past : List Store

/-- A `create_run` that overlaps with other transactions. It has read `began` without a lock;
each of its waits shows it a store that has been committed since, and the last one the present
store. It holds the system row shared from its beginning, and the run that it replays is not
deleted under its lock. -/
inductive History.Overlapped (P : Platform) (limits : ExecutionLimits)
    (secretOf : String → Bytes) (h : History) (service : ExecutionService)
    (request : RunRequest) (began : Store) : Except Failure Reply → History → Prop where
  | returns {stores : List Store} {start : Time} {ticks : List Nat} {held : List Uuid} {run : Run}
      {t : Session} (later : Time) : service.Agrees secretOf → service.limits = limits →
      (∀ id ∈ (Call.createRun request).draws, id ∉ h.world.drawn) →
      began ∈ h.past → (∀ x ∈ stores, x ∈ h.past) →
      began.system.isSome = true → began.system = h.world.store.system →
      service.createRun P request (.begin began start ticks held
        ((stores ++ [h.world.store]).map committed)) = .ok run t → t.commits = [] →
      (run.id ≠ request.runId → h.world.store.Retains run.id) →
      h.world.clock ≤ later → t.clock ≤ later →
      Overlapped P limits secretOf h service request began (.ok (.run run))
        ⟨⟨t.objects, later, (Call.createRun request).draws ++ h.world.drawn, h.world.nonces⟩,
          h.world.store :: h.past⟩
  | raises {stores : List Store} {start : Time} {ticks : List Nat} {held : List Uuid}
      {e : Failure} {t : Session} (later : Time) : service.Agrees secretOf →
      service.limits = limits → (∀ id ∈ (Call.createRun request).draws, id ∉ h.world.drawn) →
      began ∈ h.past → (∀ x ∈ stores, x ∈ h.past) →
      service.createRun P request (.begin began start ticks held
        ((stores ++ [h.world.store]).map committed)) = .error e t →
      h.world.clock ≤ later → t.clock ≤ later →
      Overlapped P limits secretOf h service request began (.error e)
        ⟨⟨h.world.store, later, (Call.createRun request).draws ++ h.world.drawn,
          h.world.nonces⟩, h.world.store :: h.past⟩

/-- A transaction runs by itself, or a `create_run` overlaps with others. -/
inductive History.Step (P : Platform) (limits : ExecutionLimits) (secretOf : String → Bytes) :
    History → Label → History → Prop where
  | alone {h : History} {l : Label} {w : World} : l.Agrees secretOf →
      Modall.Step P limits h.world l w →
      Step P limits secretOf h l ⟨w, h.world.store :: h.past⟩
  | overlapped {h h' : History} {service : ExecutionService} {request : RunRequest}
      {began : Store} {result : Except Failure Reply} :
      h.Overlapped P limits secretOf service request began result h' →
      Step P limits secretOf h (.call service (.createRun request) result) h'

def History.Initial (h : History) : Prop := h.world.Initial ∧ h.past = []

section Records
variable {P : Platform} {limits : ExecutionLimits} {secretOf : String → Bytes}
  {service : ExecutionService} {request : RunRequest} {presented : Presented} {run : Run}
  {record : IdempotencyRecord} {s t : Session} {w w' : World} {l : Label} {h h' : History}

theorem PresentHolds.canonical (holds : PresentHolds service P request s t presented) :
    service.canonical P request = .ok (canonicalRequest presented.claims
      request.capabilityVersionId presented.argumentDigest presented.requestedDeadline) := by
  simp only [ExecutionService.canonical, holds.normalized, holds.decoded, holds.deadline]
  rfl

/-- The record of a call in this scope, under whichever key it was authenticated. -/
structure IdempotencyRecord.For (P : Platform) (secretOf : String → Bytes)
    (record : IdempotencyRecord) (request : RunRequest) : Prop where
  workspaceId : record.workspaceId = request.context.workspaceId
  actorUserId : record.actorUserId = request.context.actorUserId
  method : record.method = runMethod
  route : record.route = runRoute
  keyHmac : record.keyHmac = P.hmacHex (secretOf record.keyVersion)
    (.key request.context.workspaceId request.context.actorUserId runMethod runRoute
      request.idempotencyKey)

theorem IdempotencyRecord.For.congr {other : RunRequest} (h : record.For P secretOf request)
    (same : request.SameScope other) : record.For P secretOf other := by
  obtain ⟨hw, ha, hk⟩ := same
  obtain ⟨h₁, h₂, h₃, h₄, h₅⟩ := h
  rw [hw] at h₁ h₅
  rw [ha] at h₂ h₅
  rw [hk] at h₅
  exact ⟨h₁, h₂, h₃, h₄, h₅⟩

/-- A record is of one scope only. -/
theorem IdempotencyRecord.For.sameScope {other : RunRequest} (injective : P.HmacInjective)
    (h : record.For P secretOf request) (g : record.For P secretOf other) :
    request.SameScope other := by
  have message := injective _ _ _ (h.keyHmac.symm.trans g.keyHmac)
  injection message with hw ha _ _ hk
  exact ⟨hw, ha, hk⟩

/-- A record that a lookup finds is of the scope that was looked up. -/
theorem IdempotencyRecord.For.of_matchesKey (agrees : service.Agrees secretOf)
    (h : P.matchesKey service.idempotencyKeys request.context request.idempotencyKey record =
      true) : record.For P secretOf request := by
  simp only [Platform.matchesKey, Bool.and_eq_true, beq_iff_eq, List.any_eq_true] at h
  obtain ⟨⟨⟨⟨workspaceId, actorUserId⟩, method⟩, route⟩, key, mem, version, hmac⟩ := h
  refine ⟨workspaceId, actorUserId, method, route, ?_⟩
  rw [hmac, version, ← agrees key mem]
  rfl

/-- A lookup finds every record of its scope whose version is configured. -/
theorem IdempotencyRecord.For.matchesKey (agrees : service.Agrees secretOf)
    (configured : record.keyVersion ∈ service.idempotencyKeys.map HmacKeyVersion.version)
    (h : record.For P secretOf request) :
    P.matchesKey service.idempotencyKeys request.context request.idempotencyKey record = true := by
  obtain ⟨key, mem, version⟩ := List.mem_map.mp configured
  simp only [Platform.matchesKey, Bool.and_eq_true, beq_iff_eq, List.any_eq_true]
  refine ⟨⟨⟨⟨h.workspaceId, h.actorUserId⟩, h.method⟩, h.route⟩, key, mem, version.symm, ?_⟩
  rw [h.keyHmac, ← version, ← agrees key mem]
  rfl

theorem keyByVersion_eq_some {keys : List HmacKeyVersion} {version : String}
    {key : HmacKeyVersion} (h : keyByVersion keys version = some key) :
    key ∈ keys ∧ key.version = version :=
  ⟨List.mem_of_find?_eq_some h, by simpa using List.find?_some h⟩

/-! ## Records across worlds -/

/-- A run that has been deleted does not come back. -/
theorem World.Follows.gone (follows : w.Follows limits w') (inv' : w'.Invariant limits) {r : Uuid}
    (drawn : r ∈ w.drawn) (empty : w.store.lineage r = .empty) :
    w'.store.lineage r = .empty := by
  rcases inv'.sound r with he | ⟨run', job', valid', -⟩
  · exact he
  · rcases follows.run valid' with ⟨_, _, valid, -⟩ | ⟨fresh, -⟩
    · exact (valid.ne_empty empty).elim
    · exact (fresh drawn).elim

/-- A record stays for as long as its run is retained. -/
theorem World.Follows.keeps_record (follows : w.Follows limits w') (inv : w.Invariant limits)
    (inv' : w'.Invariant limits) (mem : record ∈ w.store.records) :
    w'.store.lineage record.resourceId = .empty ∨ record ∈ w'.store.records := by
  obtain ⟨run, job, valid, only, -⟩ := inv.of_mem_records mem
  rcases inv'.sound record.resourceId with he | ⟨run', job', valid', -⟩
  · exact .inl he
  · have kept := (follows.continues inv valid valid').records
    have mine : record ∈ (w'.store.lineage record.resourceId).records := by simp [kept, only]
    exact .inr (Store.mem_lineage_records.mp mine).1

theorem World.Invariant.record_drawn (inv : w.Invariant limits) (mem : record ∈ w.store.records) :
    record.resourceId ∈ w.drawn := by
  obtain ⟨run, job, valid, -⟩ := inv.of_mem_records mem
  exact (inv.drawn valid).1

/-- A run has one record. -/
theorem World.Invariant.record_unique (inv : w.Invariant limits) {other : IdempotencyRecord}
    (mem : record ∈ w.store.records) (mem' : other ∈ w.store.records)
    (same : record.resourceId = other.resourceId) : record = other := by
  obtain ⟨run, job, -, only, -⟩ := inv.of_mem_records mem
  have mine := Store.mem_lineage_records.mpr ⟨mem', same.symm⟩
  rw [only, List.mem_singleton] at mine
  exact mine.symm

theorem World.Invariant.lineage_ne_empty {r : Uuid} (retained : w.store.Retains r) :
    w.store.lineage r ≠ .empty := by
  obtain ⟨run, mem, hr⟩ := retained
  intro empty
  have mine := Store.mem_lineage_runs.mpr ⟨mem, hr⟩
  rw [empty] at mine
  cases mine

/-- Only an admission adds a record. -/
theorem Effect.old_record (effect : Effect limits w l w') (inv : w.Invariant limits)
    (inv' : w'.Invariant limits)
    (other : ∀ service request run, l ≠ .call service (.createRun request) (.ok (.run run)))
    (mem : record ∈ w'.store.records) : record ∈ w.store.records := by
  obtain ⟨run', job', valid', -⟩ := inv'.of_mem_records mem
  have mine := Store.mem_lineage_records.mpr ⟨mem, rfl⟩
  obtain ⟨run, job, -, continues⟩ := effect.continues inv.sound other valid'
  rw [continues.records] at mine
  exact (Store.mem_lineage_records.mp mine).1

/-! ## What a call returns -/

/-- The record under which a call is known from now on. -/
structure IdempotencyRecord.Records (P : Platform) (secretOf : String → Bytes)
    (record : IdempotencyRecord) (service : ExecutionService) (request : RunRequest)
    (run : Run) : Prop where
  scope : record.For P secretOf request
  resourceId : record.resourceId = run.id
  requestHmac : ∃ canonical, service.canonical P request = .ok canonical ∧
    record.requestHmac = P.hmacHex (secretOf record.keyVersion) (.request canonical)

/-- A successful call has found its record in the present store, under a key it is configured
with, or it has admitted a run after finding that there is none. -/
inductive Returned (P : Platform) (secretOf : String → Bytes) (service : ExecutionService)
    (request : RunRequest) (run : Run) (store store' : Store) : Prop where
  | replayed (record : IdempotencyRecord) : record ∈ store.records →
      record.Records P secretOf service request run →
      record.keyVersion ∈ service.idempotencyKeys.map HmacKeyVersion.version →
      store'.runs = store.runs → store'.records = store.records →
      Returned P secretOf service request run store store'
  | admitted (record : IdempotencyRecord) : service.Configured store →
      (∀ other ∈ store.records, ¬ other.For P secretOf request) →
      record.Records P secretOf service request run →
      store'.records = store.records ++ [record] →
      Returned P secretOf service request run store store'

theorem Returned.recorded {store store' : Store}
    (returned : Returned P secretOf service request run store store') :
    ∃ record ∈ store'.records, record.Records P secretOf service request run := by
  cases returned with
  | replayed record mem records _ _ hr => exact ⟨record, hr ▸ mem, records⟩
  | admitted record _ _ records hr => exact ⟨record, by simp [hr], records⟩

theorem returned_of_views {seen : List Store} {store : Store} (agrees : service.Agrees secretOf)
    (flushed : s.objects = s.rows) (views : s.Views t seen store)
    (present : ∀ x ∈ seen, ∀ record ∈ x.records, record.resourceId = run.id →
      record ∈ store.records)
    (h : service.createRun P request s = .ok run t) :
    Returned P secretOf service request run store t.objects := by
  obtain ⟨presented, u, holds, result⟩ := createRun_views flushed views h
  rcases result with ⟨record, x, v, v', z, hx, mem, matched, replays, opens⟩ |
    ⟨v, target, deadline, admits, -, opens⟩
  · obtain ⟨key, found, hmac⟩ := replays.authentic
    obtain ⟨hkey, version⟩ := keyByVersion_eq_some found
    rw [agrees key hkey, version] at hmac
    have rows : t.rows.runs = z.rows.runs ∧ t.rows.records = z.rows.records := by
      rcases replays.consumed with ⟨nonce, -, -, -, rows⟩ | ⟨-, rows⟩ <;> rw [rows] <;>
        exact ⟨rfl, rfl⟩
    refine .replayed record (present x hx record mem replays.runId.symm)
      ⟨.of_matchesKey agrees matched, replays.runId.symm, _, holds.canonical, hmac⟩ ?_ ?_ ?_
    · rw [← version]
      exact List.mem_map_of_mem hkey
    · rw [replays.flushed, rows.1, opens.runs]
    · rw [replays.flushed, rows.2, opens.records]
  · have configured : service.Configured store := by
      obtain ⟨h₁, h₂, h₃⟩ := admits.configured
      rw [opens.records] at h₁ h₂
      rw [opens.nonces] at h₃
      exact ⟨h₁, h₂, h₃⟩
    have active := agrees _ (List.head_mem service.idempotency_valid.1)
    obtain ⟨audit, rows⟩ := admits.rows
    refine .admitted (service.admittedRecord P request presented t.clock) configured ?_
      ⟨⟨rfl, rfl, rfl, rfl, ?_⟩, admits.run_id.symm, _, holds.canonical, ?_⟩ ?_
    · intro other mem scope
      have unmatched := admits.unmatched other (opens.records ▸ mem)
      rw [scope.matchesKey agrees (configured.idempotency other mem)] at unmatched
      cases unmatched
    · exact congrArg (P.hmacHex · _) active
    · exact congrArg (P.hmacHex · _) active
    · rw [admits.flushed, rows]
      change v.rows.records ++ _ = _
      rw [opens.records]

/-! ## The invariant of histories -/

/-- No two records are of one scope, and a record of an earlier store is still there unless
its run has been deleted. -/
structure History.Invariant (P : Platform) (limits : ExecutionLimits)
    (secretOf : String → Bytes) (h : History) : Prop where
  world : h.world.Invariant limits
  one : ∀ a ∈ h.world.store.records, ∀ b ∈ h.world.store.records, ∀ request,
    a.For P secretOf request → b.For P secretOf request → a.resourceId = b.resourceId
  past : ∀ x ∈ h.past, ∀ record ∈ x.records, record.resourceId ∈ h.world.drawn ∧
    (h.world.store.lineage record.resourceId = .empty ∨ record ∈ h.world.store.records)

/-- What the present store has of a record that a call may have met. -/
theorem History.Invariant.present (inv : h.Invariant P limits secretOf) {x : Store}
    (seen : x ∈ h.world.store :: h.past) (mem : record ∈ x.records)
    (retained : h.world.store.Retains record.resourceId) : record ∈ h.world.store.records := by
  rcases List.mem_cons.mp seen with rfl | earlier
  · exact mem
  · exact ((inv.past x earlier record mem).2.resolve_left
      (World.Invariant.lineage_ne_empty retained))

theorem History.Invariant.drawn (inv : h.Invariant P limits secretOf) {x : Store}
    (seen : x ∈ h.world.store :: h.past) (mem : record ∈ x.records) :
    record.resourceId ∈ h.world.drawn := by
  rcases List.mem_cons.mp seen with rfl | earlier
  · exact inv.world.record_drawn mem
  · exact (inv.past x earlier record mem).1

/-- An overlapped call has an effect that the ledger allows, and one that succeeds has found
its record in the present store. -/
theorem History.Overlapped.cases {began : Store} {result : Except Failure Reply}
    (overlapped : h.Overlapped P limits secretOf service request began result h')
    (inv : h.Invariant P limits secretOf) :
    Effect limits h.world (.call service (.createRun request) result) h'.world ∧
      h.world.clock ≤ h'.world.clock ∧ (∀ id ∈ h.world.drawn, id ∈ h'.world.drawn) ∧
      h'.past = h.world.store :: h.past ∧
      ((∃ e, result = .error e ∧ h'.world.store = h.world.store) ∨
        ∃ run, result = .ok (.run run) ∧ service.Configured began ∧
          Returned P secretOf service request run h.world.store h'.world.store) := by
  cases overlapped with
  | @returns stores start ticks held run t later agrees same fresh hbegan hstores row system
      created done retained le hlater =>
    have seen : ∀ x ∈ stores ++ [h.world.store], x ∈ h.world.store :: h.past := by
      intro x hx
      rcases List.mem_append.mp hx with hx | hx
      · exact List.mem_cons_of_mem _ (hstores x hx)
      · simp [List.mem_singleton.mp hx]
    have views : (Session.begin began start ticks held
        ((stores ++ [h.world.store]).map committed)).Views t (h.world.store :: h.past)
        h.world.store :=
      views_of_waits row (List.mem_cons_of_mem _ hbegan) seen done List.getLast?_concat
    have locked {x : Store} (hx : x ∈ h.world.store :: h.past) {record : IdempotencyRecord}
        (mem : record ∈ x.records) (hrun : record.resourceId = run.id) :
        h.world.store.Retains run.id := by
      refine retained fun heq => fresh request.runId (by simp [Call.draws]) ?_
      rw [← heq, ← hrun]
      exact inv.drawn hx mem
    refine ⟨?_, le, fun id mem => List.mem_append_right _ mem, rfl, .inr ⟨run, rfl, ?_, ?_⟩⟩
    · refine createRun_effect inv.world rfl views created same fresh rfl rfl hlater ?_ ?_
        fun x hx record mem heq => locked hx mem heq.symm
      · exact congrArg (fun row => (row.map SystemExecutionState.executionEpoch).getD 1) system
      · exact congrArg (fun row => (row.map SystemExecutionState.dispatchQuarantined).getD false)
          system
    · obtain ⟨presented, u, -, holds, -⟩ := createRun_ok rfl created
      exact holds.configured
    · refine returned_of_views agrees rfl views ?_ created
      intro x hx record mem hrun
      exact inv.present hx mem (hrun ▸ locked hx mem hrun)
  | raises =>
    exact ⟨.evolve (.refl _), by assumption, fun id mem => List.mem_append_right _ mem, rfl,
      .inl ⟨_, rfl, rfl⟩⟩

/-- What a call that nothing interferes with returns. -/
theorem Step.returned {result : Except Failure Reply} (agrees : service.Agrees secretOf)
    (step : Step P limits w (.call service (.createRun request) result) w') :
    (∃ e, result = .error e ∧ w'.store = w.store) ∨
      ∃ run, result = .ok (.run run) ∧
        Returned P secretOf service request run w.store w'.store := by
  rcases step.cases_call with raised | ⟨reply, s, t, rfl, ran⟩
  · exact .inl raised
  · obtain ⟨run, u, created, hr⟩ := bind_eq_ok.mp ran.ran
    injection hr with hreply ht
    subst hreply ht
    have views := ran.settled.views u
    rw [ran.rows] at views
    refine .inr ⟨run, rfl, ?_⟩
    rw [ran.store]
    refine returned_of_views agrees ran.settled.flushed views ?_ created
    intro x hx record mem _
    exact List.mem_singleton.mp hx ▸ mem

theorem History.Step.cases (step : h.Step P limits secretOf l h')
    (inv : h.Invariant P limits secretOf) :
    Effect limits h.world l h'.world ∧ h.world.clock ≤ h'.world.clock ∧
      (∀ id ∈ h.world.drawn, id ∈ h'.world.drawn) ∧ h'.past = h.world.store :: h.past ∧
      ∀ service request result, l = .call service (.createRun request) result →
        (∃ e, result = .error e ∧ h'.world.store = h.world.store) ∨
          ∃ run, result = .ok (.run run) ∧
            Returned P secretOf service request run h.world.store h'.world.store := by
  cases step with
  | alone agrees step =>
    refine ⟨step.effect inv.world, step.clock, step.drawn, rfl, ?_⟩
    rintro service request result rfl
    exact step.returned agrees
  | overlapped overlapped =>
    obtain ⟨effect, clock, drawn, past, outcome⟩ := overlapped.cases inv
    refine ⟨effect, clock, drawn, past, ?_⟩
    rintro _ _ _ ⟨⟩
    exact outcome.imp_right fun ⟨run, hr, _, returned⟩ => ⟨run, hr, returned⟩

theorem History.Step.follows (step : h.Step P limits secretOf l h')
    (inv : h.Invariant P limits secretOf) :
    h.world.Follows limits h'.world ∧ h'.world.Invariant limits := by
  obtain ⟨effect, clock, drawn, -⟩ := step.cases inv
  exact ⟨effect.follows inv.world clock drawn, inv.world.of_effect effect clock drawn⟩

/-- A scope that had no record has one after its run was admitted, and no other scope gets any. -/
theorem one_of_returned {store store' : Store} (injective : P.HmacInjective)
    (one : ∀ a ∈ store.records, ∀ b ∈ store.records, ∀ request,
      a.For P secretOf request → b.For P secretOf request → a.resourceId = b.resourceId)
    (returned : Returned P secretOf service request run store store') :
    ∀ a ∈ store'.records, ∀ b ∈ store'.records, ∀ request,
      a.For P secretOf request → b.For P secretOf request → a.resourceId = b.resourceId := by
  cases returned with
  | replayed record _ _ _ _ same =>
    rw [same]
    exact one
  | admitted record configured none records same =>
    -- a record in the scope of the new one would have been found
    have other : ∀ b ∈ store.records, ∀ request', record.For P secretOf request' →
        ¬ b.For P secretOf request' := by
      intro b mem request' new old
      exact none b mem (old.congr (new.sameScope injective records.scope))
    intro a ha b hb request' fa fb
    rw [same, List.mem_append, List.mem_singleton] at ha hb
    rcases ha with ha | rfl <;> rcases hb with hb | rfl
    · exact one a ha b hb request' fa fb
    · exact (other a ha request' fb fa).elim
    · exact (other b hb request' fa fb).elim
    · rfl

theorem History.Step.invariant (injective : P.HmacInjective) (step : h.Step P limits secretOf l h')
    (inv : h.Invariant P limits secretOf) : h'.Invariant P limits secretOf := by
  obtain ⟨effect, -, drawn, hpast, created⟩ := step.cases inv
  obtain ⟨follows, inv'⟩ := step.follows inv
  refine ⟨inv', ?_, ?_⟩
  · by_cases creates : ∃ service request run, l = .call service (.createRun request) (.ok (.run run))
    · obtain ⟨service, request, run, hl⟩ := creates
      rcases created service request _ hl with ⟨e, he, -⟩ | ⟨run', -, returned⟩
      · cases he
      · exact one_of_returned injective inv.one returned
    · have old (record : IdempotencyRecord) (mem : record ∈ h'.world.store.records) :
          record ∈ h.world.store.records := effect.old_record inv.world inv'
        (fun service request run hl => creates ⟨service, request, run, hl⟩) mem
      intro a ha b hb
      exact inv.one a (old a ha) b (old b hb)
  · rw [hpast]
    intro x hx record mem
    have met : record.resourceId ∈ h.world.drawn := inv.drawn hx mem
    refine ⟨drawn _ met, ?_⟩
    have now : h.world.store.lineage record.resourceId = .empty ∨
        record ∈ h.world.store.records := by
      rcases List.mem_cons.mp hx with rfl | earlier
      · exact .inr mem
      · exact (inv.past x earlier record mem).2
    rcases now with empty | mem
    · exact .inl (follows.gone inv' met empty)
    · exact follows.keeps_record inv.world inv' mem

theorem History.Initial.invariant (initial : h.Initial) : h.Invariant P limits secretOf where
  world := initial.1.invariant
  one a ha := by
    have mine := Store.mem_lineage_records.mpr ⟨ha, rfl⟩
    rw [initial.1] at mine
    cases mine
  past x hx := by
    rw [initial.2] at hx
    cases hx

/-- Every call of the history that returned a run is recorded, unless its run is gone. -/
def History.Remembers (P : Platform) (secretOf : String → Bytes) (h : History)
    (ls : List Label) : Prop :=
  ∀ service request run, .call service (.createRun request) (.ok (.run run)) ∈ ls →
    run.id ∈ h.world.drawn ∧ (h.world.store.lineage run.id = .empty ∨
      ∃ record ∈ h.world.store.records, record.Records P secretOf service request run)

theorem History.Step.remembers {ls : List Label} (step : h.Step P limits secretOf l h')
    (inv : h.Invariant P limits secretOf) (remembers : h.Remembers P secretOf ls) :
    h'.Remembers P secretOf (ls ++ [l]) := by
  obtain ⟨-, -, drawn, -, created⟩ := step.cases inv
  obtain ⟨follows, inv'⟩ := step.follows inv
  intro service request run mem
  rcases List.mem_append.mp mem with mem | mem
  · obtain ⟨met, before⟩ := remembers service request run mem
    refine ⟨drawn _ met, ?_⟩
    rcases before with empty | ⟨record, mem, records⟩
    · exact .inl (follows.gone inv' met empty)
    · rcases follows.keeps_record inv.world inv' mem with empty | kept
      · exact .inl (records.resourceId ▸ empty)
      · exact .inr ⟨record, kept, records⟩
  · rcases created service request _ (List.mem_singleton.mp mem).symm with ⟨e, he, -⟩ |
      ⟨run', heq, returned⟩
    · cases he
    · injection heq with heq
      injection heq with heq
      subst heq
      obtain ⟨record, mem, records⟩ := returned.recorded
      exact ⟨records.resourceId ▸ inv'.record_drawn mem, .inr ⟨record, mem, records⟩⟩

theorem remembers_of_path {h₀ : History} {ls : List Label} (injective : P.HmacInjective)
    (initial : h₀.Initial) (path : Path (History.Step P limits secretOf) h₀ ls h) :
    h.Invariant P limits secretOf ∧ h.Remembers P secretOf ls := by
  induction path with
  | nil => exact ⟨initial.invariant, fun _ _ _ mem => (List.not_mem_nil mem).elim⟩
  | snoc _ step ih => exact ⟨step.invariant injective ih.1, step.remembers ih.1 ih.2⟩

/-- The record of an earlier call whose run is retained. -/
theorem History.Remembers.recorded {ls : List Label} (remembers : h.Remembers P secretOf ls)
    (mem : .call service (.createRun request) (.ok (.run run)) ∈ ls)
    (retained : h.world.store.Retains run.id) :
    ∃ record ∈ h.world.store.records, record.Records P secretOf service request run :=
  ((remembers service request run mem).2).resolve_left (World.Invariant.lineage_ne_empty retained)

/-- Where the scope of a call has a record, the call has replayed that one. -/
theorem Returned.replays {store' : Store} {record₀ : IdempotencyRecord}
    (returned : Returned P secretOf service request run h.world.store store')
    (inv : h.Invariant P limits secretOf) (mem : record₀ ∈ h.world.store.records)
    (scope : record₀.For P secretOf request) :
    record₀.Records P secretOf service request run ∧
      record₀.keyVersion ∈ service.idempotencyKeys.map HmacKeyVersion.version := by
  cases returned with
  | replayed record mem' records configured _ _ =>
    have same := inv.one record mem' record₀ mem request records.scope scope
    obtain rfl := inv.world.record_unique mem' mem same
    exact ⟨records, configured⟩
  | admitted record _ none _ _ => exact (none record₀ mem scope).elim

theorem IdempotencyRecord.Records.canonical_eq {service₀ : ExecutionService}
    {request₀ : RunRequest} {run₀ : Run} (injective : P.HmacInjective)
    (records : record.Records P secretOf service request run)
    (records₀ : record.Records P secretOf service₀ request₀ run₀) :
    service.canonical P request = service₀.canonical P request₀ := by
  obtain ⟨c, hc, hmac⟩ := records.requestHmac
  obtain ⟨c₀, hc₀, hmac₀⟩ := records₀.requestHmac
  have message := injective _ _ _ (hmac.symm.trans hmac₀)
  injection message with message
  rw [hc, hc₀, message]

end Records

section Theorem
variable {P : Platform} {limits : ExecutionLimits} {secretOf : String → Bytes}
  {h₀ h : History} {ls : List Label}

/-- In every history, with whatever keyrings and overlaps: the retained runs of one scope are
one run; a call in the scope of a retained run returns that run or raises and changes nothing,
and it raises when its canonical request differs from the recorded one or its keyring lacks the
version of the record; and a keyring that lacks the version of any retained record admits no
run, and makes every call raise that did not begin before the record was written. -/
theorem idempotent_admission (injective : P.HmacInjective) (initial : h₀.Initial)
    (path : Path (History.Step P limits secretOf) h₀ ls h) :
    (∀ service₁ request₁ run₁ service₂ request₂ run₂,
        .call service₁ (.createRun request₁) (.ok (.run run₁)) ∈ ls →
        .call service₂ (.createRun request₂) (.ok (.run run₂)) ∈ ls →
        request₁.SameScope request₂ → h.world.store.Retains run₁.id →
        h.world.store.Retains run₂.id → run₁.id = run₂.id) ∧
      ∀ service request result h',
        h.Step P limits secretOf (.call service (.createRun request) result) h' →
        (∀ service₀ request₀ run₀,
          .call service₀ (.createRun request₀) (.ok (.run run₀)) ∈ ls →
          request₀.SameScope request → h.world.store.Retains run₀.id →
          ((∃ run, result = .ok (.run run) ∧ run.id = run₀.id) ∨
            ∃ e, result = .error e ∧ h'.world.store = h.world.store) ∧
          (service.canonical P request ≠ service₀.canonical P request₀ →
            ∃ e, result = .error e ∧ h'.world.store = h.world.store) ∧
          ((∃ record ∈ h.world.store.records, record.resourceId = run₀.id ∧ record.keyVersion ∉
              service.idempotencyKeys.map HmacKeyVersion.version) →
            ∃ e, result = .error e ∧ h'.world.store = h.world.store)) ∧
        ∀ record ∈ h.world.store.records,
          record.keyVersion ∉ service.idempotencyKeys.map HmacKeyVersion.version →
          h'.world.store.runs = h.world.store.runs ∧
          (Step P limits h.world (.call service (.createRun request) result) h'.world →
            ∃ e, result = .error e ∧ h'.world.store = h.world.store) ∧
          ∀ began, h.Overlapped P limits secretOf service request began result h' →
            record ∈ began.records →
            ∃ e, result = .error e ∧ h'.world.store = h.world.store := by
  obtain ⟨inv, remembers⟩ := remembers_of_path injective initial path
  refine ⟨?_, ?_⟩
  · intro service₁ request₁ run₁ service₂ request₂ run₂ mem₁ mem₂ same retained₁ retained₂
    obtain ⟨record₁, in₁, records₁⟩ := remembers.recorded mem₁ retained₁
    obtain ⟨record₂, in₂, records₂⟩ := remembers.recorded mem₂ retained₂
    rw [← records₁.resourceId, ← records₂.resourceId]
    exact inv.one _ in₁ _ in₂ request₂ (records₁.scope.congr same) records₂.scope
  · intro service request result h' step
    obtain ⟨-, -, -, -, created⟩ := step.cases inv
    have outcome := created service request result rfl
    refine ⟨?_, ?_⟩
    · intro service₀ request₀ run₀ mem same retained
      obtain ⟨record₀, in₀, records₀⟩ := remembers.recorded mem retained
      have scope₀ := records₀.scope.congr same
      rcases outcome with raised | ⟨run, rfl, returned⟩
      · exact ⟨.inr raised, fun _ => raised, fun _ => raised⟩
      · obtain ⟨records, configured⟩ := returned.replays inv in₀ scope₀
        refine ⟨.inl ⟨run, rfl, records.resourceId.symm.trans records₀.resourceId⟩, ?_, ?_⟩
        · exact fun differs => (differs (records.canonical_eq injective records₀)).elim
        · rintro ⟨record, mem', hrun, missing⟩
          obtain rfl := inv.world.record_unique mem' in₀ (hrun.trans records₀.resourceId.symm)
          exact (missing configured).elim
    · intro record mem missing
      refine ⟨?_, fun alone => ?_, fun began overlapped mem' => ?_⟩
      · rcases outcome with ⟨-, -, same⟩ | ⟨run, -, returned⟩
        · rw [same]
        · cases returned with
          | replayed _ _ _ _ same _ => exact same
          | admitted _ configured _ _ _ => exact (missing (configured.idempotency record mem)).elim
      · rcases alone.cases_call with raised | ⟨reply, s, t, -, ran⟩
        · exact raised
        · obtain ⟨run, u, created, -⟩ := bind_eq_ok.mp ran.ran
          obtain ⟨presented, v, -, holds, -⟩ := createRun_ok ran.settled.flushed created
          exact (missing (holds.configured.idempotency record (ran.rows.symm ▸ mem))).elim
      · obtain ⟨-, -, -, -, raised | ⟨run, -, configured, -⟩⟩ := overlapped.cases inv
        · exact raised
        · exact (missing (configured.idempotency record mem')).elim

end Theorem

/-- The run that a `create_run` returned in this step. -/
def Label.created : Label → Option Run
  | .call _ (.createRun _) (.ok (.run run)) => some run
  | _ => none

theorem Label.of_created {service : ExecutionService} {request : RunRequest}
    {result : Except Failure Reply} {run : Run}
    (h : (Label.call service (.createRun request) result).created = some run) :
    result = .ok (.run run) := by
  unfold created at h
  split at h
  · rename_i heq
    injection heq with _ _ hr
    injection h with h
    rw [hr, h]
  · cases h

namespace Sample

/-! Messages spelled out with the length of every part in front of it. -/

def countCode (n : Nat) : List Char := List.replicate n 'a' ++ ['b']

theorem countCode_inj {n m : Nat} {x y : List Char}
    (h : countCode n ++ x = countCode m ++ y) : n = m ∧ x = y := by
  induction n generalizing m with
  | zero =>
    cases m with
    | zero => simpa [countCode] using h
    | succ m => simp [countCode, List.replicate_succ] at h
  | succ n ih =>
    cases m with
    | zero => simp [countCode, List.replicate_succ] at h
    | succ m =>
      have rest : countCode n ++ x = countCode m ++ y := by
        simpa [countCode, List.replicate_succ] using h
      simpa using ih rest

def textCode (text : String) : List Char := countCode text.toList.length ++ text.toList

theorem textCode_inj {a b : String} {x y : List Char} (h : textCode a ++ x = textCode b ++ y) :
    a = b ∧ x = y := by
  simp only [textCode, List.append_assoc] at h
  obtain ⟨length, rest⟩ := countCode_inj h
  obtain ⟨text, rest⟩ := List.append_inj rest length
  exact ⟨String.toList_injective text, rest⟩

def deadlineCode : Option Time → List Char
  | none => ['n']
  | some (.ofNat n) => 'p' :: countCode n
  | some (.negSucc n) => 'm' :: countCode n

theorem deadlineCode_inj {a b : Option Time} {x y : List Char}
    (h : deadlineCode a ++ x = deadlineCode b ++ y) : a = b ∧ x = y := by
  match a, b with
  | none, none => simpa [deadlineCode] using h
  | some (.ofNat n), some (.ofNat m) | some (.negSucc n), some (.negSucc m) =>
    obtain ⟨rfl, rest⟩ := countCode_inj (List.cons.inj h).2
    exact ⟨rfl, rest⟩
  | none, some (.ofNat _) | none, some (.negSucc _) | some (.ofNat _), none
  | some (.negSucc _), none | some (.ofNat _), some (.negSucc _)
  | some (.negSucc _), some (.ofNat _) => simp [deadlineCode] at h

def messageCode : HmacMessage → List Char
  | .key workspaceId actorUserId method route rawKey =>
    'k' :: (countCode workspaceId.toNat ++ (countCode actorUserId.toNat ++
      (textCode method ++ (textCode route ++ (textCode rawKey ++ [])))))
  | .request r =>
    'r' :: (countCode r.capabilityId.toNat ++ (countCode r.capabilityVersionId.toNat ++
      (countCode r.connectionId.toNat ++ (countCode r.connectionVersionId.toNat ++
        (textCode r.argumentDigest ++ (deadlineCode r.deadline ++
          (textCode r.method ++ (textCode r.route ++ []))))))))

theorem messageCode_injective : Function.Injective messageCode := by
  intro a b h
  match a, b with
  | .key .., .request .. | .request .., .key .. => cases h
  | .key .., .key .. =>
    obtain ⟨h₁, h⟩ := countCode_inj (List.cons.inj h).2
    obtain ⟨h₂, h⟩ := countCode_inj h
    obtain ⟨h₃, h⟩ := textCode_inj h
    obtain ⟨h₄, h⟩ := textCode_inj h
    obtain ⟨h₅, -⟩ := textCode_inj h
    rw [BitVec.eq_of_toNat_eq h₁, BitVec.eq_of_toNat_eq h₂, h₃, h₄, h₅]
  | .request ⟨_, _, _, _, _, _, _, _⟩, .request ⟨_, _, _, _, _, _, _, _⟩ =>
    obtain ⟨h₁, h⟩ := countCode_inj (List.cons.inj h).2
    obtain ⟨h₂, h⟩ := countCode_inj h
    obtain ⟨h₃, h⟩ := countCode_inj h
    obtain ⟨h₄, h⟩ := countCode_inj h
    obtain ⟨h₅, h⟩ := textCode_inj h
    obtain ⟨h₆, h⟩ := deadlineCode_inj h
    obtain ⟨h₇, h⟩ := textCode_inj h
    obtain ⟨h₈, -⟩ := textCode_inj h
    simp_all [BitVec.toNat_inj]

/-- The sample platform with an HMAC that tells messages apart. -/
def keyed : Platform :=
  { platform with hmacHex := fun _ message => String.ofList (messageCode message) }

theorem keyed_injective : keyed.HmacInjective := fun _ _ _ h =>
  messageCode_injective (String.ofList_injective h)

def secretOf (version : String) : Bytes := List.replicate 32 (if version = "v2" then 9 else 7)

/-- The service after its idempotency keys were rotated. -/
def rotated : ExecutionService :=
  { service with
    idempotencyKeys := [⟨"v2", List.replicate 32 9⟩, key]
    idempotency_valid := by decide }

/-- The request once more, with another token. -/
def again : RunRequest :=
  { request with confirmationToken := some (token "m"), runId := 200, traceId := 201, jobId := 202 }

/-- The sample installation with its system row. -/
def opened : World :=
  { installed with store := { installed.store with system := some ⟨1, false, 0⟩ } }

def recorded : History :=
  ⟨opened.after keyed service [] (.createRun request), [opened.store]⟩

theorem records : Path (History.Step keyed .default secretOf) ⟨opened, []⟩
    [opened.label keyed service [] (.createRun request)] recorded :=
  have agrees : service.Agrees secretOf := by decide
  .single (.alone agrees (World.step_after keyed service [] _ opened
    (fun _ _ => List.not_mem_nil) nofun))

/-- A call that began before the run was recorded and waits for the workspace. -/
def loser : EStateM.Result Failure Session Run :=
  rotated.createRun keyed again
    (.begin opened.store 0 [] [] ([recorded.world.store].map committed))

/-- The loser returns the run of the winner, whose record it finds under the older key. -/
theorem loses : ∃ run h', recorded.Overlapped keyed .default secretOf rotated again opened.store
    (.ok (.run run)) h' ∧ run.id = 100 := by
  have outcome : (match loser with
      | .ok run t => run.id == 100 && t.commits.isEmpty && decide (t.clock ≤ 0)
      | .error _ _ => false) = true := by decide +kernel
  cases hl : loser with
  | error e t => simp [hl] at outcome
  | ok run t =>
    simp only [hl, Bool.and_eq_true, beq_iff_eq, decide_eq_true_eq, List.isEmpty_iff] at outcome
    obtain ⟨⟨hid, done⟩, clock⟩ := outcome
    have agrees : rotated.Agrees secretOf := by decide
    have fresh : ∀ id ∈ [again.runId, again.jobId], id ∉ [request.runId, request.jobId] := by
      simp [again, request]
    have system : opened.store.system = recorded.world.store.system := by decide +kernel
    have retained : recorded.world.store.Retains run.id := by
      rw [hid]
      decide +kernel
    have start : recorded.world.clock ≤ 0 := by decide +kernel
    exact ⟨run, _, .returns 0 agrees rfl fresh List.mem_cons_self
      (fun _ mem => (List.not_mem_nil mem).elim) rfl system hl done (fun _ => retained) start
      clock, hid⟩

end Sample

theorem idempotent_admission_sample :
    (∃ run h', Sample.recorded.Overlapped Sample.keyed .default Sample.secretOf Sample.rotated
        Sample.again Sample.opened.store (.ok (.run run)) h' ∧ run.id = 100) ∧
      ∀ service request result h', Sample.recorded.Step Sample.keyed .default Sample.secretOf
          (.call service (.createRun request) result) h' → Sample.request.SameScope request →
        (∃ run, result = .ok (.run run) ∧ run.id = 100) ∨
          ∃ e, result = .error e ∧ h'.world.store = Sample.recorded.world.store := by
  refine ⟨Sample.loses, fun service request result h' step same => ?_⟩
  have created : (Sample.opened.label Sample.keyed Sample.service []
      (.createRun Sample.request)).created.map Run.id = some 100 := by decide +kernel
  obtain ⟨run, hrun, hid⟩ := Option.map_eq_some_iff.mp created
  have retained : Sample.recorded.world.store.Retains run.id := by
    rw [hid]
    decide +kernel
  have all := (idempotent_admission Sample.keyed_injective ⟨fun _ => rfl, rfl⟩
    Sample.records).2 service request result h' step
  rw [← hid]
  refine (all.1 Sample.service Sample.request run ?_ same retained).1
  rw [← Label.of_created hrun]
  exact List.mem_singleton_self _

end Modall
