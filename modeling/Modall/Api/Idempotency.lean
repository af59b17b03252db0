import Modall.Library.Transition
import Modall.Identity.Repository
import Modall.Execution.KeyHistory
import Modall.Execution.Safety

/-!
# Replay protection for API mutations

`modall/api/idempotency.py`. A mutation route wraps its operation in `idempotent_mutation`,
which serializes on the workspace, looks for a record of the same key under any version of the
caller's keyring, and either answers from the record or runs the operation and records its
response for seven days. `purge_expired_api_idempotency` deletes records that have expired.

The operation, the form its response is recorded in and the way a recorded response is
replayed differ from route to route and are parameters of a `Mutation`. A call that several
records match gets the row the database returns first; `rowOrder` is that order.
-/
namespace Modall.Api
open Library

structure ApiIdempotencyRecord where
  id : Uuid
  workspaceId : Uuid
  actorUserId : Uuid
  method : String
  route : String
  keyVersion : String
  keyHmac : Digest
  requestHmac : Digest
  responseBody : Json
  expiresAt : Time

structure Tables where
  store : Store
  records : List ApiIdempotencyRecord

inductive ApiFailure where
  | invalidRequest (message : String)
  | runtimeError (message : String)
  /-- `json.dumps` or the UTF-8 encoder refuses the body. -/
  | valueError
  | authorizationDenied (message : String)
  | idempotencyConflict
  | idempotencyHistoryIncomplete
  | integrityError
  /-- Raised by the operation itself. -/
  | operation (failure : Failure)
  /-- Raised by `replay_response` or `model_validate`. -/
  | replay (failure : Failure)
deriving DecidableEq

/-- Which of its two returns `idempotent_mutation` took. -/
inductive Answer (R : Type) where
  | replayed (response : R)
  | performed (response : R)
deriving DecidableEq

/-- The arguments of `idempotent_mutation`. -/
structure Mutation (R : Type) where
  context : WorkspaceContext
  keys : List HmacKeyVersion
  idempotencyKey : String
  route : String
  requestBody : Json
  requiredRoles : List Role
  operation : EStateM Failure Store R
  recordResponse : R → Json
  replayResponse : Json → EStateM Failure Store R

/-- What one call finds in its surroundings: the clock, the order in which the database returns
rows and the identifier a new record gets. -/
structure Surroundings where
  now : Time
  rowOrder : List ApiIdempotencyRecord → List ApiIdempotencyRecord
  rowOrder_perm : ∀ rows, (rowOrder rows).Perm rows
  recordId : Uuid

section Code
variable {R : Type} (P : Platform) (hmac : Bytes → String → Digest)

def onStore {α : Type} (x : EStateM Failure Store α) (wrap : Failure → ApiFailure) :
    EStateM ApiFailure Tables α := fun tables =>
  match x tables.store with
  | .ok a store => .ok a { tables with store := store }
  | .error e store => .error (wrap e) { tables with store := store }

/-- `require_current_role` returns. -/
def authorized (store : Store) (context : WorkspaceContext) (roles : List Role) : Bool :=
  roles.contains context.role && store.registry.workspaces.contains context.workspaceId &&
    currentRole store context roles

/-- `_require_complete_key_history` returns. -/
def completeKeyHistory (records : List ApiIdempotencyRecord) (configuredVersions : List String)
    (now : Time) : Bool :=
  (P.collation.probe
    ((records.filter fun r => decide (now < r.expiresAt)).map ApiIdempotencyRecord.keyVersion)
    configuredVersions (configuredVersions.dedup.length + 1) none).isNone

namespace Mutation

def versions (m : Mutation R) : List String := m.keys.map HmacKeyVersion.version

/-- The predicate of the record lookup. -/
def sought (m : Mutation R) (r : ApiIdempotencyRecord) : Bool :=
  r.workspaceId == m.context.workspaceId && r.actorUserId == m.context.actorUserId &&
    r.method == "POST" && r.route == m.route &&
    m.keys.any fun key => r.keyVersion == key.version && r.keyHmac == hmac key.secret m.idempotencyKey

/-- `session.scalar(select(ApiIdempotencyRecord)...)`. -/
def lookup (m : Mutation R) (around : Surroundings) (records : List ApiIdempotencyRecord) :
    Option ApiIdempotencyRecord :=
  (around.rowOrder (records.filter (m.sought hmac))).head?

/-- The record of a response under the active key. -/
def newRecord (m : Mutation R) (around : Surroundings) (active : HmacKeyVersion)
    (canonical : String) (response : R) : ApiIdempotencyRecord where
  id := around.recordId
  workspaceId := m.context.workspaceId
  actorUserId := m.context.actorUserId
  method := "POST"
  route := m.route
  keyVersion := active.version
  keyHmac := hmac active.secret m.idempotencyKey
  requestHmac := hmac active.secret canonical
  responseBody := m.recordResponse response
  expiresAt := around.now + days 7

/-- The primary key or the unique constraint of `api_idempotency_records` is violated. -/
def clashes (r s : ApiIdempotencyRecord) : Bool :=
  r.id == s.id || (r.workspaceId == s.workspaceId && r.actorUserId == s.actorUserId &&
    r.method == s.method && r.route == s.route && r.keyVersion == s.keyVersion &&
    r.keyHmac == s.keyHmac)

/-- Run the operation and record its response. -/
def perform (m : Mutation R) (around : Surroundings) (canonical : String) :
    EStateM ApiFailure Tables (Answer R) := do
  let response ← onStore m.operation .operation
  match m.keys with
  | [] => throw (.runtimeError "idempotency keyring is empty")
  | active :: _ =>
    let row := m.newRecord hmac around active canonical response
    let taken ← query fun tables => tables.records.any (clashes row)
    raiseIf (taken = true) .integrityError
    change fun tables => { tables with records := tables.records ++ [row] }
    pure (.performed response)

/-- Answer from a record, which matched one of the keys. -/
def replay (m : Mutation R) (canonical : String) (existing : ApiIdempotencyRecord) :
    EStateM ApiFailure Tables (Answer R) := do
  match m.keys.find? fun key => key.version == existing.keyVersion with
  | none => throw (.runtimeError "no matching key")
  | some matchingKey =>
    raiseIf (existing.requestHmac ≠ hmac matchingKey.secret canonical) .idempotencyConflict
    let response ← onStore (m.replayResponse existing.responseBody) .replay
    pure (.replayed response)

/-- The checks that come before the database is asked, with the canonical request. -/
def validate (m : Mutation R) : Except ApiFailure String :=
  if ¬ (1 ≤ m.idempotencyKey.length ∧ m.idempotencyKey.length ≤ 256) ∨
      m.idempotencyKey.toList.any (fun c => c.toNat < 32) = true then
    .error (.invalidRequest "invalid idempotency key")
  else if m.keys = [] then .error (.runtimeError "idempotency keyring is empty")
  else match P.canonicalJson m.requestBody with
    | none => .error .valueError
    | some canonical =>
      if 262144 < canonical.utf8ByteSize then
        .error (.invalidRequest "request exceeds idempotency limit")
      else .ok canonical

/-- From the lookup on. -/
def answer (m : Mutation R) (around : Surroundings) (canonical : String) :
    EStateM ApiFailure Tables (Answer R) := do
  let existing ← query fun tables => m.lookup hmac around tables.records
  match existing with
  | none => m.perform hmac around canonical
  | some existing =>
    if existing.expiresAt ≤ around.now then do
      change fun tables => { tables with records := tables.records.filter fun r => r.id ≠ existing.id }
      m.perform hmac around canonical
    else m.replay hmac canonical existing

end Mutation

def idempotentMutation (m : Mutation R) (around : Surroundings) :
    EStateM ApiFailure Tables (Answer R) := do
  let canonical ← lift (m.validate P)
  let allowed ← query fun tables => authorized tables.store m.context m.requiredRoles
  raiseIf (allowed = false) (.authorizationDenied "workspace access denied")
  let complete ← query fun tables => completeKeyHistory P tables.records m.versions around.now
  raiseIf (complete = false) .idempotencyHistoryIncomplete
  m.answer hmac around canonical

/-- The order of `purge_expired_api_idempotency`. -/
def purgeOrder (r s : ApiIdempotencyRecord) : Prop :=
  r.expiresAt < s.expiresAt ∨ r.expiresAt = s.expiresAt ∧ r.id ≤ s.id

instance : DecidableRel purgeOrder := fun _ _ => inferInstanceAs (Decidable (_ ∨ _ ∧ _))

def purgeExpiredApiIdempotency (now : Time) (batchSize : Int) :
    EStateM ApiFailure Tables Nat := do
  raiseIf (¬ (1 ≤ batchSize ∧ batchSize ≤ 1000))
    (.invalidRequest "invalid idempotency cleanup batch size")
  let identifiers ← query fun tables =>
    ((orderedBy purgeOrder (tables.records.filter fun r => decide (r.expiresAt ≤ now))).take
      batchSize.toNat).map ApiIdempotencyRecord.id
  change fun tables => { tables with records := tables.records.filter fun r => r.id ∉ identifiers }
  pure identifiers.length

end Code

/-! ## The system -/

/-- Commit what a call has written, or roll everything back. -/
def transact {α : Type} (x : EStateM ApiFailure Tables α) (tables : Tables) :
    Except ApiFailure α × Tables :=
  match x tables with
  | .ok a tables' => (.ok a, tables')
  | .error e _ => (.error e, tables)

structure World where
  tables : Tables
  clock : Time

inductive Label (R : Type) where
  | mutation (m : Mutation R) (around : Surroundings) (result : Except ApiFailure (Answer R))
  | purge (now : Time) (batchSize : Int) (result : Except ApiFailure Nat)
  /-- Another transaction, which leaves the records alone. -/
  | other (store : Store)

/-- One call at a time, each at a clock reading that is not before the last. -/
inductive Step {R : Type} (P : Platform) (hmac : Bytes → String → Digest) (w : World) :
    Label R → World → Prop where
  | mutation (m : Mutation R) (around : Surroundings) : w.clock ≤ around.now →
      Step P hmac w
        (.mutation m around (transact (idempotentMutation P hmac m around) w.tables).1)
        ⟨(transact (idempotentMutation P hmac m around) w.tables).2, around.now⟩
  | purge (now : Time) (batchSize : Int) : w.clock ≤ now →
      Step P hmac w
        (.purge now batchSize (transact (purgeExpiredApiIdempotency now batchSize) w.tables).1)
        ⟨(transact (purgeExpiredApiIdempotency now batchSize) w.tables).2, now⟩
  | other (store : Store) : Step P hmac w (.other store) { w with tables.store := store }

/-! ## What one call does -/

section Calls
variable {R : Type} {P : Platform} {hmac : Bytes → String → Digest} {m : Mutation R}
  {around : Surroundings} {tables tables' : Tables} {canonical : String}

/-- The record the operation's response is kept in joins the records, less the expired one the
lookup found. -/
structure Performs (P : Platform) (hmac : Bytes → String → Digest) (m : Mutation R)
    (around : Surroundings) (tables tables' : Tables) (canonical : String)
    (active : HmacKeyVersion) (response : R) : Prop where
  valid : m.validate P = .ok canonical
  complete : completeKeyHistory P tables.records m.versions around.now = true
  first : m.keys.head? = some active
  stale : ∀ r, m.lookup hmac around tables.records = some r → r.expiresAt ≤ around.now
  records : ∃ kept, tables'.records = kept ++ [m.newRecord hmac around active canonical response] ∧
    (∀ r ∈ kept, r.id ≠ around.recordId) ∧
    (kept = tables.records ∨
      ∃ old, m.lookup hmac around tables.records = some old ∧
        kept = tables.records.filter fun r => r.id ≠ old.id)

theorem onStore_records {α : Type} {x : EStateM Failure Store α} {wrap : Failure → ApiFailure}
    {a : α} (h : onStore x wrap tables = .ok a tables') : tables'.records = tables.records := by
  unfold onStore at h
  split at h <;> cases h
  rfl

theorem perform_eq_ok {answer : Answer R}
    (h : m.perform hmac around canonical tables = .ok answer tables') :
    ∃ active response, m.keys.head? = some active ∧ answer = .performed response ∧
      tables'.records =
        tables.records ++ [m.newRecord hmac around active canonical response] ∧
      ∀ r ∈ tables.records, r.id ≠ around.recordId := by
  unfold Mutation.perform at h
  rw [bind_eq_ok] at h
  obtain ⟨response, ran, first, h⟩ := h
  have records := onStore_records first
  cases keys : m.keys with
  | nil => simp [keys] at h
  | cons active rest =>
    simp only [keys] at h
    rw [bind_of_ok (query_apply _ _), bind_eq_ok] at h
    obtain ⟨⟨⟩, _, free, h⟩ := h
    obtain ⟨free, rfl⟩ := raiseIf_eq_ok.mp free
    rw [bind_of_ok (change_apply _ _), pure_apply] at h
    cases h
    refine ⟨active, response, rfl, rfl, by simp [records], fun r mem same => free ?_⟩
    rw [records]
    refine List.any_eq_true.mpr ⟨r, mem, ?_⟩
    simp [Mutation.clashes, Mutation.newRecord, same]

theorem replay_eq_ok {existing : ApiIdempotencyRecord} {answer : Answer R}
    (h : m.replay hmac canonical existing tables = .ok answer tables') :
    tables'.records = tables.records ∧ ∃ response, answer = .replayed response := by
  unfold Mutation.replay at h
  cases key : m.keys.find? fun key => key.version == existing.keyVersion with
  | none => simp [key] at h
  | some matching =>
    simp only [key] at h
    rw [bind_eq_ok] at h
    obtain ⟨⟨⟩, _, same, h⟩ := h
    obtain ⟨-, rfl⟩ := raiseIf_eq_ok.mp same
    rw [bind_eq_ok] at h
    obtain ⟨response, _, replayed, h⟩ := h
    cases h
    exact ⟨onStore_records replayed, response, rfl⟩

/-- Past the checks, a call is its answer. -/
theorem idempotentMutation_eq_answer (valid : m.validate P = .ok canonical)
    (allowed : authorized tables.store m.context m.requiredRoles = true)
    (complete : completeKeyHistory P tables.records m.versions around.now = true) :
    idempotentMutation P hmac m around tables = m.answer hmac around canonical tables := by
  unfold idempotentMutation
  rw [bind_of_ok (lift_eq_ok.mpr ⟨valid, rfl⟩), bind_of_ok (query_apply _ _),
    bind_of_ok (a := ()) (raiseIf_eq_ok.mpr ⟨by simp [allowed], rfl⟩), bind_of_ok (query_apply _ _),
    bind_of_ok (a := ()) (raiseIf_eq_ok.mpr ⟨by simp [complete], rfl⟩)]

theorem idempotentMutation_denied (valid : m.validate P = .ok canonical)
    (denied : authorized tables.store m.context m.requiredRoles = false) :
    idempotentMutation P hmac m around tables =
      .error (.authorizationDenied "workspace access denied") tables := by
  unfold idempotentMutation
  rw [bind_of_ok (lift_eq_ok.mpr ⟨valid, rfl⟩), bind_of_ok (query_apply _ _)]
  exact bind_eq_error.mpr (.inl ((raiseIf_apply _ _ _).trans (if_pos denied)))

theorem idempotentMutation_incomplete (valid : m.validate P = .ok canonical)
    (allowed : authorized tables.store m.context m.requiredRoles = true)
    (incomplete : completeKeyHistory P tables.records m.versions around.now = false) :
    idempotentMutation P hmac m around tables =
      .error .idempotencyHistoryIncomplete tables := by
  unfold idempotentMutation
  rw [bind_of_ok (lift_eq_ok.mpr ⟨valid, rfl⟩), bind_of_ok (query_apply _ _),
    bind_of_ok (a := ()) (raiseIf_eq_ok.mpr ⟨by simp [allowed], rfl⟩), bind_of_ok (query_apply _ _)]
  exact bind_eq_error.mpr (.inl ((raiseIf_apply _ _ _).trans (if_pos incomplete)))

theorem idempotentMutation_eq_ok {answer : Answer R}
    (h : idempotentMutation P hmac m around tables = .ok answer tables') :
    ∃ canonical, m.validate P = .ok canonical ∧
      authorized tables.store m.context m.requiredRoles = true ∧
      completeKeyHistory P tables.records m.versions around.now = true ∧
      m.answer hmac around canonical tables = .ok answer tables' := by
  unfold idempotentMutation at h
  rw [bind_eq_ok] at h
  obtain ⟨canonical, _, checked, h⟩ := h
  obtain ⟨valid, rfl⟩ := lift_eq_ok.mp checked
  rw [bind_of_ok (query_apply _ _), bind_eq_ok] at h
  obtain ⟨⟨⟩, _, passed, h⟩ := h
  obtain ⟨allowed, rfl⟩ := raiseIf_eq_ok.mp passed
  rw [bind_of_ok (query_apply _ _), bind_eq_ok] at h
  obtain ⟨⟨⟩, _, retained, h⟩ := h
  obtain ⟨complete, rfl⟩ := raiseIf_eq_ok.mp retained
  exact ⟨canonical, valid, by simpa using allowed, by simpa using complete, h⟩

/-- A call that returns has replayed and left the records alone, or it has performed. -/
theorem idempotentMutation_cases {answer : Answer R}
    (h : idempotentMutation P hmac m around tables = .ok answer tables') :
    (tables'.records = tables.records ∧ ∃ response, answer = .replayed response) ∨
      ∃ canonical active response, answer = .performed response ∧
        Performs P hmac m around tables tables' canonical active response := by
  obtain ⟨canonical, valid, -, complete, h⟩ := idempotentMutation_eq_ok h
  unfold Mutation.answer at h
  rw [bind_of_ok (query_apply _ _)] at h
  cases found : m.lookup hmac around tables.records with
  | none =>
    simp only [found] at h
    obtain ⟨active, response, key, rfl, records, fresh⟩ := perform_eq_ok h
    exact .inr ⟨canonical, active, response, rfl, valid, complete, key, by simp [found],
      tables.records, records, fresh, .inl rfl⟩
  | some existing =>
    simp only [found] at h
    split_ifs at h with expired
    · rw [bind_of_ok (change_apply _ _)] at h
      obtain ⟨active, response, key, rfl, records, fresh⟩ := perform_eq_ok h
      refine .inr ⟨canonical, active, response, rfl, valid, complete, key, ?_, _, records, fresh,
        .inr ⟨existing, found, rfl⟩⟩
      rintro r same
      rw [found] at same
      cases same
      exact expired
    · exact .inl (replay_eq_ok h)

end Calls

/-! ## Whole runs -/

section Runs
variable {R : Type} {P : Platform} {hmac : Bytes → String → Digest} {secret : String → Bytes}

/-- Two calls of one actor on one route with one key. -/
structure Mutation.SameKey (m m' : Mutation R) : Prop where
  workspaceId : m'.context.workspaceId = m.context.workspaceId
  actorUserId : m'.context.actorUserId = m.context.actorUserId
  route : m'.route = m.route
  idempotencyKey : m'.idempotencyKey = m.idempotencyKey

/-- Every key of the ring carries the secret its version denotes. -/
def Mutation.Keyed (secret : String → Bytes) (m : Mutation R) : Prop :=
  ∀ key ∈ m.keys, key.secret = secret key.version

/-- When an unexpired record matches the lookup, the row the database returns is unexpired. -/
def Mutation.FindsLive (hmac : Bytes → String → Digest) (m : Mutation R) (around : Surroundings)
    (records : List ApiIdempotencyRecord) : Prop :=
  (∃ r ∈ records, m.sought hmac r = true ∧ around.now < r.expiresAt) →
    ∃ r, m.lookup hmac around records = some r ∧ around.now < r.expiresAt

/-- A step whose keyring, if it has one, is the operator's. -/
def KeyedStep (P : Platform) (hmac : Bytes → String → Digest) (secret : String → Bytes)
    (w : World) (l : Label R) (w' : World) : Prop :=
  Step P hmac w l w' ∧ ∀ m around result, l = .mutation m around result → m.Keyed secret

/-- A step in which no expired row hides an unexpired one. -/
def OrderlyStep (P : Platform) (hmac : Bytes → String → Digest) (secret : String → Bytes)
    (w : World) (l : Label R) (w' : World) : Prop :=
  KeyedStep P hmac secret w l w' ∧
    ∀ m around result, l = .mutation m around result → m.FindsLive hmac around w.tables.records

/-- What `replay_response` makes of a recorded response. -/
def Mutation.replays (m : Mutation R) (body : Json) (store : Store) :
    Except ApiFailure (Answer R) :=
  match m.replayResponse body store with
  | .ok response _ => .ok (.replayed response)
  | .error e _ => .error (.replay e)

/-- What a later call with the key of `m` may do: replay the recorded response to the same
body, refuse another body, or refuse for an incomplete key history. -/
def Mutation.Answered (P : Platform) (m m' : Mutation R) (response : R) (store : Store)
    (result : Except ApiFailure (Answer R)) : Prop :=
  result = .error .idempotencyHistoryIncomplete ∨
    P.canonicalJson m'.requestBody = P.canonicalJson m.requestBody ∧
      result = m'.replays (m.recordResponse response) store ∨
    P.canonicalJson m'.requestBody ≠ P.canonicalJson m.requestBody ∧
      result = .error .idempotencyConflict

/-- The record is one of the key of `m`, under whatever version. -/
structure ApiIdempotencyRecord.For (hmac : Bytes → String → Digest) (secret : String → Bytes)
    (m : Mutation R) (r : ApiIdempotencyRecord) : Prop where
  workspaceId : r.workspaceId = m.context.workspaceId
  actorUserId : r.actorUserId = m.context.actorUserId
  method : r.method = "POST"
  route : r.route = m.route
  keyHmac : r.keyHmac = hmac (secret r.keyVersion) m.idempotencyKey

theorem Mutation.sought_iff {m : Mutation R} (keyed : m.Keyed secret) {r : ApiIdempotencyRecord} :
    m.sought hmac r = true ↔ r.For hmac secret m ∧ r.keyVersion ∈ m.versions := by
  simp only [sought, Bool.and_eq_true, beq_iff_eq, List.any_eq_true, versions, List.mem_map]
  constructor
  · rintro ⟨⟨⟨⟨hw, ha⟩, hm⟩, hr⟩, key, mem, hv, hk⟩
    refine ⟨⟨hw, ha, hm, hr, ?_⟩, key, mem, hv.symm⟩
    rw [hk, keyed key mem, hv]
  · rintro ⟨h, key, mem, hv⟩
    refine ⟨⟨⟨⟨h.workspaceId, h.actorUserId⟩, h.method⟩, h.route⟩, key, mem, hv.symm, ?_⟩
    rw [h.keyHmac, keyed key mem, hv]

theorem Mutation.SameKey.for_iff {m m' : Mutation R} (same : m.SameKey m')
    {r : ApiIdempotencyRecord} : r.For hmac secret m' ↔ r.For hmac secret m := by
  constructor <;> rintro ⟨hw, ha, hm, hr, hk⟩
  · exact ⟨hw.trans same.workspaceId, ha.trans same.actorUserId, hm, hr.trans same.route,
      same.idempotencyKey ▸ hk⟩
  · exact ⟨hw.trans same.workspaceId.symm, ha.trans same.actorUserId.symm, hm,
      hr.trans same.route.symm, same.idempotencyKey ▸ hk⟩

/-- A record a call writes is one of its own key, and of no other. -/
theorem Mutation.newRecord_for_iff (injective : ∀ k a b, hmac k a = hmac k b → a = b)
    {m m' : Mutation R} (keyed : m'.Keyed secret) {around : Surroundings} {active : HmacKeyVersion}
    (first : m'.keys.head? = some active) {canonical : String} {response : R} :
    (m'.newRecord hmac around active canonical response).For hmac secret m ↔ m.SameKey m' := by
  have key := keyed active (List.mem_of_mem_head? first)
  constructor
  · rintro ⟨hw, ha, -, hr, hk⟩
    refine ⟨hw, ha, hr, injective active.secret _ _ ?_⟩
    rw [show hmac active.secret m.idempotencyKey = hmac (secret active.version) _ by rw [key]]
    exact hk
  · intro same
    refine ⟨same.workspaceId, same.actorUserId, rfl, same.route, ?_⟩
    change hmac active.secret m'.idempotencyKey = hmac (secret active.version) m.idempotencyKey
    rw [key, same.idempotencyKey]

/-- A complete key history has every unexpired record's version in the ring. -/
theorem mem_versions_of_complete {records : List ApiIdempotencyRecord} {versions : List String}
    {now : Time} (complete : completeKeyHistory P records versions now = true)
    {r : ApiIdempotencyRecord} (mem : r ∈ records) (live : now < r.expiresAt) :
    r.keyVersion ∈ versions := by
  unfold completeKeyHistory at complete
  rw [Option.isNone_iff_eq_none] at complete
  refine Collation.probe_eq_none (.inl (Nat.succ_ne_zero _)) complete _ ?_ rfl
  exact List.mem_map_of_mem (List.mem_filter.mpr ⟨mem, by simpa using live⟩)

/-- A history is refused exactly when some unexpired record's version is not in the ring. -/
theorem completeKeyHistory_eq_false {records : List ApiIdempotencyRecord} {versions : List String}
    {now : Time} : completeKeyHistory P records versions now = false ↔
      ∃ r ∈ records, now < r.expiresAt ∧ r.keyVersion ∉ versions := by
  rw [completeKeyHistory, ← Bool.not_eq_true, Option.isNone_iff_eq_none,
    Collation.probe_eq_none_iff (Nat.lt_succ_self _)]
  simp only [List.mem_map, List.mem_filter, decide_eq_true_eq]
  push Not
  constructor
  · rintro ⟨v, ⟨r, ⟨mem, live⟩, rfl⟩, missing⟩
    exact ⟨r, mem, live, missing⟩
  · rintro ⟨r, mem, live, missing⟩
    exact ⟨r.keyVersion, ⟨r, ⟨mem, live⟩, rfl⟩, missing⟩

/-- Both probes are complete. The one of the ledger is bounded by the size of a keyring: it reports
a version exactly when a retained one is not configured, and then reports such a one. The one of the
API is bounded by its own ring. -/
theorem keyHistory_probes (P : Platform) (limits : ExecutionLimits) (values configured : List String)
    (records : List ApiIdempotencyRecord) (now : Time) :
    ((configured.dedup.length : Int) ≤ limits.maxHistoricalHmacKeys →
      (limits.findUnconfiguredKeyVersion P.collation values configured = none ↔
        ∀ v ∈ values, v ∈ configured) ∧
      ∀ v, limits.findUnconfiguredKeyVersion P.collation values configured = some v →
        v ∈ values ∧ v ∉ configured) ∧
    (completeKeyHistory P records configured now = false ↔
      ∃ r ∈ records, now < r.expiresAt ∧ r.keyVersion ∉ configured) := by
  refine ⟨fun fits => ?_, completeKeyHistory_eq_false⟩
  have enough : configured.dedup.length < (limits.maxHistoricalHmacKeys + 1).toNat := by omega
  refine ⟨Collation.probe_eq_none_iff enough, fun v h => ?_⟩
  exact Collation.probe_eq_some (Collation.ahead_card_none.trans_lt enough) h

theorem keyHistory_probes_default :
    (ExecutionLimits.default.findUnconfiguredKeyVersion Sample.collation ["v2", "v1"] ["v1"] = none ↔
      ∀ v ∈ ["v2", "v1"], v ∈ ["v1"]) ∧
    ∀ v, ExecutionLimits.default.findUnconfiguredKeyVersion Sample.collation ["v2", "v1"] ["v1"] =
      some v → v ∈ ["v2", "v1"] ∧ v ∉ ["v1"] :=
  (keyHistory_probes Sample.platform .default ["v2", "v1"] ["v1"] [] 0).1 (by decide)

/-- The row a lookup returns is one that matches. -/
theorem Mutation.mem_of_lookup {m : Mutation R} {around : Surroundings}
    {records : List ApiIdempotencyRecord} {r : ApiIdempotencyRecord}
    (found : m.lookup hmac around records = some r) : r ∈ records ∧ m.sought hmac r = true := by
  have mem := List.mem_of_mem_head? found
  exact List.mem_filter.mp ((around.rowOrder_perm _).mem_iff.mp mem)

/-- The primary key of the records. -/
def Tables.Distinct (tables : Tables) : Prop := (tables.records.map ApiIdempotencyRecord.id).Nodup

theorem Tables.Distinct.eq {tables : Tables} (h : tables.Distinct) {r s : ApiIdempotencyRecord}
    (hr : r ∈ tables.records) (hs : s ∈ tables.records) (same : r.id = s.id) : r = s :=
  List.inj_on_of_nodup_map h hr hs same

theorem nodup_filter_ids {records : List ApiIdempotencyRecord} {p : ApiIdempotencyRecord → Bool}
    (h : (records.map ApiIdempotencyRecord.id).Nodup) :
    ((records.filter p).map ApiIdempotencyRecord.id).Nodup :=
  h.sublist (List.filter_sublist.map _)

section Performs
variable {m : Mutation R} {around : Surroundings} {tables tables' : Tables} {canonical : String}
  {active : HmacKeyVersion} {response : R}

theorem Performs.distinct (h : Performs P hmac m around tables tables' canonical active response)
    (distinct : tables.Distinct) : tables'.Distinct := by
  obtain ⟨kept, records, fresh, origin⟩ := h.records
  have nodup : (kept.map ApiIdempotencyRecord.id).Nodup := by
    rcases origin with rfl | ⟨old, -, rfl⟩
    · exact distinct
    · exact nodup_filter_ids distinct
  unfold Tables.Distinct
  rw [records, List.map_append, List.nodup_append]
  refine ⟨nodup, List.nodup_singleton _, ?_⟩
  intro id mem id' last
  obtain ⟨r, hr, rfl⟩ := List.mem_map.mp mem
  rw [List.mem_singleton.mp last]
  exact fresh r hr

/-- Only the expired record that the lookup found goes. -/
theorem Performs.keeps (h : Performs P hmac m around tables tables' canonical active response)
    (distinct : tables.Distinct) {r : ApiIdempotencyRecord} (mem : r ∈ tables.records)
    (live : around.now < r.expiresAt) : r ∈ tables'.records := by
  obtain ⟨kept, records, -, origin⟩ := h.records
  rw [records]
  refine List.mem_append_left _ ?_
  rcases origin with rfl | ⟨old, found, rfl⟩
  · exact mem
  · refine List.mem_filter.mpr ⟨mem, decide_eq_true fun same => ?_⟩
    have gone := h.stale old found
    rw [← distinct.eq mem (Mutation.mem_of_lookup found).1 same] at gone
    simp only [Time] at gone live
    omega

theorem Performs.news (h : Performs P hmac m around tables tables' canonical active response)
    {r : ApiIdempotencyRecord} (mem : r ∈ tables'.records) :
    r ∈ tables.records ∨ r = m.newRecord hmac around active canonical response := by
  obtain ⟨kept, records, -, origin⟩ := h.records
  rw [records, List.mem_append, List.mem_singleton] at mem
  rcases mem with mem | rfl
  · rcases origin with rfl | ⟨old, -, rfl⟩
    · exact .inl mem
    · exact .inl (List.mem_filter.mp mem).1
  · exact .inr rfl

end Performs

/-- What a step does to the records. -/
inductive Records (P : Platform) (hmac : Bytes → String → Digest) (w : World) :
    Label R → World → Prop where
  | same {l : Label R} {w' : World} : w'.tables.records = w.tables.records →
      w.clock ≤ w'.clock → Records P hmac w l w'
  | performed {m : Mutation R} {around : Surroundings} {response : R} {canonical : String}
      {active : HmacKeyVersion} {tables : Tables} : w.clock ≤ around.now →
      Performs P hmac m around w.tables tables canonical active response →
      Records P hmac w (.mutation m around (.ok (.performed response))) ⟨tables, around.now⟩
  | purged {l : Label R} {w' : World} (ids : List Uuid) : w.clock ≤ w'.clock →
      (∀ id ∈ ids, ∃ r ∈ w.tables.records, r.id = id ∧ r.expiresAt ≤ w'.clock) →
      w'.tables.records = w.tables.records.filter (fun r => r.id ∉ ids) →
      Records P hmac w l w'

theorem purge_ok {now : Time} {batchSize : Int} {tables tables' : Tables} {n : Nat}
    (h : purgeExpiredApiIdempotency now batchSize tables = .ok n tables') :
    ∃ ids : List Uuid, (∀ id ∈ ids, ∃ r ∈ tables.records, r.id = id ∧ r.expiresAt ≤ now) ∧
      tables'.records = tables.records.filter fun r => r.id ∉ ids := by
  unfold purgeExpiredApiIdempotency at h
  rw [bind_eq_ok] at h
  obtain ⟨⟨⟩, _, bounded, h⟩ := h
  obtain ⟨-, rfl⟩ := raiseIf_eq_ok.mp bounded
  rw [bind_of_ok (query_apply _ _), bind_of_ok (change_apply _ _), pure_apply] at h
  cases h
  refine ⟨_, ?_, rfl⟩
  intro id mem
  obtain ⟨r, hr, rfl⟩ := List.mem_map.mp mem
  have found := List.mem_filter.mp (mem_orderedBy.mp (List.mem_of_mem_take hr))
  exact ⟨r, found.1, rfl, by simpa using found.2⟩

theorem Step.records {w w' : World} {l : Label R} (h : Step P hmac w l w') :
    Records P hmac w l w' := by
  cases h with
  | mutation m around later =>
    cases run : idempotentMutation P hmac m around w.tables with
    | error e tables =>
      simp only [transact, run]
      exact .same rfl later
    | ok answer tables =>
      simp only [transact, run]
      rcases idempotentMutation_cases run with ⟨same, -⟩ | ⟨canonical, active, response, rfl, h⟩
      · exact .same same later
      · exact .performed later h
  | purge now batchSize later =>
    cases run : purgeExpiredApiIdempotency now batchSize w.tables with
    | error e tables =>
      simp only [transact, run]
      exact .same rfl later
    | ok n tables =>
      simp only [transact, run]
      obtain ⟨ids, expired, records⟩ := purge_ok run
      exact .purged ids later expired records
  | other store => exact .same rfl (le_refl _)

section Records
variable {w w' : World} {l : Label R}

theorem Records.clock (h : Records P hmac w l w') : w.clock ≤ w'.clock := by
  cases h <;> assumption

theorem Records.distinct (h : Records P hmac w l w') (distinct : w.tables.Distinct) :
    w'.tables.Distinct := by
  cases h with
  | same records _ =>
    unfold Tables.Distinct
    rwa [records]
  | performed _ performs => exact performs.distinct distinct
  | purged ids _ _ records =>
    unfold Tables.Distinct
    rw [records]
    exact nodup_filter_ids distinct

/-- A record that is unexpired after a step has survived it. -/
theorem Records.keeps (h : Records P hmac w l w') (distinct : w.tables.Distinct)
    {r : ApiIdempotencyRecord} (mem : r ∈ w.tables.records) (live : w'.clock < r.expiresAt) :
    r ∈ w'.tables.records := by
  cases h with
  | same records _ => rwa [records]
  | performed _ performs => exact performs.keeps distinct mem live
  | purged ids _ expired records =>
    rw [records]
    refine List.mem_filter.mpr ⟨mem, decide_eq_true fun purged => ?_⟩
    obtain ⟨s, hs, same, gone⟩ := expired r.id purged
    rw [distinct.eq hs mem same] at gone
    simp only [Time] at gone live
    omega

theorem Records.news (h : Records P hmac w l w') {r : ApiIdempotencyRecord}
    (mem : r ∈ w'.tables.records) :
    r ∈ w.tables.records ∨ ∃ m around response canonical active,
      l = .mutation m around (.ok (.performed response)) ∧ w'.clock = around.now ∧
      Performs P hmac m around w.tables w'.tables canonical active response ∧
      r = m.newRecord hmac around active canonical response := by
  cases h with
  | same records _ => exact .inl (records ▸ mem)
  | @performed m around response canonical active tables _ performs =>
    exact (performs.news mem).imp id fun new =>
      ⟨m, around, response, canonical, active, rfl, rfl, performs, new⟩
  | purged ids _ _ records =>
    rw [records] at mem
    exact .inl (List.mem_filter.mp mem).1

end Records

/-- An operation runs only when every record of its key has expired. -/
theorem Performs.expired {m : Mutation R} {around : Surroundings} {tables tables' : Tables}
    {canonical : String} {active : HmacKeyVersion} {response : R}
    (h : Performs P hmac m around tables tables' canonical active response)
    (keyed : m.Keyed secret) (finds : m.FindsLive hmac around tables.records)
    {r : ApiIdempotencyRecord} (mem : r ∈ tables.records) (own : r.For hmac secret m) :
    r.expiresAt ≤ around.now := by
  by_contra live
  rw [not_le] at live
  have sought := (Mutation.sought_iff keyed).mpr ⟨own, mem_versions_of_complete h.complete mem live⟩
  obtain ⟨found, lookup, later⟩ := finds ⟨r, mem, sought, live⟩
  exact absurd (h.stale found lookup) (not_le.mpr later)

/-- The record is there, and every other record of its key had expired when it was made. -/
structure World.Remembers (hmac : Bytes → String → Digest) (secret : String → Bytes)
    (m : Mutation R) (row : ApiIdempotencyRecord) (since : Time) (w : World) : Prop where
  kept : row ∈ w.tables.records
  only : ∀ r ∈ w.tables.records, r.For hmac secret m → r = row ∨ r.expiresAt ≤ since

theorem remembers_of_performed {m : Mutation R} {around : Surroundings} {w w' : World}
    {response : R} (ran : OrderlyStep P hmac secret w
      (.mutation m around (.ok (.performed response))) w') :
    ∃ active canonical, m.keys.head? = some active ∧ m.validate P = .ok canonical ∧
      w'.clock = around.now ∧ w'.Remembers hmac secret m
        (m.newRecord hmac around active canonical response) around.now := by
  have keyed := ran.1.2 m around _ rfl
  have finds := ran.2 m around _ rfl
  generalize label : Label.mutation m around (.ok (.performed response)) = l at ran
  obtain ⟨⟨step, -⟩, -⟩ := ran
  cases step with
  | mutation m around later =>
    cases run : idempotentMutation P hmac m around w.tables with
    | error e tables => simp [transact, run] at label
    | ok answer tables =>
      simp only [transact, run, Label.mutation.injEq, Except.ok.injEq] at label
      obtain ⟨rfl, rfl, rfl⟩ := label
      simp only [transact, run]
      rcases idempotentMutation_cases run with ⟨-, _, h⟩ | ⟨canonical, active, _, h, performs⟩
      · cases h
      · cases h
        refine ⟨active, canonical, performs.first, performs.valid, trivial, ?_, ?_⟩
        · obtain ⟨kept, records, -⟩ := performs.records
          simp [records]
        · intro r mem own
          rcases performs.news mem with mem | rfl
          · exact .inr (performs.expired keyed finds mem own)
          · exact .inl rfl
  | purge => cases label
  | other => cases label

theorem World.Remembers.step (injective : ∀ k a b, hmac k a = hmac k b → a = b)
    {m : Mutation R} {row : ApiIdempotencyRecord} {since : Time} {w w' : World} {l : Label R}
    (own : row.For hmac secret m) (distinct : w.tables.Distinct)
    (h : w.Remembers hmac secret m row since) (step : OrderlyStep P hmac secret w l w')
    (live : w'.clock < row.expiresAt) : w'.Remembers hmac secret m row since := by
  have records := step.1.1.records
  refine ⟨records.keeps distinct h.kept live, fun r mem hr => ?_⟩
  rcases records.news mem with mem | ⟨m', around, response, canonical, active, rfl, time, performs,
    rfl⟩
  · exact h.only r mem hr
  · -- the new record would be one more of the key, but the old one is still unexpired
    have keyed := step.1.2 m' around _ rfl
    have same := (Mutation.newRecord_for_iff injective keyed performs.first).mp hr
    have expired := performs.expired keyed (step.2 m' around _ rfl) h.kept
      (same.for_iff.mpr own)
    rw [time] at live
    exact absurd expired (not_le.mpr live)

theorem remembers_of_path (injective : ∀ k a b, hmac k a = hmac k b → a = b) {m : Mutation R}
    {row : ApiIdempotencyRecord} {since : Time} {w w' : World} {ls : List (Label R)}
    (own : row.For hmac secret m) (distinct : w.tables.Distinct)
    (h : w.Remembers hmac secret m row since) (path : Path (OrderlyStep P hmac secret) w ls w')
    (live : w'.clock < row.expiresAt) : w'.Remembers hmac secret m row since := by
  have carried : w'.tables.Distinct ∧
      (w'.clock < row.expiresAt → w'.Remembers hmac secret m row since) := by
    refine path.invariant (I := fun w => w.tables.Distinct ∧
      (w.clock < row.expiresAt → w.Remembers hmac secret m row since)) ?_ ⟨distinct, fun _ => h⟩
    rintro u l v ⟨distinct, remembers⟩ step
    have records := step.1.1.records
    refine ⟨records.distinct distinct, fun live => ?_⟩
    exact (remembers (lt_of_le_of_lt records.clock live)).step injective own distinct step live
  exact carried.2 live

/-- A result that no call gives which answers from a record or refuses for its key. -/
def Unanswered : Except ApiFailure (Answer R) → Prop
  | .ok (.replayed _) => False
  | .ok (.performed _) => True
  | .error (.replay _) => False
  | .error e => e ≠ .idempotencyHistoryIncomplete ∧ e ≠ .idempotencyConflict

theorem Mutation.Answered.not_unanswered {m m' : Mutation R} {response : R} {store : Store}
    {result : Except ApiFailure (Answer R)} (h : m.Answered P m' response store result) :
    ¬ Unanswered result := by
  rcases h with rfl | ⟨-, rfl⟩ | ⟨-, rfl⟩
  · simp [Unanswered]
  · unfold replays
    split <;> simp [Unanswered]
  · simp [Unanswered]

theorem unanswered_validate {m : Mutation R} {e : ApiFailure} (h : m.validate P = .error e) :
    Unanswered (R := R) (.error e) := by
  unfold Mutation.validate at h
  split_ifs at h
  · cases h
    simp [Unanswered]
  · cases h
    simp [Unanswered]
  · split at h
    · cases h
      simp [Unanswered]
    · split_ifs at h
      cases h
      simp [Unanswered]

theorem unanswered_perform (m : Mutation R) (around : Surroundings) (canonical : String)
    (tables : Tables) :
    Unanswered (transact (m.perform hmac around canonical) tables).1 := by
  unfold transact
  cases run : m.perform hmac around canonical tables with
  | ok answer tables' =>
    obtain ⟨-, response, -, rfl, -⟩ := perform_eq_ok run
    trivial
  | error e tables' =>
    unfold Mutation.perform at run
    rcases bind_eq_error.mp run with run | ⟨response, _, -, run⟩
    · unfold onStore at run
      split at run <;> cases run
      simp [Unanswered]
    · cases keys : m.keys with
      | nil =>
        simp only [keys, throw_apply] at run
        cases run
        simp [Unanswered]
      | cons active rest =>
        simp only [keys] at run
        rw [bind_of_ok (query_apply _ _)] at run
        rcases bind_eq_error.mp run with run | ⟨_, _, -, run⟩
        · rw [raiseIf_apply] at run
          split_ifs at run
          cases run
          simp [Unanswered]
        · cases run

theorem Step.result {w w' : World} {m : Mutation R} {around : Surroundings}
    {result : Except ApiFailure (Answer R)} (h : Step P hmac w (.mutation m around result) w') :
    result = (transact (idempotentMutation P hmac m around) w.tables).1 := by
  cases h
  rfl

/-- A lookup that finds nothing unexpired lets the operation run. -/
theorem unanswered_answer {m : Mutation R} {around : Surroundings} {canonical : String}
    {tables : Tables} (stale : ∀ r, m.lookup hmac around tables.records = some r →
      r.expiresAt ≤ around.now) :
    Unanswered (transact (m.answer hmac around canonical) tables).1 := by
  unfold transact Mutation.answer
  rw [bind_of_ok (query_apply _ _)]
  cases found : m.lookup hmac around tables.records with
  | none => exact unanswered_perform m around canonical tables
  | some old =>
    simp only [if_pos (stale old found)]
    rw [bind_of_ok (change_apply _ _)]
    have performed : Unanswered (transact (m.perform hmac around canonical)
        { tables with records := tables.records.filter fun r => r.id ≠ old.id }).1 :=
      unanswered_perform m around canonical _
    unfold transact at performed
    cases run : m.perform hmac around canonical
        { tables with records := tables.records.filter fun r => r.id ≠ old.id } <;>
      simpa only [run] using performed

theorem transact_answer_live {m : Mutation R} {around : Surroundings} {canonical : String}
    {tables : Tables} {row : ApiIdempotencyRecord}
    (found : m.lookup hmac around tables.records = some row) (live : around.now < row.expiresAt) :
    transact (m.answer hmac around canonical) tables =
      transact (m.replay hmac canonical row) tables := by
  unfold transact Mutation.answer
  rw [bind_of_ok (query_apply _ _)]
  simp only [found, if_neg (not_le.mpr live)]

theorem canonical_of_validate {m : Mutation R} {canonical : String}
    (h : m.validate P = .ok canonical) : P.canonicalJson m.requestBody = some canonical := by
  unfold Mutation.validate at h
  split_ifs at h
  split at h
  · cases h
  · split_ifs at h
    cases h
    assumption

theorem transact_replay {m : Mutation R} {canonical : String} {existing : ApiIdempotencyRecord}
    {key : HmacKeyVersion} (tables : Tables)
    (found : m.keys.find? (fun key => key.version == existing.keyVersion) = some key) :
    (transact (m.replay hmac canonical existing) tables).1 =
      if existing.requestHmac = hmac key.secret canonical then
        m.replays existing.responseBody tables.store
      else .error .idempotencyConflict := by
  unfold transact Mutation.replay
  simp only [found]
  by_cases same : existing.requestHmac = hmac key.secret canonical
  · rw [bind_of_ok (a := ()) (raiseIf_eq_ok.mpr ⟨not_not_intro same, rfl⟩), if_pos same]
    unfold Mutation.replays
    cases run : m.replayResponse existing.responseBody tables.store with
    | ok response store =>
      rw [bind_of_ok (show onStore _ _ tables = .ok response { tables with store := store } by
        simp only [onStore, run])]
      rfl
    | error e store =>
      rw [bind_eq_error.mpr (.inl (show onStore _ _ tables = .error (.replay e) { tables with store := store } by
        simp only [onStore, run]))]
  · rw [bind_eq_error.mpr (.inl ((raiseIf_apply _ _ _).trans (if_pos same))), if_neg same]

/-- A replay of the record that another call with the key made. -/
theorem replay_answered (injective : ∀ k a b, hmac k a = hmac k b → a = b) {m m' : Mutation R}
    (keyed : m.Keyed secret) (keyed' : m'.Keyed secret) {around : Surroundings}
    {active : HmacKeyVersion} {canonical canonical' : String} {response : R} {tables : Tables}
    (first : m.keys.head? = some active) (valid : m.validate P = .ok canonical)
    (valid' : m'.validate P = .ok canonical') (known : active.version ∈ m'.versions) :
    m.Answered P m' response tables.store (transact (m'.replay hmac canonical'
      (m.newRecord hmac around active canonical response)) tables).1 := by
  obtain ⟨key, found⟩ :
      ∃ key, m'.keys.find? (fun key => key.version == active.version) = some key := by
    obtain ⟨key, mem, version⟩ := List.mem_map.mp known
    exact Option.isSome_iff_exists.mp (List.find?_isSome.mpr ⟨key, mem, by simp [version]⟩)
  have version : key.version = active.version := by simpa using List.find?_some found
  have secrets : key.secret = active.secret := by
    rw [keyed' key (List.mem_of_find?_eq_some found), version,
      keyed active (List.mem_of_mem_head? first)]
  unfold Mutation.Answered
  rw [canonical_of_validate valid, canonical_of_validate valid', Option.some.injEq,
    transact_replay tables found, secrets]
  by_cases same : canonical' = canonical
  · exact .inr (.inl ⟨same, if_pos (by rw [same]; rfl)⟩)
  · refine .inr (.inr ⟨fun h => same (Option.some.inj h), if_neg fun h => same ?_⟩)
    exact (injective _ _ _ h).symm

/-- Once a call has run its operation, a later call with the same key within seven days does
as the record says exactly when it is admissible and the database does not return an expired
record of the key in place of the unexpired one. -/
theorem mutation_runs_once (injective : ∀ k a b, hmac k a = hmac k b → a = b)
    {w₀ w₁ w₂ w₃ w₄ : World} {before between : List (Label R)} {m m' : Mutation R}
    {around around' : Surroundings} {response : R} {result : Except ApiFailure (Answer R)}
    (start : w₀.tables.records = [])
    (history : Path (OrderlyStep P hmac secret) w₀ before w₁)
    (ran : OrderlyStep P hmac secret w₁ (.mutation m around (.ok (.performed response))) w₂)
    (later : Path (OrderlyStep P hmac secret) w₂ between w₃)
    (again : KeyedStep P hmac secret w₃ (.mutation m' around' result) w₄)
    (same : m.SameKey m') (within : around'.now < around.now + days 7) :
    m.Answered P m' response w₃.tables.store result ↔
      (∃ canonical, m'.validate P = .ok canonical) ∧
      authorized w₃.tables.store m'.context m'.requiredRoles = true ∧
      (completeKeyHistory P w₃.tables.records m'.versions around'.now = true →
        m'.FindsLive hmac around' w₃.tables.records) := by
  have keyed := ran.1.2 m around _ rfl
  have keyed' := again.2 m' around' _ rfl
  obtain ⟨active, canonical, first, valid, time, base⟩ := remembers_of_performed ran
  have own : (m.newRecord hmac around active canonical response).For hmac secret m :=
    (Mutation.newRecord_for_iff injective keyed first).mpr ⟨rfl, rfl, rfl, rfl⟩
  have distinct : w₂.tables.Distinct := by
    refine ran.1.1.records.distinct (history.invariant (I := fun w => w.tables.Distinct)
      (fun _ _ _ distinct step => step.1.1.records.distinct distinct) ?_)
    simp [Tables.Distinct, start]
  have remembers : w₃.Remembers hmac secret m (m.newRecord hmac around active canonical response)
      around.now := by
    refine remembers_of_path injective own distinct base later ?_
    exact lt_of_le_of_lt (Records.clock again.1.records) (by cases again.1; exact within)
  rw [again.1.result]
  cases valid' : m'.validate P with
  | error e =>
    refine iff_of_false (fun answered => answered.not_unanswered ?_) (by simp)
    have run : idempotentMutation P hmac m' around' w₃.tables = .error e w₃.tables := by
      refine bind_eq_error.mpr (.inl ?_)
      simp [lift, valid']
    simp only [transact, run]
    exact unanswered_validate valid'
  | ok canonical' =>
    cases allowed : authorized w₃.tables.store m'.context m'.requiredRoles with
    | false =>
      refine iff_of_false (fun answered => answered.not_unanswered ?_) (by simp)
      simp [transact, idempotentMutation_denied valid' allowed, Unanswered]
    | true =>
      cases complete : completeKeyHistory P w₃.tables.records m'.versions around'.now with
      | false =>
        refine iff_of_true (.inl ?_) (by simp)
        simp [transact, idempotentMutation_incomplete valid' allowed complete]
      | true =>
        have known := mem_versions_of_complete complete remembers.kept within
        have sought := (Mutation.sought_iff keyed').mpr ⟨same.for_iff.mpr own, known⟩
        have past : transact (idempotentMutation P hmac m' around') w₃.tables =
            transact (m'.answer hmac around' canonical') w₃.tables := by
          unfold transact
          rw [idempotentMutation_eq_answer valid' allowed complete]
        rw [past]
        constructor
        · intro answered
          refine ⟨⟨canonical', rfl⟩, rfl, fun _ _ => ?_⟩
          by_contra hidden
          refine answered.not_unanswered (unanswered_answer fun r found => ?_)
          exact not_lt.mp fun live => hidden ⟨r, found, live⟩
        · rintro ⟨-, -, finds⟩
          obtain ⟨r, found, live⟩ := finds rfl ⟨_, remembers.kept, sought, within⟩
          have hr := Mutation.mem_of_lookup found
          have mine := same.for_iff.mp ((Mutation.sought_iff keyed').mp hr.2).1
          -- every other record of the key had expired before
          have latest : r = m.newRecord hmac around active canonical response := by
            refine (remembers.only r hr.1 mine).resolve_right fun expired => ?_
            have passed := (Path.relation (R := fun u v => u.clock ≤ v.clock)
              (I := fun _ => True) (fun _ => le_refl _) (fun _ _ _ => le_trans)
              (fun _ _ _ _ _ => trivial) (fun _ _ _ _ step => step.1.1.records.clock) later
              trivial).trans again.1.records.clock
            rw [time] at passed
            have : w₄.clock = around'.now := by cases again.1; rfl
            simp only [Time] at passed this live expired
            omega
          rw [transact_answer_live found live, latest]
          exact replay_answered injective keyed keyed' first valid valid' known

end Runs

/-! ## A key version that comes back -/

namespace Rotation

def hmac (_ : Bytes) (text : String) : Digest := text
def secret (version : String) : Bytes := List.replicate 32 (if version = "v2" then 9 else 7)
def key (version : String) : HmacKeyVersion := ⟨version, secret version⟩

/-- A mutation that returns `response`, by one actor with one key. -/
def mutation (versions : List String) (response : Nat) : Mutation Nat where
  context := Sample.context
  keys := versions.map key
  idempotencyKey := "i"
  route := "/v1/server-connections"
  requestBody := .obj []
  requiredRoles := [.operator]
  operation := pure response
  recordResponse n := .int n
  replayResponse
    | .int n => pure n.toNat
    | _ => throw (.valueError "invalid response")

/-- The database returns rows in the order they were inserted. -/
def moment (now : Time) (recordId : Uuid) : Surroundings := ⟨now, id, fun _ => .refl _, recordId⟩

def installed : World := ⟨⟨Sample.installed.store, []⟩, 0⟩

def result (w : World) (m : Mutation Nat) (around : Surroundings) :
    Except ApiFailure (Answer Nat) :=
  (transact (idempotentMutation Sample.platform hmac m around) w.tables).1

def after (w : World) (m : Mutation Nat) (around : Surroundings) : World :=
  ⟨(transact (idempotentMutation Sample.platform hmac m around) w.tables).2, around.now⟩

/-- The first version is in use. -/
def first : World := after installed (mutation ["v1"] 1) (moment 0 1)

/-- Seven days later the ring holds the second version only. -/
def second : World := after first (mutation ["v2"] 2) (moment (days 7) 2)

/-- Another day later a caller still has both versions, the first one active. -/
def third : World := after second (mutation ["v1", "v2"] 3) (moment (days 8) 3)

theorem keyed (versions : List String) (response : Nat) :
    (mutation versions response).Keyed secret := by
  intro k mem
  obtain ⟨version, -, rfl⟩ := List.mem_map.mp mem
  rfl

theorem step {w : World} {versions : List String} {response : Nat} {around : Surroundings}
    (later : w.clock ≤ around.now) {answer : Except ApiFailure (Answer Nat)}
    (h : result w (mutation versions response) around = answer) :
    KeyedStep Sample.platform hmac secret w
      (.mutation (mutation versions response) around answer)
      (after w (mutation versions response) around) := by
  subst h
  refine ⟨.mutation _ around later, ?_⟩
  rintro m around' answer same
  cases same
  exact keyed versions response

theorem first_reached : KeyedStep Sample.platform hmac secret installed
    (.mutation (mutation ["v1"] 1) (moment 0 1) (.ok (.performed 1))) first :=
  step (le_refl _) (by decide +kernel)

theorem second_reached : KeyedStep Sample.platform hmac secret first
    (.mutation (mutation ["v2"] 2) (moment (days 7) 2) (.ok (.performed 2))) second :=
  step (by decide) (by decide +kernel)

theorem third_reached : KeyedStep Sample.platform hmac secret second
    (.mutation (mutation ["v1", "v2"] 3) (moment (days 8) 3) (.ok (.performed 3))) third :=
  step (by decide) (by decide +kernel)

end Rotation

open Rotation

/-- The second call ran its operation; the third, a day later with the same key, runs it once
more, since the expired record of the first call is returned before the one of the second. -/
theorem expired_record_hides_live :
    installed.tables.records = [] ∧
    Path (KeyedStep Sample.platform hmac secret) installed
      [.mutation (mutation ["v1"] 1) (moment 0 1) (.ok (.performed 1)),
        .mutation (mutation ["v2"] 2) (moment (days 7) 2) (.ok (.performed 2)),
        .mutation (mutation ["v1", "v2"] 3) (moment (days 8) 3) (.ok (.performed 3))] third ∧
    (mutation ["v2"] 2).SameKey (mutation ["v1", "v2"] 3) ∧
    (moment (days 8) 3).now < (moment (days 7) 2).now + days 7 ∧
    ¬ (mutation ["v2"] 2).Answered Sample.platform (mutation ["v1", "v2"] 3) 2
      second.tables.store (.ok (.performed 3)) := by
  refine ⟨rfl, ?_, ⟨rfl, rfl, rfl, rfl⟩, by decide, fun answered => ?_⟩
  · exact ((Path.single first_reached).snoc second_reached).snoc third_reached
  · exact answered.not_unanswered trivial

theorem mutation_runs_once_sample :
    (mutation ["v2"] 2).Answered Sample.platform (mutation ["v1", "v2"] 3) 2
        second.tables.store (.ok (.performed 3)) ↔
      (∃ canonical, (mutation ["v1", "v2"] 3).validate Sample.platform = .ok canonical) ∧
      authorized second.tables.store (mutation ["v1", "v2"] 3).context [.operator] = true ∧
      (completeKeyHistory Sample.platform second.tables.records ["v1", "v2"] (days 8) = true →
        (mutation ["v1", "v2"] 3).FindsLive hmac (moment (days 8) 3) second.tables.records) := by
  have began : installed.tables.records = [] := rfl
  refine mutation_runs_once (fun _ _ _ h => h) began (.single ⟨first_reached, ?_⟩)
    ⟨second_reached, ?_⟩ (.nil _) third_reached ⟨rfl, rfl, rfl, rfl⟩ (by decide)
  all_goals
    rintro m around answer same
    cases same
    exact fun live => absurd live (by decide +kernel)

end Modall.Api
