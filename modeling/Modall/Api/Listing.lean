import Mathlib
import Modall.Api.Cursors
import Modall.Library.Keyset
import Modall.Registry.Executable

/-!
# Listing routes

The six routes of `modall/api/contracts.py` that answer page by page. Runs and audit events come
newest first, ties broken by the identifier, connections, capabilities and registry entries by
their identifier downwards, and the events of a run by their sequence upwards.

`Snapshot` is what a request sees of the database, with the constraints the schema puts on it. A
`History` gives the snapshot of each request of a walk: between two requests any rows may come,
go or change, except that a row keeps the instant it was created at.
-/
namespace Modall.Api
open Library Library.Keyset

/-! ## What a request sees -/

structure RegistryEntry where
  id : Uuid
  workspaceId : Uuid
  source : String
  externalId : Option String
  currentVersionId : Option Uuid
  createdAt : Time
deriving DecidableEq

structure RegistryEntryVersion where
  id : Uuid
  name : String
  description : Option String
deriving DecidableEq

/-- A row of `audit_events`, with its columns as they are stored. -/
structure AuditRow where
  id : Uuid
  workspaceId : Uuid
  actorUserId : Uuid
  action : String
  resourceType : String
  resourceId : Uuid
  outcome : String
  correlationId : Uuid
  occurredAt : Time
deriving DecidableEq

/-- The database at a request, and its clock. -/
structure Snapshot where
  store : Store
  entries : List RegistryEntry
  entryVersions : List RegistryEntryVersion
  auditEvents : List AuditRow
  now : Time
  runIds : (store.runs.map Run.id).Nodup
  runTimes : ∀ run ∈ store.runs, IsDatetime run.createdAt
  eventKeys : (store.events.map fun event => (event.runId, event.sequence)).Nodup
  /-- An `Integer` column that the schema checks to be positive. -/
  eventSequences : ∀ event ∈ store.events, 0 < event.sequence ∧ event.sequence < 2 ^ 31
  connectionIds : (store.registry.connections.map ServerConnection.id).Nodup
  capabilityIds : (store.registry.capabilities.map Capability.id).Nodup
  bindingIds : (store.registry.bindings.map McpToolBinding.capabilityVersionId).Nodup
  entryIds : (entries.map RegistryEntry.id).Nodup
  entryVersionIds : (entryVersions.map RegistryEntryVersion.id).Nodup
  auditIds : (auditEvents.map AuditRow.id).Nodup
  auditTimes : ∀ event ∈ auditEvents, IsDatetime event.occurredAt

/-- The snapshots of the requests of a walk. -/
structure History where
  snapshot : Nat → Snapshot
  runsKeep : ∀ i j, ∀ run ∈ (snapshot i).store.runs, ∀ other ∈ (snapshot j).store.runs,
    run.id = other.id → run.createdAt = other.createdAt
  auditKeep : ∀ i j, ∀ event ∈ (snapshot i).auditEvents, ∀ other ∈ (snapshot j).auditEvents,
    event.id = other.id → event.occurredAt = other.occurredAt

/-! ## The orders -/

/-- `ORDER BY id DESC`. -/
def idRank (id : Uuid) : ℕᵒᵈ := OrderDual.toDual id.toNat

/-- `ORDER BY created_at DESC, id DESC`. -/
def timeRank (cursor : Time × Uuid) : (ℤ ×ₗ ℕ)ᵒᵈ :=
  OrderDual.toDual (toLex (cursor.1, cursor.2.toNat))

lemma idRank_inj {a b : Uuid} : idRank a = idRank b ↔ a = b := by
  rw [idRank, idRank, OrderDual.toDual_inj]
  exact BitVec.toNat_inj

lemma timeRank_inj {a b : Time × Uuid} : timeRank a = timeRank b ↔ a = b := by
  rw [timeRank, timeRank, OrderDual.toDual_inj, toLex_inj, Prod.ext_iff, Prod.ext_iff,
    BitVec.toNat_inj]

/-! ## Arguments -/

/-- A `datetime` query parameter, with or without an offset. -/
inductive DatetimeArgument where
  | naive
  | aware (instant : Time)

/-- A range of instants as two optional parameters. -/
structure TimeRange where
  after : Option DatetimeArgument
  before : Option DatetimeArgument

namespace TimeRange

/-- `_require_aware_datetime` of both ends, and the check that the range is not empty. -/
def refusal (range : TimeRange) (message : String) : Option ApiFailure :=
  match range.after, range.before with
  | some .naive, _ => some (.invalidRequest "timestamps require an offset")
  | _, some .naive => some (.invalidRequest "timestamps require an offset")
  | some (.aware after), some (.aware before) =>
    if before ≤ after then some (.invalidRequest message) else none
  | _, _ => none

def contains (range : TimeRange) (t : Time) : Bool :=
  (match range.after with
    | some (.aware after) => decide (after ≤ t)
    | _ => true) &&
  (match range.before with
    | some (.aware before) => decide (t < before)
    | _ => true)

end TimeRange

/-- `column == value` for a filter that may be absent. -/
def agrees {α : Type} [DecidableEq α] (column : α) (value : Option α) : Bool :=
  match value with
  | some value => column = value
  | none => true

def RunStatus.value : RunStatus → String
  | .queued => "queued"
  | .preparing => "preparing"
  | .sessionFenced => "session_fenced"
  | .dispatchFenced => "dispatch_fenced"
  | .succeeded => "succeeded"
  | .failed => "failed"
  | .cancelled => "cancelled"
  | .timedOut => "timed_out"
  | .indeterminate => "indeterminate"

def CapabilityStatus.value : CapabilityStatus → String
  | .pendingReview => "pending_review"
  | .enabled => "enabled"
  | .disabled => "disabled"
  | .unavailable => "unavailable"

/-! ## Runs -/

/-- The filters of `list_runs`. -/
structure RunFilter where
  status : Option String
  active : Bool
  capabilityId : Option Uuid
  actorId : Option Uuid
  created : TimeRange
  minDurationSeconds : Option Nat
  maxDurationSeconds : Option Nat

def RunFilter.refusal (f : RunFilter) : Option ApiFailure :=
  match f.created.refusal "invalid run time range" with
  | some failure => some failure
  | none =>
    match f.minDurationSeconds, f.maxDurationSeconds with
    | some low, some high =>
      if high < low then some (.invalidRequest "invalid run duration range") else none
    | _, _ => none

def RunFilter.accepts (f : RunFilter) (workspaceId : Uuid) (now : Time) (run : Run) : Bool :=
  let duration := run.terminalAt.getD now - run.createdAt
  run.workspaceId = workspaceId &&
    (!f.active || run.status ∈ [.queued, .preparing, .sessionFenced, .dispatchFenced]) &&
    agrees (RunStatus.value run.status) f.status && agrees run.capabilityId f.capabilityId &&
    agrees run.actorUserId f.actorId && f.created.contains run.createdAt &&
    (match f.minDurationSeconds with
      | some low => decide (seconds low ≤ duration)
      | none => true) &&
    (match f.maxDurationSeconds with
      | some high => decide (duration ≤ seconds high)
      | none => true)

def matchingRuns (context : WorkspaceContext) (f : RunFilter) (s : Snapshot) : List Run :=
  s.store.runs.filter (f.accepts context.workspaceId s.now)

def runMark (run : Run) : Time × Uuid := (run.createdAt, run.id)

/-- `list_runs`, which takes the next cursor from the last run of the page. -/
def listRuns (context : WorkspaceContext) (f : RunFilter) (limit : Nat) (s : Snapshot)
    (cursor : Option (List Char)) : Except ApiFailure (Page Run (List Char)) := do
  if let some failure := f.refusal then throw failure
  let after ← match cursor with
    | none => pure none
    | some text => (decodeAuditCursor text).map some
  let rows := (listing timeRank runMark after (matchingRuns context f s)).take (limit + 1)
  let pageRuns := rows.take limit
  return {
    items := pageRuns
    next := if limit < rows.length then
      pageRuns.getLast?.map fun run => encodeAuditCursor (runMark run) else none }

/-! ## Events of a run -/

def matchingRunEvents (context : WorkspaceContext) (runId : Uuid) (s : Snapshot) :
    List RunEvent :=
  s.store.events.filter fun event => event.workspaceId = context.workspaceId ∧ event.runId = runId

/-- `_scoped_one` on the run. -/
def runRefusal (context : WorkspaceContext) (runId : Uuid) (s : Snapshot) : Option ApiFailure :=
  if s.store.runs.any fun run => run.id = runId ∧ run.workspaceId = context.workspaceId then none
  else some (.authorizationDenied "workspace access denied")

/-- `list_run_events`. -/
def listRunEvents (context : WorkspaceContext) (runId : Uuid) (limit : Nat) (s : Snapshot) :
    Option (List Char) → Except ApiFailure (Page RunEvent (List Char)) :=
  serve (fun sequence : Nat => sequence) RunEvent.sequence encodeSequenceCursor
    decodeSequenceCursor limit (runRefusal context runId s) (matchingRunEvents context runId s)

/-! ## Audit events -/

/-- The filters of `list_audit_events`. -/
structure AuditFilter where
  resourceType : Option String
  resourceId : Option Uuid
  actorId : Option Uuid
  action : Option String
  outcome : Option String
  occurred : TimeRange

def AuditFilter.refusal (f : AuditFilter) (context : WorkspaceContext) : Option ApiFailure :=
  if context.role = .viewer then some (.authorizationDenied "workspace access denied")
  else f.occurred.refusal "invalid audit time range"

def AuditFilter.accepts (f : AuditFilter) (workspaceId : Uuid) (event : AuditRow) : Bool :=
  event.workspaceId = workspaceId && agrees event.resourceType f.resourceType &&
    agrees event.resourceId f.resourceId && agrees event.actorUserId f.actorId &&
    agrees event.action f.action && agrees event.outcome f.outcome &&
    f.occurred.contains event.occurredAt

def matchingAuditEvents (context : WorkspaceContext) (f : AuditFilter) (s : Snapshot) :
    List AuditRow :=
  s.auditEvents.filter (f.accepts context.workspaceId)

def auditMark (event : AuditRow) : Time × Uuid := (event.occurredAt, event.id)

/-- `list_audit_events`. -/
def listAuditEvents (context : WorkspaceContext) (f : AuditFilter) (limit : Nat) (s : Snapshot) :
    Option (List Char) → Except ApiFailure (Page AuditRow (List Char)) :=
  serve timeRank auditMark encodeAuditCursor decodeAuditCursor limit (f.refusal context)
    (matchingAuditEvents context f s)

/-! ## Rows listed by their identifier -/

/-- `_after_cursor` and `_next_cursor` around a statement. -/
def listById {Row : Type} (identifier : Row → Uuid) (limit : Nat) (rows : List Row) :
    Option (List Char) → Except ApiFailure (Page Row (List Char)) :=
  serve idRank identifier encodeCursor decodeCursor limit none rows

/-- Registry entries with their current version, if there is one. -/
def matchingRegistryEntries (context : WorkspaceContext) (s : Snapshot) :
    List (RegistryEntry × Option RegistryEntryVersion) :=
  (s.entries.filter fun entry => entry.workspaceId = context.workspaceId).flatMap fun entry =>
    match s.entryVersions.filter fun version => some version.id = entry.currentVersionId with
    | [] => [(entry, none)]
    | versions => versions.map fun version => (entry, some version)

/-- `list_registry_entries`. -/
def listRegistryEntries (context : WorkspaceContext) (limit : Nat) (s : Snapshot) :
    Option (List Char) →
      Except ApiFailure (Page (RegistryEntry × Option RegistryEntryVersion) (List Char)) :=
  listById (fun row => row.1.id) limit (matchingRegistryEntries context s)

def matchingConnections (context : WorkspaceContext) (s : Snapshot) : List ServerConnection :=
  s.store.registry.connections.filter fun item => item.workspaceId = context.workspaceId

/-- `list_connections`. -/
def listConnections (context : WorkspaceContext) (limit : Nat) (s : Snapshot) :
    Option (List Char) → Except ApiFailure (Page ServerConnection (List Char)) :=
  listById ServerConnection.id limit (matchingConnections context s)

/-- The filters of `list_capabilities`. -/
structure CapabilityFilter where
  connectionId : Option Uuid
  status : Option String
  executable : Bool

def matchingCapabilities (context : WorkspaceContext) (f : CapabilityFilter) (s : Snapshot) :
    List Capability :=
  (if f.executable then s.store.registry.executableCapabilities context.workspaceId
    else s.store.registry.capabilities.filter fun c => c.workspaceId == context.workspaceId).filter
    fun c => agrees c.connectionId f.connectionId &&
      agrees (CapabilityStatus.value c.status) f.status

/-- `list_capabilities`. -/
def listCapabilities (context : WorkspaceContext) (f : CapabilityFilter) (limit : Nat)
    (s : Snapshot) : Option (List Char) → Except ApiFailure (Page Capability (List Char)) :=
  listById Capability.id limit (matchingCapabilities context f s)

/-! ## Every walk is exact -/

section walks
variable {context : WorkspaceContext} {limit : Nat}

/-- The last run of a full page is the row before the extra one. -/
lemma listRuns_eq_serve (hlimit : 1 ≤ limit) (f : RunFilter) (s : Snapshot) :
    listRuns context f limit s = serve timeRank runMark encodeAuditCursor decodeAuditCursor limit
      f.refusal (matchingRuns context f s) := by
  have hpage : ∀ after : Option (Time × Uuid),
      let rows := (listing timeRank runMark after (matchingRuns context f s)).take (limit + 1)
      (if limit < rows.length then
        (rows.take limit).getLast?.map fun run => encodeAuditCursor (runMark run) else none) =
      (page timeRank runMark limit after (matchingRuns context f s)).next.map
        encodeAuditCursor := by
    intro after rows
    simp only [page]
    split
    case isFalse => rfl
    case isTrue hlt =>
      have hlast : (rows.take limit).getLast? = rows[limit - 1]? := by
        rw [List.getLast?_eq_getElem?, List.length_take, Nat.min_eq_left hlt.le,
          List.getElem?_take, if_pos (by omega)]
      rw [hlast, Option.map_map]
      rfl
  funext cursor
  cases hrefusal : f.refusal with
  | some failure =>
    simp only [listRuns, serve, hrefusal]
    rfl
  | none =>
    cases cursor with
    | none =>
      simp only [listRuns, serve, hrefusal, Page.encode, ← hpage]
      rfl
    | some text =>
      simp only [listRuns, serve, hrefusal, Page.encode, ← hpage]
      cases decodeAuditCursor text <;> rfl

theorem listRuns_exact (hlimit : 1 ≤ limit) (h : History) (f : RunFilter) :
    Exact (fun n => listRuns context f limit (h.snapshot n)) (fun _ => f.refusal)
      (fun n => matchingRuns context f (h.snapshot n)) Run.id fun run => timeRank (runMark run) := by
  have hserve : (fun n => listRuns context f limit (h.snapshot n)) = fun n =>
      serve timeRank runMark encodeAuditCursor decodeAuditCursor limit f.refusal
        (matchingRuns context f (h.snapshot n)) :=
    funext fun n => listRuns_eq_serve hlimit f _
  have hmem : ∀ n, ∀ run ∈ matchingRuns context f (h.snapshot n),
      run ∈ (h.snapshot n).store.runs := fun n run hrun => (List.mem_filter.mp hrun).1
  rw [hserve]
  refine serve_exact hlimit (fun n => ?_) (fun i j run hrun other hother => ?_)
    (fun n run hrun => ?_)
  · exact (h.snapshot n).runIds.sublist (List.filter_sublist.map _)
  · rw [timeRank_inj, runMark, runMark, Prod.mk.injEq]
    have hkeep := h.runsKeep i j run (hmem i run hrun) other (hmem j other hother)
    exact ⟨fun heq => ⟨hkeep heq, heq⟩, fun heq => heq.2⟩
  · exact decodeAuditCursor_encodeAuditCursor _ ((h.snapshot n).runTimes run (hmem n run hrun))

theorem listAuditEvents_exact (hlimit : 1 ≤ limit) (h : History) (f : AuditFilter) :
    Exact (fun n => listAuditEvents context f limit (h.snapshot n)) (fun _ => f.refusal context)
      (fun n => matchingAuditEvents context f (h.snapshot n)) AuditRow.id
      fun event => timeRank (auditMark event) := by
  have hmem : ∀ n, ∀ event ∈ matchingAuditEvents context f (h.snapshot n),
      event ∈ (h.snapshot n).auditEvents := fun n event hevent => (List.mem_filter.mp hevent).1
  refine serve_exact hlimit (fun n => ?_) (fun i j event hevent other hother => ?_)
    (fun n event hevent => ?_)
  · exact (h.snapshot n).auditIds.sublist (List.filter_sublist.map _)
  · rw [timeRank_inj, auditMark, auditMark, Prod.mk.injEq]
    have hkeep := h.auditKeep i j event (hmem i event hevent) other (hmem j other hother)
    exact ⟨fun heq => ⟨hkeep heq, heq⟩, fun heq => heq.2⟩
  · exact decodeAuditCursor_encodeAuditCursor _
      ((h.snapshot n).auditTimes event (hmem n event hevent))

/-- Listing by a unique identifier is exact. -/
theorem listById_exact {Row : Type} {identifier : Row → Uuid} (hlimit : 1 ≤ limit)
    (rows : Nat → List Row) (unique : ∀ n, ((rows n).map identifier).Nodup) :
    Exact (fun n => listById identifier limit (rows n)) (fun _ => none) rows identifier
      fun row => idRank (identifier row) :=
  serve_exact hlimit unique (fun _ _ _ _ _ _ => idRank_inj.symm)
    fun _ _ _ => decodeCursor_encodeCursor _

lemma matchingRegistryEntries_unique (s : Snapshot) :
    ((matchingRegistryEntries context s).map fun row => row.1.id).Nodup := by
  have hentries : ((s.entries.filter fun entry => entry.workspaceId = context.workspaceId).map
      RegistryEntry.id).Nodup := s.entryIds.sublist (List.filter_sublist.map _)
  refine (map_flatMap_sublist fun entry _ => ?_).nodup hentries
  have hfew : (s.entryVersions.filter
      fun version => some version.id = entry.currentVersionId).length ≤ 1 := by
    refine length_filter_le_one (k := entry.currentVersionId.getD 0) s.entryVersionIds ?_
    intro version _ hcurrent
    simp only [decide_eq_true_eq] at hcurrent
    simp [← hcurrent]
  split
  · exact .refl _
  · refine map_sublist_singleton (by simpa using hfew) fun row hrow => ?_
    obtain ⟨version, -, rfl⟩ := List.mem_map.mp hrow
    rfl

/-- A capability meets one connection and one binding at most. -/
lemma executableCapabilities_unique (s : Snapshot) (workspaceId : Uuid) :
    ((s.store.registry.executableCapabilities workspaceId).map Capability.id).Nodup := by
  have hcapabilities : ((s.store.registry.capabilities.filter
      fun c => c.workspaceId == workspaceId).map Capability.id).Nodup :=
    s.capabilityIds.sublist (List.filter_sublist.map _)
  refine (map_flatMap_sublist fun c _ => ?_).nodup hcapabilities
  have hbindings : ∀ connection, (s.store.registry.bindings.filter
      (Registry.executableRow c connection)).length ≤ 1 := by
    intro connection
    refine length_filter_le_one (k := c.enabledVersionId.getD 0) s.bindingIds ?_
    intro binding _ hrow
    simp only [Registry.executableRow, Bool.and_eq_true, beq_iff_eq] at hrow
    simp [← hrow.1.1.1.1.1.1.2]
  have hfew : (s.store.registry.connections.flatMap fun connection =>
      (s.store.registry.bindings.filter (Registry.executableRow c connection)).map
        fun _ => c).length ≤ 1 := by
    refine length_flatMap_le_one (k := c.connectionId) s.connectionIds fun connection _ => ?_
    refine ⟨by simpa using hbindings connection, fun hne => ?_⟩
    obtain ⟨row, hrow⟩ := List.exists_mem_of_ne_nil _ hne
    obtain ⟨binding, hbinding, -⟩ := List.mem_map.mp hrow
    have htests := (List.mem_filter.mp hbinding).2
    simp only [Registry.executableRow, Bool.and_eq_true, beq_iff_eq] at htests
    exact htests.1.1.1.1.1.1.1
  refine map_sublist_singleton hfew fun row hrow => ?_
  obtain ⟨connection, -, hrow⟩ := List.mem_flatMap.mp hrow
  obtain ⟨_, -, rfl⟩ := List.mem_map.mp hrow
  rfl

lemma matchingCapabilities_unique (f : CapabilityFilter) (s : Snapshot) :
    ((matchingCapabilities context f s).map Capability.id).Nodup := by
  refine List.Nodup.sublist (List.filter_sublist.map _) ?_
  split
  · exact executableCapabilities_unique s _
  · exact s.capabilityIds.sublist (List.filter_sublist.map _)

theorem listRunEvents_exact (hlimit : 1 ≤ limit) (h : History) (runId : Uuid) :
    Exact (fun n => listRunEvents context runId limit (h.snapshot n))
      (fun n => runRefusal context runId (h.snapshot n))
      (fun n => matchingRunEvents context runId (h.snapshot n))
      (fun event => (event.runId, event.sequence)) fun event => event.sequence := by
  have hmem : ∀ n, ∀ event ∈ matchingRunEvents context runId (h.snapshot n),
      event ∈ (h.snapshot n).store.events ∧ event.runId = runId := fun n event hevent => by
    simp only [matchingRunEvents, List.mem_filter, decide_eq_true_eq] at hevent
    exact ⟨hevent.1, hevent.2.2⟩
  refine serve_exact hlimit (fun n => ?_) (fun i j event hevent other hother => ?_)
    (fun n event hevent => ?_)
  · exact (h.snapshot n).eventKeys.sublist (List.filter_sublist.map _)
  · rw [(hmem i event hevent).2, (hmem j other hother).2]
    simp
  · have hbound := (h.snapshot n).eventSequences event (hmem n event hevent).1
    exact decodeSequenceCursor_encodeSequenceCursor hbound.1 (by omega)

end walks

/-- Following the cursors of any of the six listings loses and repeats nothing, whatever happens
to the rows between the requests, and every cursor decodes to what it was made from. -/
theorem listings_exact (context : WorkspaceContext) (h : History) (limit : Nat)
    (hlimit : 1 ≤ limit) :
    (∀ f, Exact (fun n => listRuns context f limit (h.snapshot n)) (fun _ => f.refusal)
      (fun n => matchingRuns context f (h.snapshot n)) Run.id
      fun run => timeRank (run.createdAt, run.id)) ∧
    (∀ f, Exact (fun n => listAuditEvents context f limit (h.snapshot n))
      (fun _ => f.refusal context) (fun n => matchingAuditEvents context f (h.snapshot n))
      AuditRow.id fun event => timeRank (event.occurredAt, event.id)) ∧
    Exact (fun n => listRegistryEntries context limit (h.snapshot n)) (fun _ => none)
      (fun n => matchingRegistryEntries context (h.snapshot n)) (fun row => row.1.id)
      (fun row => idRank row.1.id) ∧
    Exact (fun n => listConnections context limit (h.snapshot n)) (fun _ => none)
      (fun n => matchingConnections context (h.snapshot n)) ServerConnection.id
      (fun item => idRank item.id) ∧
    (∀ f, Exact (fun n => listCapabilities context f limit (h.snapshot n)) (fun _ => none)
      (fun n => matchingCapabilities context f (h.snapshot n)) Capability.id
      fun c => idRank c.id) ∧
    (∀ runId, Exact (fun n => listRunEvents context runId limit (h.snapshot n))
      (fun n => runRefusal context runId (h.snapshot n))
      (fun n => matchingRunEvents context runId (h.snapshot n))
      (fun event => (event.runId, event.sequence)) RunEvent.sequence) ∧
    (∀ id, decodeCursor (encodeCursor id) = .ok id) ∧
    (∀ t id, IsDatetime t → decodeAuditCursor (encodeAuditCursor (t, id)) = .ok (t, id)) ∧
    ∀ sequence, 1 ≤ sequence → sequence < 10 ^ 12 →
      decodeSequenceCursor (encodeSequenceCursor sequence) = .ok sequence :=
  ⟨listRuns_exact hlimit h, listAuditEvents_exact hlimit h,
    listById_exact hlimit _ fun _ => matchingRegistryEntries_unique _,
    listById_exact hlimit _ fun n => (h.snapshot n).connectionIds.sublist
      (List.filter_sublist.map _),
    fun f => listById_exact hlimit _ fun _ => matchingCapabilities_unique f _,
    listRunEvents_exact hlimit h, decodeCursor_encodeCursor,
    fun t id => decodeAuditCursor_encodeAuditCursor (t, id),
    fun _ => decodeSequenceCursor_encodeSequenceCursor⟩

namespace Audited

def store : Store where
  registry := ⟨[], [], [], [], [], [], [], [], [], [], [], [], []⟩
  system := none
  runs := []
  jobs := []
  attempts := []
  events := []
  results := []
  nonces := []
  records := []
  audit := []

def event (id : Uuid) (occurredAt : Time) : AuditRow :=
  ⟨id, 1, 2, "run.created", "run", 3, "succeeded", 4, occurredAt⟩

/-- Three audit events, two of them at the same instant. -/
def snapshot : Snapshot where
  store := store
  entries := []
  entryVersions := []
  auditEvents := [event 10 5, event 11 5, event 12 4]
  now := 6
  runIds := by decide
  runTimes := by simp [store]
  eventKeys := by decide
  eventSequences := by simp [store]
  connectionIds := by decide
  capabilityIds := by decide
  bindingIds := by decide
  entryIds := by decide
  entryVersionIds := by decide
  auditIds := by decide
  auditTimes := by decide

def history : History where
  snapshot := fun _ => snapshot
  runsKeep := by simp [snapshot, store]
  auditKeep := by intro _ _; decide

end Audited

/-- Page by page, each of three events comes once. -/
theorem listings_exact_sample :
    let request := fun n => listAuditEvents ⟨1, 2, .admin⟩
      ⟨none, none, none, none, none, ⟨none, none⟩⟩ 1 (Audited.history.snapshot n)
    ((walk request 3).returned.map AuditRow.id).count 11 = 1 := by
  intro request
  have h := (listings_exact ⟨1, 2, .admin⟩ Audited.history 1 (by decide)).2.1
    ⟨none, none, none, none, none, ⟨none, none⟩⟩
  have hthere : 11 ∈ (matchingAuditEvents ⟨1, 2, .admin⟩
      ⟨none, none, none, none, none, ⟨none, none⟩⟩ Audited.snapshot).map AuditRow.id := by decide
  exact h.complete 3 rfl 11 fun _ _ => hthere

end Modall.Api
