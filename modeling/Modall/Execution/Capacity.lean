import Modall.Execution.Safety

/-!
# The active-run cap among concurrent admissions

`create_run` counts the active runs of its workspace and then inserts one more. Here a call is
a flight that advances one stage at a time, and every stage reads the rows that were committed
before it. Between the stages of one flight the other flights go on, and workers, operators and
the registry run any of their transactions. What keeps the count good until the commit is the
workspace row lock: it is taken in a savepoint, survives the release of the savepoint, and is
given up early only when the call turns out to be a replay.
-/
namespace Modall
open Library

/-- What an admission has decided before it counts. -/
structure Checked where
  presented : Presented
  target : AdmissionTarget
  deadline : Time
  now : Time

namespace ExecutionService

/-- The lookup of `create_run` under the admission lock. -/
def recheck (service : ExecutionService) (P : Platform) (request : RunRequest) :
    Tx (Time × Option IdempotencyRecord) := do
  let now ← durableNow
  service.requireConfirmationKeyHistory P
  service.requireIdempotencyKeyHistory P
  let record ← service.findIdempotencyRecord P request.context request.idempotencyKey
  return (now, record)

/-- `create_run` from the consumed-nonce query to the quarantine check. -/
def checkAdmission (service : ExecutionService) (P : Platform) (request : RunRequest)
    (presented : Presented) (now : Time) : Tx Checked := do
  let usedNonce ← selectRow (·.nonces) fun nonce => nonce.nonceDigest == presented.nonceDigest
  raiseIf (presented.claims.expiresAt ≤ now) (.execution .confirmationExpired)
  raiseIf (usedNonce ≠ none) (.execution .confirmationReplayed)
  let _ ← lift (service.admissionDeadline presented.requestedDeadline now)
  let target ← loadAdmissionTarget request.context request.capabilityVersionId
  raiseIf (presented.claims.capabilityId ≠ target.capability.id ∨
    presented.claims.connectionId ≠ target.connection.id ∨
    presented.claims.connectionVersionId ≠ target.binding.connectionVersionId)
    (.execution .invalidConfirmation)
  lift (P.validateNormalizedArguments presented.normalized target.version.inputSchema)
  let now ← durableNow
  raiseIf (presented.claims.expiresAt ≤ now) (.execution .confirmationExpired)
  let deadline ← lift (service.admissionDeadline presented.requestedDeadline now)
  raiseIf presented.state.dispatchQuarantined (.execution .dispatchQuarantined)
  return ⟨presented, target, deadline, now⟩

/-- The count of `create_run` and its comparison with the cap. -/
def requireCapacity (service : ExecutionService) (request : RunRequest) : Tx Unit := do
  let activeRunCount ← query fun s => (s.rows.runs.filter fun run =>
    run.workspaceId == request.context.workspaceId && run.status.active).length
  raiseIf (service.limits.maxActiveRunsPerWorkspace ≤ activeRunCount) (.execution .activeRunLimit)

def insertChecked (service : ExecutionService) (P : Platform) (request : RunRequest)
    (checked : Checked) : Tx Run :=
  service.insertRun P request checked.presented checked.target checked.deadline checked.now

/-- The stages, run one after the other, are `create_run`. -/
theorem createRun_eq (service : ExecutionService) (P : Platform) (request : RunRequest) :
    service.createRun P request = (do
      let presented ← service.presentRun P request
      match ← service.findIdempotencyRecord P request.context request.idempotencyKey with
      | some record => service.replayPresented P request presented record
      | none =>
        requireCurrentRole request.context [.admin, .operator] true
        match ← service.recheck P request with
        | (_, some record) => service.replayPresented P request presented record
        | (now, none) =>
          let checked ← service.checkAdmission P request presented now
          service.requireCapacity request
          service.insertChecked P request checked) := by
  have admitRun presented now : service.admitRun P request presented now = (do
      let checked ← service.checkAdmission P request presented now
      service.requireCapacity request
      service.insertChecked P request checked) := by
    simp only [ExecutionService.admitRun, checkAdmission, requireCapacity, insertChecked,
      bind_assoc, pure_bind]
  simp only [createRun, admitLocked, recheck, bind_assoc, pure_bind, admitRun]
  congr! with presented _ _ now record
  cases record <;> rfl

end ExecutionService

/-! ## Flights -/

/-- Where a call of `create_run` stands. -/
inductive Stage where
  | began
  | presented (presented : Presented)
  /-- It waits for the workspace row lock. -/
  | waiting (presented : Presented)
  | locked (presented : Presented)
  /-- The lookup under the lock has found no record. -/
  | unrecorded (presented : Presented) (now : Time)
  | checked (checked : Checked)
  | counted (checked : Checked)
  | inserted (checked : Checked)
  /-- A record was found, and whatever the savepoint had locked is released. -/
  | replaying (presented : Presented) (record : IdempotencyRecord)

namespace Stage

/-- The transaction holds the row lock of its workspace. -/
def holds : Stage → Bool
  | locked _ | unrecorded .. | checked _ | counted _ | inserted _ => true
  | _ => false

/-- The count has been taken. -/
def hasCounted : Stage → Bool
  | counted _ | inserted _ => true
  | _ => false

def decided : Stage → Option Checked
  | checked c | counted c | inserted c => some c
  | _ => none

theorem holds_of_hasCounted {stage : Stage} (h : stage.hasCounted = true) :
    stage.holds = true := by cases stage <;> first | rfl | cases h

end Stage

/-- A call of `create_run` under way. `system` is the system row it has read, or inserted. -/
structure Flight where
  service : ExecutionService
  request : RunRequest
  stage : Stage
  system : Option SystemExecutionState

namespace Flight

def workspaceId (f : Flight) : Uuid := f.request.context.workspaceId

/-- The flight holds the row lock of this workspace. -/
def Locks (f : Flight) (workspaceId : Uuid) : Prop :=
  f.stage.holds = true ∧ f.workspaceId = workspaceId

/-- The committed rows with those the flight has written itself. -/
def sees (P : Platform) (f : Flight) (store : Store) : Store :=
  let opened := { store with system := store.system.or f.system }
  match f.stage with
  | .inserted c =>
    f.service.insertRows P f.request c.presented c.target c.deadline c.now opened
  | _ => opened

/-- Some statements of the flight return `a` and leave its session in `t`. -/
def Runs {α : Type} (P : Platform) (w : World) (f : Flight) (x : Tx α) (a : α) (t : Session) :
    Prop :=
  ∃ ticks held, x (.begin (f.sees P w.store) w.clock ticks held []) = .ok a t

/-- The next stage of a flight. A statement that raises ends the flight instead. -/
inductive Advances (P : Platform) (w : World) (others : List Flight) (f : Flight) :
    Flight → Session → Prop where
  | present {presented : Presented} {t : Session} : f.stage = .began →
      f.Runs P w (f.service.presentRun P f.request) presented t →
      Advances P w others f { f with stage := .presented presented, system := t.rows.system } t
  | found {presented : Presented} {record : IdempotencyRecord} {t : Session} :
      f.stage = .presented presented →
      f.Runs P w (f.service.findIdempotencyRecord P f.request.context f.request.idempotencyKey)
        (some record) t →
      Advances P w others f { f with stage := .replaying presented record } t
  | miss {presented : Presented} {t : Session} : f.stage = .presented presented →
      f.Runs P w (f.service.findIdempotencyRecord P f.request.context f.request.idempotencyKey)
        none t →
      Advances P w others f { f with stage := .waiting presented } t
  | lock {presented : Presented} {t : Session} : f.stage = .waiting presented →
      (∀ g ∈ others, ¬ g.Locks f.workspaceId) →
      f.Runs P w (requireCurrentRole f.request.context [.admin, .operator] true) () t →
      Advances P w others f { f with stage := .locked presented } t
  /-- Another creator has won; rolling the savepoint back releases the lock. -/
  | lose {presented : Presented} {now : Time} {record : IdempotencyRecord} {t : Session} :
      f.stage = .locked presented →
      f.Runs P w (f.service.recheck P f.request) (now, some record) t →
      Advances P w others f { f with stage := .replaying presented record } t
  | win {presented : Presented} {now : Time} {t : Session} : f.stage = .locked presented →
      f.Runs P w (f.service.recheck P f.request) (now, none) t →
      Advances P w others f { f with stage := .unrecorded presented now } t
  | check {presented : Presented} {now : Time} {checked : Checked} {t : Session} :
      f.stage = .unrecorded presented now →
      f.Runs P w (f.service.checkAdmission P f.request presented now) checked t →
      Advances P w others f { f with stage := .checked checked } t
  | count {checked : Checked} {t : Session} : f.stage = .checked checked →
      f.Runs P w (f.service.requireCapacity f.request) () t →
      Advances P w others f { f with stage := .counted checked } t
  | insert {checked : Checked} {run : Run} {t : Session} : f.stage = .counted checked →
      f.Runs P w (f.service.insertChecked P f.request checked) run t →
      Advances P w others f { f with stage := .inserted checked } t

end Flight

/-- A world and the calls of `create_run` under way in it. -/
structure Traffic where
  world : World
  flights : List Flight

/-- What happened in a step. -/
inductive Move where
  | operate (l : Label) | takeOff | advance | commit | replay | rollBack

/-- The label of a `create_run` that returned. -/
def Label.creates : Label → Bool
  | .call _ (.createRun _) (.ok _) => true
  | _ => false

/-- One step among calls whose cap is `M`. Their other limits, and those of the operations that
run in between, are their callers' own. -/
inductive Traffic.Step (P : Platform) (M : Nat) : Traffic → Move → Traffic → Prop where
  | operate {T : Traffic} {limits : ExecutionLimits} {l : Label} {w : World} :
      Modall.Step P limits T.world l w → l.creates = false →
      Step P M T (.operate l) { T with world := w }
  | takeOff {T : Traffic} {service : ExecutionService} {request : RunRequest} :
      service.limits.maxActiveRunsPerWorkspace = M →
      (∀ id ∈ (Call.createRun request).draws, id ∉ T.world.drawn) →
      Step P M T .takeOff
        ⟨{ T.world with drawn := (Call.createRun request).draws ++ T.world.drawn },
          ⟨service, request, .began, none⟩ :: T.flights⟩
  | advance {T : Traffic} {f f' : Flight} {others : List Flight} {t : Session} (later : Time) :
      T.flights.Perm (f :: others) → f.Advances P T.world others f' t → T.world.clock ≤ later →
      t.clock ≤ later →
      Step P M T .advance ⟨{ T.world with clock := later }, f' :: others⟩
  | commit {T : Traffic} {f : Flight} {others : List Flight} {checked : Checked} :
      T.flights.Perm (f :: others) → f.stage = .inserted checked →
      Step P M T .commit ⟨{ T.world with store := f.sees P T.world.store }, others⟩
  | replay {T : Traffic} {f : Flight} {others : List Flight} {presented : Presented}
      {record : IdempotencyRecord} {run : Run} {t : Session} (later : Time) :
      T.flights.Perm (f :: others) → f.stage = .replaying presented record →
      (∀ g ∈ others, ¬ g.Locks f.workspaceId) →
      f.Runs P T.world (f.service.replayPresented P f.request presented record) run t →
      T.world.clock ≤ later → t.clock ≤ later →
      Step P M T .replay ⟨{ T.world with store := t.objects, clock := later }, others⟩
  | rollBack {T : Traffic} {f : Flight} {others : List Flight} :
      T.flights.Perm (f :: others) → Step P M T .rollBack { T with flights := others }

def Traffic.Initial (T : Traffic) : Prop := T.world.Initial ∧ T.flights = []

/-! ## The rows between two commits -/

/-- The number `create_run` counts. -/
def Store.activeRuns (s : Store) (workspaceId : Uuid) : Nat :=
  (s.runs.filter fun run => run.workspaceId == workspaceId && run.status.active).length

/-- Every run of `t` is a run of `s`, and is active only if it was. -/
def Store.Narrows (s t : Store) : Prop :=
  ∀ run ∈ t.runs, ∃ old ∈ s.runs, old.id = run.id ∧ old.workspaceId = run.workspaceId ∧
    (run.status.active = true → old.status.active = true)

section Rows
variable {limits wider : ExecutionLimits} {clock : Time} {s t : Store}

theorem Store.Sound.nodup (sound : s.Sound limits clock) : (s.runs.map Run.id).Nodup := by
  refine nodup_map_of_filter_length_le_one fun r => ?_
  rcases sound r with empty | ⟨run, job, valid, -⟩
  · exact (congrArg (fun l => l.runs.length) empty).le.trans (Nat.zero_le _)
  · exact (congrArg List.length valid.runs).le

theorem Store.Narrows.activeRuns_le (narrows : s.Narrows t) (nodup : (t.runs.map Run.id).Nodup)
    (workspaceId : Uuid) : t.activeRuns workspaceId ≤ s.activeRuns workspaceId := by
  let active := fun run : Run => run.workspaceId == workspaceId && run.status.active
  have sub : (t.runs.filter active).map Run.id ⊆ (s.runs.filter active).map Run.id := by
    intro r mem
    obtain ⟨run, hrun, rfl⟩ := List.mem_map.mp mem
    obtain ⟨hrun, hactive⟩ := List.mem_filter.mp hrun
    rw [Bool.and_eq_true, beq_iff_eq] at hactive
    obtain ⟨old, hold, hid, hw, ha⟩ := narrows run hrun
    refine List.mem_map.mpr ⟨old, List.mem_filter.mpr ⟨hold, ?_⟩, hid⟩
    simp only [active, hw, hactive.1, ha hactive.2, beq_self_eq_true, Bool.and_self]
  have fewer := (List.subperm_of_subset ((List.filter_sublist.map Run.id).nodup nodup) sub).length_le
  rw [List.length_map, List.length_map] at fewer
  exact fewer

/-- Rows that were admitted within a limit were admitted within any wider one. -/
theorem Lineage.Valid.widen {l : Lineage} {run : Run} {job : Job} (valid : l.Valid limits run job)
    (wide : limits.maxRunSeconds ≤ wider.maxRunSeconds) : l.Valid wider run job := by
  refine { valid with bounded := valid.bounded.trans ?_ }
  unfold seconds
  simp only [Time]
  omega

theorem Store.Sound.widen (sound : s.Sound limits clock)
    (wide : limits.maxRunSeconds ≤ wider.maxRunSeconds) : s.Sound wider clock := by
  intro r
  rcases sound r with empty | ⟨run, job, valid, created⟩
  · exact .inl empty
  · exact .inr ⟨run, job, valid.widen wide, created⟩

/-- When every run continues one that was there, no workspace gains an active one. -/
theorem Store.narrows_of_continues (sound : t.Sound limits clock)
    (continues : ∀ {r run' job'}, (t.lineage r).Valid limits run' job' →
      ∃ run job, (s.lineage r).Valid limits run job ∧
        (s.lineage r).Continues run job (t.lineage r) run' job') : s.Narrows t := by
  intro run' mem
  have mine := Store.mem_lineage_runs.mpr ⟨mem, rfl⟩
  rcases sound run'.id with empty | ⟨row, job', valid, -⟩
  · rw [empty] at mine
    cases mine
  · rw [valid.runs, List.mem_singleton] at mine
    subst mine
    obtain ⟨run, job, before, kept⟩ := continues valid
    have old : run ∈ (s.lineage run'.id).runs := by simp [before.runs]
    refine ⟨run, (Store.mem_lineage_runs.mp old).1, (Run.id_of_pinned kept.pinnedRun).symm,
      (Run.workspaceId_of_pinned kept.pinnedRun).symm, fun live => ?_⟩
    simp only [RunStatus.active_eq_not_terminal, Bool.not_eq_true'] at live ⊢
    by_contra ended
    rw [Bool.not_eq_false] at ended
    rw [(kept.terminal ended).1, ended] at live
    cases live

end Rows

/-! ## The invariant -/

/-- What a flight has established. Once it has counted there is room for its run. -/
structure Flight.Fits (M : Nat) (w : World) (f : Flight) : Prop where
  capacity : f.service.limits.maxActiveRunsPerWorkspace = M
  drawn : f.request.runId ∈ w.drawn
  fresh : w.store.lineage f.request.runId = .empty
  decided : ∀ c, f.stage.decided = some c → c.now ≤ w.clock ∧
    f.service.admissionDeadline c.presented.requestedDeadline c.now = .ok c.deadline
  room : f.stage.hasCounted = true → w.store.activeRuns f.workspaceId < M

/-- Two flights insert different runs, and do not hold one workspace together. -/
def Flight.Apart (f g : Flight) : Prop :=
  f.request.runId ≠ g.request.runId ∧
    (f.stage.holds = true → g.stage.holds = true → f.workspaceId ≠ g.workspaceId)

theorem Flight.Apart.symm {f g : Flight} (h : f.Apart g) : g.Apart f :=
  ⟨h.1.symm, fun hg hf => (h.2 hf hg).symm⟩

structure Traffic.Invariant (M : Nat) (T : Traffic) : Prop where
  sound : ∃ limits, T.world.store.Sound limits T.world.clock
  drawn : ∀ r, T.world.store.lineage r ≠ .empty → r ∈ T.world.drawn
  fits : ∀ f ∈ T.flights, f.Fits M T.world
  apart : T.flights.Pairwise Flight.Apart
  capped : ∀ workspaceId, T.world.store.activeRuns workspaceId ≤ M

section Invariant
variable {P : Platform} {M : Nat} {T T' : Traffic} {w w' : World} {f f' : Flight}
  {others : List Flight} {t : Session}

/-- A store in which no run is new or active again. -/
structure World.Narrows (w w' : World) : Prop where
  sound : ∃ limits, w'.store.Sound limits w'.clock
  runs : w.store.Narrows w'.store
  empty : ∀ r, w.store.lineage r = .empty → w'.store.lineage r = .empty
  drawn : ∀ id ∈ w.drawn, id ∈ w'.drawn
  clock : w.clock ≤ w'.clock

theorem World.Narrows.activeRuns_le (h : w.Narrows w') (workspaceId : Uuid) :
    w'.store.activeRuns workspaceId ≤ w.store.activeRuns workspaceId := by
  obtain ⟨limits, sound⟩ := h.sound
  exact h.runs.activeRuns_le sound.nodup workspaceId

theorem Flight.Fits.narrow (fits : f.Fits M w) (h : w.Narrows w') : f.Fits M w' where
  capacity := fits.capacity
  drawn := h.drawn _ fits.drawn
  fresh := h.empty _ fits.fresh
  decided c hc := ⟨(fits.decided c hc).1.trans h.clock, (fits.decided c hc).2⟩
  room counted := (h.activeRuns_le f.workspaceId).trans_lt (fits.room counted)

/-- Such a change is allowed at any time, whatever the flights have counted. -/
theorem Traffic.Invariant.narrow (inv : T.Invariant M) (h : T.world.Narrows w') :
    Traffic.Invariant M ⟨w', T.flights⟩ where
  sound := h.sound
  drawn r some := h.drawn r (inv.drawn r fun empty => some (h.empty r empty))
  fits f mem := (inv.fits f mem).narrow h
  apart := inv.apart
  capped workspaceId := (h.activeRuns_le workspaceId).trans (inv.capped workspaceId)

theorem Traffic.Invariant.perm (inv : T.Invariant M) {flights : List Flight}
    (perm : T.flights.Perm flights) : Traffic.Invariant M ⟨T.world, flights⟩ :=
  { inv with
    fits := fun f mem => inv.fits f (perm.mem_iff.mpr mem)
    apart := perm.pairwise inv.apart Flight.Apart.symm }

/-- The rows of every run stay as they are. -/
theorem World.narrows_of_lineage (sound : ∃ limits, w.store.Sound limits w.clock)
    (lineage : ∀ r, w'.store.lineage r = w.store.lineage r)
    (drawn : ∀ id ∈ w.drawn, id ∈ w'.drawn) (clock : w.clock ≤ w'.clock) : w.Narrows w' where
  sound := by
    obtain ⟨limits, sound⟩ := sound
    refine ⟨limits, fun r => ?_⟩
    rw [lineage]
    exact sound.mono clock r
  runs run mem := by
    have mine := Store.mem_lineage_runs.mpr ⟨mem, rfl⟩
    rw [lineage] at mine
    exact ⟨run, (Store.mem_lineage_runs.mp mine).1, rfl, rfl, id⟩
  empty r h := (lineage r).trans h
  drawn := drawn
  clock := clock

/-- The transactions of workers, operators and the registry create no run and revive none. -/
theorem World.narrows_of_operation {limits : ExecutionLimits} {l : Label}
    (step : Modall.Step P limits w l w') (other : l.creates = false)
    (sound : ∃ limits, w.store.Sound limits w.clock) : w.Narrows w' := by
  obtain ⟨bound, sound⟩ := sound
  -- The caller's retention with a bound on the run time that all the rows meet.
  let wider : ExecutionLimits :=
    { limits with
      maxRunSeconds := max limits.maxRunSeconds bound.maxRunSeconds
      runSeconds_pos := limits.runSeconds_pos.trans_le (Int.le_max_left ..) }
  have rows : w.store.Sound wider w.clock := sound.widen (Int.le_max_right ..)
  have none : ∀ service request run, l ≠ .call service (.createRun request) (.ok (.run run)) := by
    rintro service request run rfl
    cases other
  have effect : Effect wider w l w' := by
    cases l with
    | registry registry =>
      cases step
      exact .registry (fun _ => rfl) rfl rfl
    | call service call result =>
      rcases step.cases_call with ⟨e, -, hstore⟩ | ⟨reply, s, t, rfl, ran⟩
      · exact .evolve (hstore ▸ .refl _)
      · refine ran.effect_of_other rows rfl ?_
        rintro request rfl
        cases other
  have sound' := (effect.sound rows none).mono step.clock
  exact {
    sound := ⟨wider, sound'⟩
    runs := Store.narrows_of_continues sound' (effect.continues rows none)
    empty := by
      intro r gone
      rcases sound' r with empty | ⟨run', job', valid, -⟩
      · exact empty
      · obtain ⟨run, job, before, -⟩ := effect.continues rows none valid
        exact (before.ne_empty gone).elim
    drawn := step.drawn
    clock := step.clock }

/-! ## What a stage establishes -/

theorem checkAdmission_ok {service : ExecutionService} {request : RunRequest}
    {presented : Presented} {now : Time} {checked : Checked} {s : Session}
    (h : service.checkAdmission P request presented now s = .ok checked t) :
    checked.now = t.clock ∧
      service.admissionDeadline checked.presented.requestedDeadline checked.now =
        .ok checked.deadline := by
  unfold ExecutionService.checkAdmission at h
  rw [bind_of_ok (selectRow_apply ..), bind_eq_ok] at h
  obtain ⟨⟨⟩, _, -, h⟩ := h
  rw [bind_eq_ok] at h
  obtain ⟨⟨⟩, _, -, h⟩ := h
  rw [bind_eq_ok] at h
  obtain ⟨_, _, -, h⟩ := h
  rw [bind_eq_ok] at h
  obtain ⟨target, _, -, h⟩ := h
  rw [bind_eq_ok] at h
  obtain ⟨⟨⟩, _, -, h⟩ := h
  rw [bind_eq_ok] at h
  obtain ⟨⟨⟩, _, -, h⟩ := h
  rw [bind_eq_ok] at h
  obtain ⟨now', u, hu, h⟩ := h
  rw [bind_eq_ok] at h
  obtain ⟨⟨⟩, v, hv, h⟩ := h
  obtain ⟨-, rfl⟩ := raiseIf_eq_ok.mp hv
  rw [bind_eq_ok] at h
  obtain ⟨deadline, x, hx, h⟩ := h
  obtain ⟨bounded, rfl⟩ := lift_eq_ok.mp hx
  rw [bind_eq_ok] at h
  obtain ⟨⟨⟩, y, hy, h⟩ := h
  obtain ⟨-, rfl⟩ := raiseIf_eq_ok.mp hy
  injection h with hc ht
  subst hc ht
  exact ⟨(durableNow_eq_ok hu).1, bounded⟩

/-- Before it inserts a flight has written no row of any run. -/
theorem Flight.sees_eq {store : Store} (h : ∀ c, f.stage ≠ .inserted c) :
    f.sees P store = { store with system := store.system.or f.system } := by
  unfold sees
  split
  · exact (h _ ‹_›).elim
  · rfl

/-- A count that passes leaves room for one more run. -/
theorem requireCapacity_ok {checked : Checked} (hf : f.stage = .checked checked)
    (capacity : f.service.limits.maxActiveRunsPerWorkspace = M)
    (runs : f.Runs P w (f.service.requireCapacity f.request) () t) :
    w.store.activeRuns f.workspaceId < M := by
  obtain ⟨ticks, held, h⟩ := runs
  unfold ExecutionService.requireCapacity at h
  rw [bind_of_ok (query_apply _ _), raiseIf_eq_ok] at h
  obtain ⟨below, -⟩ := h
  rw [capacity, not_le, Int.ofNat_lt, Session.begin, Flight.sees_eq (by simp [hf])] at below
  exact below

theorem Flight.Fits.restage {later : Time} (fits : f.Fits M w) {stage : Stage}
    {system : Option SystemExecutionState}
    (decided : ∀ c, stage.decided = some c → c.now ≤ later ∧
      f.service.admissionDeadline c.presented.requestedDeadline c.now = .ok c.deadline)
    (room : stage.hasCounted = true → w.store.activeRuns f.workspaceId < M) :
    Fits M { w with clock := later } { f with stage, system } :=
  ⟨fits.capacity, fits.drawn, fits.fresh, decided, room⟩

theorem Flight.Advances.fits {later : Time} (adv : f.Advances P w others f' t)
    (fits : f.Fits M w) (clock : w.clock ≤ later) (done : t.clock ≤ later) :
    f'.Fits M { w with clock := later } := by
  have kept {c} (hc : f.stage.decided = some c) : ∀ c', some c = some c' → c'.now ≤ later ∧
      f.service.admissionDeadline c'.presented.requestedDeadline c'.now = .ok c'.deadline := by
    rintro _ ⟨⟩
    exact ⟨(fits.decided c hc).1.trans clock, (fits.decided c hc).2⟩
  cases adv with
  | present | found | miss | lock | lose | win =>
    exact fits.restage (fun _ h => nomatch h) (fun h => nomatch h)
  | check hf runs =>
    obtain ⟨ticks, held, h⟩ := runs
    obtain ⟨hnow, bounded⟩ := checkAdmission_ok h
    refine fits.restage ?_ (fun h => nomatch h)
    rintro c ⟨⟩
    exact ⟨hnow ▸ done, bounded⟩
  | count hf runs =>
    exact fits.restage (kept (by rw [hf]; rfl)) fun _ => requireCapacity_ok hf fits.capacity runs
  | insert hf runs =>
    exact fits.restage (kept (by rw [hf]; rfl)) fun _ => fits.room (by rw [hf]; rfl)

/-- The lock is taken only while nobody else has it. -/
theorem Flight.Advances.apart (adv : f.Advances P w others f' t) {g : Flight} (mem : g ∈ others)
    (apart : f.Apart g) : f'.Apart g := by
  cases adv with
  | present | found | miss | lose => exact ⟨apart.1, nofun⟩
  | lock _ free => exact ⟨apart.1, fun _ hg same => free g mem ⟨hg, same.symm⟩⟩
  | win hf | check hf | count hf | insert hf =>
    exact ⟨apart.1, fun _ => apart.2 (by simp [hf, Stage.holds])⟩

theorem Traffic.Invariant.advance (inv : T.Invariant M) {later : Time}
    (perm : T.flights.Perm (f :: others)) (adv : f.Advances P T.world others f' t)
    (clock : T.world.clock ≤ later) (done : t.clock ≤ later) :
    Traffic.Invariant M ⟨{ T.world with clock := later }, f' :: others⟩ := by
  have before := inv.perm perm
  have passed : Traffic.Invariant M ⟨{ T.world with clock := later }, f :: others⟩ :=
    before.narrow (World.narrows_of_lineage before.sound (fun _ => rfl) (fun _ mem => mem) clock)
  obtain ⟨first, rest⟩ := List.pairwise_cons.mp before.apart
  refine { passed with fits := fun g mem => ?_, apart := ?_ }
  · rcases List.mem_cons.mp mem with rfl | mem
    · exact adv.fits (before.fits f List.mem_cons_self) clock done
    · exact passed.fits g (List.mem_cons_of_mem f mem)
  · exact List.pairwise_cons.mpr ⟨fun g mem => adv.apart mem (first g mem), rest⟩

/-! ## The ends of a flight -/

theorem Traffic.Invariant.takeOff (inv : T.Invariant M) {service : ExecutionService}
    {request : RunRequest} (capacity : service.limits.maxActiveRunsPerWorkspace = M)
    (fresh : ∀ id ∈ (Call.createRun request).draws, id ∉ T.world.drawn) :
    Traffic.Invariant M
      ⟨{ T.world with drawn := (Call.createRun request).draws ++ T.world.drawn },
        ⟨service, request, .began, none⟩ :: T.flights⟩ := by
  have unknown : request.runId ∉ T.world.drawn := fresh _ (by simp [Call.draws])
  have passed : Traffic.Invariant M
      ⟨{ T.world with drawn := (Call.createRun request).draws ++ T.world.drawn }, T.flights⟩ :=
    inv.narrow (World.narrows_of_lineage inv.sound (fun _ => rfl)
      (fun _ mem => List.mem_append_right _ mem) (le_refl _))
  refine { passed with fits := fun g mem => ?_, apart := ?_ }
  · rcases List.mem_cons.mp mem with rfl | mem
    · refine ⟨capacity, by simp [Call.draws], ?_, (fun _ h => by cases h), fun h => by cases h⟩
      by_contra used
      exact unknown (inv.drawn _ used)
    · exact passed.fits g mem
  · refine List.pairwise_cons.mpr ⟨fun g mem => ⟨fun same => ?_, fun h => by cases h⟩,
      inv.apart⟩
    exact unknown (same ▸ (inv.fits g mem).drawn)

theorem Traffic.Invariant.rollBack (inv : T.Invariant M) (perm : T.flights.Perm (f :: others)) :
    Traffic.Invariant M ⟨T.world, others⟩ :=
  have before := inv.perm perm
  { before with
    fits := fun g mem => before.fits g (List.mem_cons_of_mem f mem)
    apart := (List.pairwise_cons.mp before.apart).2 }

/-- A replay consumes a nonce at most. -/
theorem Traffic.Invariant.replay (inv : T.Invariant M) {presented : Presented}
    {record : IdempotencyRecord} {run : Run} {later : Time}
    (perm : T.flights.Perm (f :: others)) (hf : f.stage = .replaying presented record)
    (runs : f.Runs P T.world (f.service.replayPresented P f.request presented record) run t)
    (clock : T.world.clock ≤ later) :
    Traffic.Invariant M ⟨{ T.world with store := t.objects, clock := later }, others⟩ := by
  have hs : f.sees P T.world.store =
      { T.world.store with system := T.world.store.system.or f.system } :=
    Flight.sees_eq (by simp [hf])
  have seen : Traffic.Invariant M ⟨{ T.world with store := f.sees P T.world.store }, others⟩ :=
    (inv.rollBack perm).narrow (World.narrows_of_lineage inv.sound (fun r => by rw [hs]; rfl)
      (fun _ mem => mem) (le_refl _))
  obtain ⟨ticks, held, h⟩ := runs
  obtain ⟨u, v, replays⟩ := replayPresented_ok rfl h
  have rows : u.rows = f.sees P T.world.store ∧ v.rows = f.sees P T.world.store := by
    obtain ⟨hu, -, alone, -⟩ := replays.waits.quiet rfl
    exact ⟨hu, (replays.waits'.quiet alone).1.trans hu⟩
  have consumes : (f.sees P T.world.store).Consumes t.objects := by
    rw [replays.flushed]
    exact replays.consumes ⟨by rw [rows.2], .inl (by rw [rows.2])⟩
      ⟨run, rows.1 ▸ replays.mem, rfl⟩
  obtain ⟨limits, sound⟩ := seen.sound
  have sound' : t.objects.Sound limits later := (consumes.sound sound).mono clock
  refine seen.narrow {
    sound := ⟨limits, sound'⟩
    runs := Store.narrows_of_continues sound' consumes.continues
    empty := fun r gone => ?_
    drawn := fun _ mem => mem
    clock := clock }
  rcases sound' r with empty | ⟨run', job', valid, -⟩
  · exact empty
  · obtain ⟨_, _, before, -⟩ := consumes.continues valid
    exact (before.ne_empty gone).elim

/-! ## The commit of an admission -/

theorem Store.activeRuns_insertRows {store : Store} {service : ExecutionService} {request : RunRequest}
    {presented : Presented} {target : AdmissionTarget} {deadline now : Time} (workspaceId : Uuid) :
    (service.insertRows P request presented target deadline now store).activeRuns workspaceId =
      store.activeRuns workspaceId +
        if request.context.workspaceId = workspaceId then 1 else 0 := by
  change ((store.runs ++ [service.admittedRun request presented target deadline now]).filter
    _).length = _
  rw [List.filter_append, List.length_append]
  by_cases same : request.context.workspaceId = workspaceId
  · simp [same, activeRuns, ExecutionService.admittedRun, RunStatus.terminal]
  · simp [same, activeRuns, ExecutionService.admittedRun]

/-- The run that was counted for is committed. -/
theorem Traffic.Invariant.commit (inv : T.Invariant M) {checked : Checked}
    (perm : T.flights.Perm (f :: others)) (hf : f.stage = .inserted checked) :
    Traffic.Invariant M ⟨{ T.world with store := f.sees P T.world.store }, others⟩ := by
  have before := inv.perm perm
  have fits := before.fits f List.mem_cons_self
  obtain ⟨first, rest⟩ := List.pairwise_cons.mp before.apart
  have holds : f.stage.holds = true := by rw [hf]; rfl
  have room := fits.room (by rw [hf]; rfl)
  obtain ⟨created, bounded⟩ := fits.decided checked (by rw [hf]; rfl)
  have hs : f.sees P T.world.store = f.service.insertRows P f.request checked.presented checked.target
      checked.deadline checked.now
      { T.world.store with system := T.world.store.system.or f.system } := by
    unfold Flight.sees
    rw [hf]
  have self : (f.sees P T.world.store).lineage f.request.runId = f.service.admittedRows P f.request
      checked.presented checked.target checked.deadline checked.now := by
    rw [hs]
    exact Store.lineage_addAdmission_self fits.fresh rfl rfl rfl rfl rfl
  have other q (hq : q ≠ f.request.runId) :
      (f.sees P T.world.store).lineage q = T.world.store.lineage q := by
    rw [hs]
    exact Store.lineage_addAdmission_other hq rfl rfl rfl rfl rfl
  have active workspaceId : (f.sees P T.world.store).activeRuns workspaceId =
      T.world.store.activeRuns workspaceId + if f.workspaceId = workspaceId then 1 else 0 := by
    rw [hs, Store.activeRuns_insertRows]
    rfl
  refine { sound := ?_, drawn := ?_, fits := ?_, apart := rest, capped := ?_ }
  · obtain ⟨bound, sound⟩ := inv.sound
    -- Limits wide enough for the rows that were there and for the new ones.
    let wider : ExecutionLimits :=
      { bound with
        maxRunSeconds := max bound.maxRunSeconds f.service.limits.maxRunSeconds
        runSeconds_pos := bound.runSeconds_pos.trans_le (Int.le_max_left ..) }
    have old : T.world.store.Sound wider T.world.clock := sound.widen (Int.le_max_left ..)
    refine ⟨wider, fun r => ?_⟩
    by_cases hr : r = f.request.runId
    · subst hr
      rw [self]
      exact .inr ⟨_, _, (valid_admittedRows checked.target bounded).widen (Int.le_max_right ..),
        created⟩
    · rw [other r hr]
      exact old r
  · intro r some
    by_cases hr : r = f.request.runId
    · exact hr ▸ fits.drawn
    · rw [other r hr] at some
      exact inv.drawn r some
  · intro g mem
    have apart := first g mem
    have old := before.fits g (List.mem_cons_of_mem f mem)
    refine { old with fresh := ?_, room := fun counted => ?_ }
    · rw [other _ apart.1.symm]
      exact old.fresh
    · have elsewhere := apart.2 holds (Stage.holds_of_hasCounted counted)
      rw [active, if_neg elsewhere]
      exact old.room counted
  · intro workspaceId
    rw [active]
    split_ifs with same
    · exact same ▸ room
    · exact inv.capped workspaceId

theorem Traffic.Step.invariant {m : Move} (step : T.Step P M m T') (inv : T.Invariant M) :
    T'.Invariant M := by
  cases step with
  | operate step other => exact inv.narrow (World.narrows_of_operation step other inv.sound)
  | takeOff capacity fresh => exact inv.takeOff capacity fresh
  | advance later perm adv clock done => exact inv.advance perm adv clock done
  | commit perm hf => exact inv.commit perm hf
  | replay later perm hf _ runs clock _ => exact inv.replay perm hf runs clock
  | rollBack perm => exact inv.rollBack perm

theorem Traffic.Initial.invariant (h : T.Initial) : T.Invariant M where
  sound := ⟨.default, fun r => .inl (h.1 r)⟩
  drawn r some := (some (h.1 r)).elim
  fits f mem := by simp [h.2] at mem
  apart := by simp [h.2]
  capped workspaceId := by
    unfold Store.activeRuns
    rw [List.filter_eq_nil_iff.mpr]
    · exact Nat.zero_le M
    · intro run mem
      have mine := Store.mem_lineage_runs.mpr ⟨mem, rfl⟩
      rw [h.1] at mine
      cases mine

/-- However the calls of `create_run` interleave, with each other and with everything else, no
workspace ever has more than `M` active runs committed. -/
theorem active_runs_capped (h : Reachable Traffic.Initial (Traffic.Step P M) T)
    (workspaceId : Uuid) :
    (T.world.store.runs.filter fun run => run.workspaceId == workspaceId &&
      decide (run.status ∈ [RunStatus.queued, .preparing, .sessionFenced, .dispatchFenced])).length
        ≤ M := by
  have inv : T.Invariant M := Reachable.invariant (fun _ initial => initial.invariant)
    (fun _ _ _ inv step => step.invariant inv) h
  have capped := inv.capped workspaceId
  have same : ∀ run : Run, decide (run.status ∈
      [RunStatus.queued, .preparing, .sessionFenced, .dispatchFenced]) = run.status.active := by
    intro run
    cases run.status <;> rfl
  simp only [same]
  exact capped

end Invariant

/-! ## Flights as they are flown -/

/-- The result of a program that has not raised. -/
def returned {α : Type} : EStateM.Result Failure Session α → Option (α × Session)
  | .ok a t => some (a, t)
  | .error _ _ => none

theorem of_returned {α : Type} {result : EStateM.Result Failure Session α} {a : α} {t : Session}
    (h : returned result = some (a, t)) : result = .ok a t := by
  cases result with
  | ok => cases h; rfl
  | error => cases h

/-- The next stage of a flight when no time passes. -/
def Flight.next (P : Platform) (w : World) (f : Flight) : Option (Flight × Session) :=
  let session := Session.begin (f.sees P w.store) w.clock [] [] []
  match f.stage with
  | .began => (returned (f.service.presentRun P f.request session)).map fun (presented, t) =>
      ({ f with stage := .presented presented, system := t.rows.system }, t)
  | .presented presented =>
    (returned (f.service.findIdempotencyRecord P f.request.context f.request.idempotencyKey
      session)).map fun (record, t) => match record with
        | some record => ({ f with stage := .replaying presented record }, t)
        | none => ({ f with stage := .waiting presented }, t)
  | .waiting presented =>
    (returned (requireCurrentRole f.request.context [.admin, .operator] true session)).map
      fun (_, t) => ({ f with stage := .locked presented }, t)
  | .locked presented =>
    (returned (f.service.recheck P f.request session)).map fun ((now, record), t) =>
      match record with
      | some record => ({ f with stage := .replaying presented record }, t)
      | none => ({ f with stage := .unrecorded presented now }, t)
  | .unrecorded presented now =>
    (returned (f.service.checkAdmission P f.request presented now session)).map fun (c, t) =>
      ({ f with stage := .checked c }, t)
  | .checked c => (returned (f.service.requireCapacity f.request session)).map fun (_, t) =>
      ({ f with stage := .counted c }, t)
  | .counted c => (returned (f.service.insertChecked P f.request c session)).map fun (_, t) =>
      ({ f with stage := .inserted c }, t)
  | .inserted _ | .replaying .. => none

theorem Flight.next_advances {P : Platform} {w : World} {f f' : Flight} {others : List Flight}
    {t : Session} (free : ∀ g ∈ others, ¬ g.Locks f.workspaceId)
    (h : f.next P w = some (f', t)) : f.Advances P w others f' t := by
  unfold next at h
  cases hf : f.stage with
  | inserted | replaying => simp [hf] at h
  | began =>
    simp only [hf, Option.map_eq_some_iff, Prod.exists] at h
    obtain ⟨presented, u, ran, ⟨⟩⟩ := h
    exact .present hf ⟨_, _, of_returned ran⟩
  | presented presented =>
    simp only [hf, Option.map_eq_some_iff, Prod.exists] at h
    obtain ⟨record, u, ran, heq⟩ := h
    cases record <;> cases heq
    · exact .miss hf ⟨_, _, of_returned ran⟩
    · exact .found hf ⟨_, _, of_returned ran⟩
  | waiting presented =>
    simp only [hf, Option.map_eq_some_iff, Prod.exists] at h
    obtain ⟨_, u, ran, ⟨⟩⟩ := h
    exact .lock hf free ⟨_, _, of_returned ran⟩
  | locked presented =>
    simp only [hf, Option.map_eq_some_iff, Prod.exists] at h
    obtain ⟨now, record, u, ran, heq⟩ := h
    cases record <;> cases heq
    · exact .win hf ⟨_, _, of_returned ran⟩
    · exact .lose hf ⟨_, _, of_returned ran⟩
  | unrecorded presented now =>
    simp only [hf, Option.map_eq_some_iff, Prod.exists] at h
    obtain ⟨checked, u, ran, ⟨⟩⟩ := h
    exact .check hf ⟨_, _, of_returned ran⟩
  | checked checked =>
    simp only [hf, Option.map_eq_some_iff, Prod.exists] at h
    obtain ⟨_, u, ran, ⟨⟩⟩ := h
    exact .count hf ⟨_, _, of_returned ran⟩
  | counted checked =>
    simp only [hf, Option.map_eq_some_iff, Prod.exists] at h
    obtain ⟨run, u, ran, ⟨⟩⟩ := h
    exact .insert hf ⟨_, _, of_returned ran⟩

namespace Traffic

/-- The first flight can take its next stage: nothing raises, and nobody has its lock. -/
def ready (P : Platform) (T : Traffic) : Bool :=
  match T.flights with
  | [] => false
  | f :: others => (f.next P T.world).isSome &&
      others.all fun g => !(g.stage.holds && g.workspaceId == f.workspaceId)

/-- The first flight takes its next stage. -/
def turn (P : Platform) (T : Traffic) : Traffic :=
  match T.flights with
  | [] => T
  | f :: others =>
    match f.next P T.world with
    | none => T
    | some (f', t) => ⟨{ T.world with clock := max T.world.clock t.clock }, f' :: others⟩

/-- The first flight commits. -/
def land (P : Platform) (T : Traffic) : Traffic :=
  match T.flights with
  | [] => T
  | f :: others => ⟨{ T.world with store := f.sees P T.world.store }, others⟩

def inserted (T : Traffic) : Bool :=
  match T.flights with
  | ⟨_, _, .inserted _, _⟩ :: _ => true
  | _ => false

/-- The next flight in line comes first. -/
def rotate (T : Traffic) : Traffic := { T with flights := T.flights.drop 1 ++ T.flights.take 1 }

variable {P : Platform} {M : Nat} {T T₀ : Traffic}

theorem rotate_perm (T : Traffic) : T.flights.Perm T.rotate.flights := by
  have swap : (T.flights.take 1 ++ T.flights.drop 1).Perm T.rotate.flights := List.perm_append_comm
  rwa [List.take_append_drop] at swap

theorem step_turn (perm : T₀.flights.Perm T.flights) (world : T₀.world = T.world)
    (ready : T.ready P = true) : T₀.Step P M .advance (T.turn P) := by
  obtain ⟨w, flights⟩ := T
  obtain ⟨w₀, flights₀⟩ := T₀
  obtain rfl : w₀ = w := world
  cases flights with
  | nil => cases ready
  | cons f others =>
    simp only [Traffic.ready, Bool.and_eq_true, List.all_eq_true] at ready
    obtain ⟨⟨f', t⟩, hn⟩ := Option.isSome_iff_exists.mp ready.1
    have free : ∀ g ∈ others, ¬ g.Locks f.workspaceId := by
      rintro g mem ⟨holds, same⟩
      have := ready.2 g mem
      simp [holds, same] at this
    simp only [turn, hn]
    exact .advance _ perm (Flight.next_advances free hn) (Int.le_max_left ..) (Int.le_max_right ..)

theorem step_land (inserted : T.inserted = true) : T.Step P M .commit (T.land P) := by
  obtain ⟨w, flights⟩ := T
  unfold Traffic.inserted at inserted
  split at inserted
  · rename_i service request checked system others heq
    obtain rfl : flights = _ := heq
    exact .commit (f := ⟨service, request, .inserted checked, system⟩) (List.Perm.refl _) rfl
  · cases inserted

end Traffic

namespace Sample

/-- A service that admits one active run per workspace. -/
def single : ExecutionService :=
  { service with
    limits := { ExecutionLimits.default with
      maxActiveRunsPerWorkspace := 1
      activeRuns := by decide }
    confirmation_valid := by decide
    idempotency_valid := by decide }

/-- A request under another key, confirmed by another token. -/
def rival : RunRequest :=
  { request with
    confirmationToken := some (token "m"), idempotencyKey := "j"
    runId := 200, traceId := 201, jobId := 202 }

/-- Two calls have begun. -/
def taxiing : Traffic :=
  ⟨{ installed with drawn := [200, 202, 100, 102] },
    [⟨single, rival, .began, none⟩, ⟨single, request, .began, none⟩]⟩

/-- Both have found no record and wait for the workspace. -/
def queueing : Traffic :=
  ((((taxiing.turn platform).turn platform).rotate).turn platform).turn platform

/-- One of them has inserted its run. -/
def insertedFirst : Traffic :=
  (((((queueing.turn platform).turn platform).turn platform).turn platform).turn platform)

/-- Its run is committed, and the other one has the lock and is about to count. -/
def counting : Traffic :=
  (((insertedFirst.land platform).turn platform).turn platform).turn platform

theorem taxiing_reached : Path (Traffic.Step platform 1) ⟨installed, []⟩ [.takeOff, .takeOff]
    taxiing := by
  have first : Path (Traffic.Step platform 1) ⟨installed, []⟩ [.takeOff]
      ⟨{ installed with drawn := [100, 102] }, [⟨single, request, .began, none⟩]⟩ :=
    .single (@Traffic.Step.takeOff platform 1 ⟨installed, []⟩ single request rfl
      (fun _ _ => List.not_mem_nil))
  refine first.snoc (@Traffic.Step.takeOff platform 1 _ single rival rfl ?_)
  simp [Call.draws, rival]

theorem step_ready {T : Traffic} (ready : T.ready platform = true) :
    T.Step platform 1 .advance (T.turn platform) := Traffic.step_turn (.refl _) rfl ready

theorem queueing_reached : Path (Traffic.Step platform 1) ⟨installed, []⟩
    ([.takeOff, .takeOff] ++ [.advance] ++ [.advance] ++ [.advance] ++ [.advance]) queueing := by
  have p₁ := taxiing_reached.snoc (step_ready (by decide +kernel))
  have p₂ := p₁.snoc (step_ready (by decide +kernel))
  have p₃ := p₂.snoc (Traffic.step_turn (T := ((taxiing.turn platform).turn platform).rotate)
    (Traffic.rotate_perm _) rfl (by decide +kernel))
  exact p₃.snoc (step_ready (by decide +kernel))

theorem counting_reached : Reachable Traffic.Initial (Traffic.Step platform 1) counting := by
  have p₁ := queueing_reached.snoc (step_ready (by decide +kernel))
  have p₂ := p₁.snoc (step_ready (by decide +kernel))
  have p₃ := p₂.snoc (step_ready (by decide +kernel))
  have p₄ := p₃.snoc (step_ready (by decide +kernel))
  have p₅ : Path (Traffic.Step platform 1) _ _ insertedFirst :=
    p₄.snoc (step_ready (by decide +kernel))
  have p₆ := p₅.snoc (Traffic.step_land (P := platform) (by decide +kernel))
  have p₇ := p₆.snoc (step_ready (by decide +kernel))
  have p₈ := p₇.snoc (step_ready (by decide +kernel))
  exact ⟨_, _, ⟨installed_initial, rfl⟩, p₈.snoc (step_ready (by decide +kernel))⟩

end Sample

/-- Two calls race for the last place: one is committed, and the other one does not pass its
count. -/
theorem active_runs_capped_sample :
    Sample.counting.world.store.activeRuns 1 = 1 ∧
      (Sample.counting.flights.map fun f => f.stage.holds) = [true] ∧
      Sample.counting.ready Sample.platform = false ∧
      ∀ workspaceId, (Sample.counting.world.store.runs.filter fun run =>
        run.workspaceId == workspaceId && decide (run.status ∈
          [RunStatus.queued, .preparing, .sessionFenced, .dispatchFenced])).length ≤ 1 :=
  ⟨by decide +kernel, by decide +kernel, by decide +kernel,
    active_runs_capped Sample.counting_reached⟩

end Modall
