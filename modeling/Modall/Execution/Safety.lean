import Modall.Execution.System

/-!
# What holds of every run of the ledger

The safety results for the system of `System`: a call is dispatched at most once, the end of a
run tells whether it was, the rows of a run agree with one another, and the event log replays
to the status of its run. Each is read off the invariant of the reached worlds, and off
`World.Follows` where it compares two worlds of one execution.
-/
namespace Modall
open Library

/-! ## Event logs -/

section Journals
variable {status : RunStatus} {dispatched : Bool} {events : List RunEvent} {a b : RunEvent}

/-- What follows a dispatch in the log is neither a dispatch nor an attempt. -/
theorem Lineage.Journal.after_dispatch {older newer : List RunEvent}
    (h : Lineage.Journal status dispatched (older ++ a :: newer))
    (ha : a.eventType = .dispatchFenced) (hb : b ∈ newer) :
    b.eventType ≠ .dispatchFenced ∧ b.eventType ≠ .attemptStarted := by
  have later := (List.pairwise_append.mp h.order).2.1
  exact (List.pairwise_cons.mp later).1 b hb ha

theorem Lineage.Journal.dispatch_unique (h : Lineage.Journal status dispatched events)
    (ha : a ∈ events) (hb : b ∈ events) (hat : a.eventType = .dispatchFenced)
    (hbt : b.eventType = .dispatchFenced) : b = a := by
  obtain ⟨older, newer, rfl⟩ := List.append_of_mem ha
  rcases List.mem_append.mp hb with hb | hb
  · have before := (List.pairwise_append.mp h.order).2.2 b hb a (by simp) hbt
    exact (before.1 hat).elim
  · rcases List.mem_cons.mp hb with rfl | hb
    · rfl
    · exact ((h.after_dispatch hat hb).1 hbt).elim

theorem Lineage.Journal.attempt_before (h : Lineage.Journal status dispatched events)
    (ha : a ∈ events) (hb : b ∈ events) (hat : a.eventType = .dispatchFenced)
    (hbt : b.eventType = .attemptStarted) : b.sequence < a.sequence := by
  obtain ⟨older, newer, rfl⟩ := List.append_of_mem ha
  have increasing := h.numbered.pairwise_lt
  rcases List.mem_append.mp hb with hb | hb
  · exact (List.pairwise_append.mp increasing).2.2 b hb a (by simp)
  · rcases List.mem_cons.mp hb with rfl | hb
    · simp [hat] at hbt
    · exact ((h.after_dispatch hat hb).2 hbt).elim

theorem Lineage.Journal.length_dispatches_le_one (h : Lineage.Journal status dispatched events) :
    (events.filter fun e => e.eventType == .dispatchFenced).length ≤ 1 := by
  have order := h.order.filter fun e => e.eventType == .dispatchFenced
  have all (e) (he : e ∈ events.filter fun e => e.eventType == .dispatchFenced) :
      e.eventType = .dispatchFenced := by simpa using (List.mem_filter.mp he).2
  generalize events.filter _ = dispatches at order all
  match dispatches with
  | [] => exact Nat.zero_le 1
  | [_] => exact Nat.le_refl 1
  | first :: second :: _ =>
    have := (List.pairwise_cons.mp order).1 second (by simp) (all first (by simp))
    exact (this.1 (all second (by simp))).elim

end Journals

section Reached
variable {P : Platform} {limits : ExecutionLimits} {w w' : World} {ls : List Label}

/-- An event belongs to a run of the store. -/
theorem World.Invariant.of_mem_events (inv : w.Invariant limits) {event : RunEvent}
    (h : event ∈ w.store.events) :
    ∃ run job, (w.store.lineage event.runId).Valid limits run job ∧
      event ∈ (w.store.lineage event.runId).events := by
  have mem := Store.mem_lineage_events.mpr ⟨h, rfl⟩
  rcases inv.sound event.runId with he | ⟨run, job, valid, -⟩
  · rw [he] at mem
    cases mem
  · exact ⟨run, job, valid, mem⟩

/-- A run of a later world whose identifier was in use before continues the earlier run. -/
theorem World.Follows.continues (h : w.Follows limits w') (inv : w.Invariant limits) {r : Uuid}
    {run run' : Run} {job job' : Job} (before : (w.store.lineage r).Valid limits run job)
    (after : (w'.store.lineage r).Valid limits run' job') :
    (w.store.lineage r).Continues run job (w'.store.lineage r) run' job' := by
  rcases h.run after with ⟨run₀, job₀, valid, continues⟩ | ⟨fresh, -⟩
  · obtain rfl := before.eq_run valid.runs
    obtain rfl := before.eq_job valid.jobs
    exact continues
  · exact (fresh (inv.drawn before).1).elim

/-! ## Dispatch -/

theorem RunStatus.of_dispatched {status : RunStatus} {code : Option RunFailureCode}
    (h : status.dispatched code = true) :
    status = .dispatchFenced ∨ status.terminal = true := by
  cases status <;> first | exact .inl rfl | exact .inr rfl | cases h

/-- A run is dispatched at most once in its whole history, no attempt starts after that, and
from then on the run is fenced or has ended. -/
theorem dispatched_at_most_once (reached : w.Reached P limits)
    (path : Path (Step P limits) w ls w') :
    (∀ r, (w'.store.events.filter fun e =>
        e.runId == r && e.eventType == .dispatchFenced).length ≤ 1) ∧
      ∀ dispatch ∈ w.store.events, dispatch.eventType = .dispatchFenced →
        (∀ event ∈ w'.store.events, event.runId = dispatch.runId →
          (event.eventType = .dispatchFenced → event = dispatch) ∧
          (event.eventType = .attemptStarted →
            event ∈ w.store.events ∧ event.sequence < dispatch.sequence)) ∧
        ∀ run ∈ w'.store.runs, run.id = dispatch.runId →
          run.status = .dispatchFenced ∨ run.status.terminal = true := by
  have inv := reached.invariant
  have inv' := (reached.extend path).invariant
  have follows := follows_of_path path inv
  refine ⟨fun r => ?_, fun dispatch mem fenced => ?_⟩
  · have part : (w'.store.events.filter fun e =>
        e.runId == r && e.eventType == .dispatchFenced) =
        (w'.store.lineage r).events.filter fun e => e.eventType == .dispatchFenced := by
      simp [Store.lineage, List.filter_filter, Bool.and_comm]
    rw [part]
    rcases inv'.sound r with he | ⟨run, job, valid, -⟩
    · simp [he, Lineage.empty]
    · exact valid.journal.length_dispatches_le_one
  · obtain ⟨run, job, valid, logged⟩ := inv.of_mem_events mem
    constructor
    · intro event mem' hrun
      obtain ⟨run', job', valid', logged'⟩ := inv'.of_mem_events mem'
      rw [hrun] at valid' logged'
      have continues := follows.continues inv valid valid'
      obtain ⟨newer, grown⟩ := continues.events
      have kept : dispatch ∈ (w'.store.lineage dispatch.runId).events := by simp [← grown, logged]
      refine ⟨fun again => valid'.journal.dispatch_unique kept logged' fenced again,
        fun attempt => ?_⟩
      have earlier : event ∈ (w.store.lineage dispatch.runId).events := by
        rw [← grown] at logged'
        refine (List.mem_append.mp logged').resolve_right fun late => ?_
        have order := valid'.journal.order
        rw [← grown] at order
        exact ((List.pairwise_append.mp order).2.2 dispatch logged event late fenced).2 attempt
      exact ⟨(Store.mem_lineage_events.mp earlier).1,
        valid.journal.attempt_before logged earlier fenced attempt⟩
    · intro run' mem' hrun
      obtain ⟨job', valid', -⟩ := inv'.sound.of_mem_runs mem'
      rw [hrun] at valid'
      have continues := follows.continues inv valid valid'
      obtain ⟨newer, grown⟩ := continues.events
      refine RunStatus.of_dispatched (valid'.journal.dispatch.mp ⟨dispatch, ?_, fenced⟩)
      simp [← grown, logged]

end Reached

/-! An installation with one workspace, one connection and one enabled capability, and the life
of one run in it from its admission to its success. -/

namespace Sample

/-- Strings in the order of their characters. -/
def collation : Collation where
  lt a b := decide (a < b)
  irrefl a := by simp
  trans a b c h g := by
    simp only [decide_eq_true_eq] at *
    exact String.lt_trans h g
  total a b h := by
    simp only [decide_eq_true_eq]
    by_contra none
    rw [not_or, String.not_lt, String.not_lt] at none
    exact h (String.le_antisymm none.2 none.1)

def platform : Platform where
  validateBoundedJson _ := true
  canonicalJson _ := some "x"
  loads _ := .obj []
  sha256 text := text
  hmacHex _ message := match message with
    | .key _ _ _ _ rawKey => rawKey
    | .request request => request.argumentDigest
  containsSensitiveJson _ := some false
  validateSchemaArguments _ _ := .valid
  tokenLength _ := 400
  collation := collation

def key : HmacKeyVersion := ⟨"v1", List.replicate 32 7⟩

def service : ExecutionService where
  limits := .default
  confirmationKeys := [key]
  idempotencyKeys := [key]
  systemAuthority := true
  confirmation_valid := by decide
  idempotency_valid := by decide

def context : WorkspaceContext := ⟨1, 2, .operator⟩

def registry : Registry where
  workspaces := [1]
  memberships := [⟨1, 2, .operator⟩]
  secretBindings := []
  connections := [⟨3, 1, "tools", .active, none, some 4, 1, 1, none, none, some 5, none, none⟩]
  connectionVersions := [⟨4, 1, 3, 1, "https://tools", none, "1"⟩]
  capabilities := [⟨6, 1, 3, "search", none, some 7, .enabled, 1⟩]
  capabilityVersions := [⟨7, 1, 6, 1, "search", none, .obj [], none, "d", true⟩]
  bindings := [⟨7, 6, 1, 3, 4, "search", qualifiedProtocolRevision⟩]
  statusEvents := []
  payloads := []
  snapshots := []
  snapshotCapabilities := [⟨1, 3, 4, 5, 7⟩]
  refreshJobs := []

def installed : World :=
  ⟨⟨registry, none, [], [], [], [], [], [], [], []⟩, 0, [], []⟩

/-- The token that a preflight at time zero would issue. -/
def token (nonce : String) : ConfirmationToken :=
  ⟨"v1", List.replicate 32 7,
    ⟨tokenIssuer, tokenAudience, 0, 120, nonce, 1, 2, 7, 6, 3, 4, "x", runRoute⟩⟩

def request : RunRequest :=
  ⟨context, 7, .obj [], some (token "n"), "i", none, none, 100, 101, 102⟩

def lease : JobLease := ⟨102, 100, 1, 101, "worker", 1, 1, 1000000⟩

def admitted : World := installed.after platform service [] (.createRun request)
def claimed : World := admitted.after platform service [] (.claimJob "worker" 1000000)
def fenced : World := claimed.after platform service [] (.fenceSession lease)
def dispatched : World := fenced.after platform service [] (.fenceDispatch lease)
def completed : World := dispatched.after platform service [] (.completeLease lease .succeeded none)

theorem installed_initial : installed.Initial := fun _ => rfl

/-- The run is admitted, claimed and fenced for its session and its dispatch. -/
theorem dispatches : Path (Step platform .default) installed
    [installed.label platform service [] (.createRun request),
      admitted.label platform service [] (.claimJob "worker" 1000000),
      claimed.label platform service [] (.fenceSession lease),
      fenced.label platform service [] (.fenceDispatch lease)] dispatched :=
  .snoc (.snoc (.snoc (.snoc (.nil _)
    (World.step_after platform service [] _ installed (fun _ _ => List.not_mem_nil) nofun))
    (World.step_after platform service [] (.claimJob "worker" 1000000) admitted nofun nofun))
    (World.step_after platform service [] (.fenceSession lease) claimed nofun nofun))
    (World.step_after platform service [] (.fenceDispatch lease) fenced nofun nofun)

theorem admitted_reached : admitted.Reached platform .default :=
  ⟨installed, _, installed_initial, .single
    (World.step_after platform service [] _ installed (fun _ _ => List.not_mem_nil) nofun)⟩

theorem completes : Step platform .default dispatched
    (dispatched.label platform service [] (.completeLease lease .succeeded none)) completed :=
  World.step_after platform service [] _ dispatched nofun nofun

theorem dispatched_reached : dispatched.Reached platform .default :=
  ⟨installed, _, installed_initial, dispatches⟩

theorem completed_reached : completed.Reached platform .default :=
  dispatched_reached.extend (.single completes)

end Sample

theorem dispatched_at_most_once_sample :
    (∃ event ∈ Sample.dispatched.store.events, event.eventType = .dispatchFenced) ∧
      (∀ r, (Sample.completed.store.events.filter fun e =>
        e.runId == r && e.eventType == .dispatchFenced).length ≤ 1) := by
  refine ⟨by decide, ?_⟩
  exact (dispatched_at_most_once Sample.dispatched_reached (.single Sample.completes)).1

section Reached
variable {P : Platform} {limits : ExecutionLimits} {w w' : World} {ls : List Label}

/-! ## What the end of a run says -/

/-- The run has a dispatch in its event log. -/
def Store.Dispatched (store : Store) (r : Uuid) : Prop :=
  ∃ event ∈ store.events, event.runId = r ∧ event.eventType = .dispatchFenced

theorem Lineage.Valid.dispatched_iff {store : Store} {r : Uuid} {run : Run} {job : Job}
    (h : (store.lineage r).Valid limits run job) :
    store.Dispatched r ↔ run.status.dispatched run.safeErrorCode = true := by
  rw [← h.journal.dispatch]
  constructor
  · rintro ⟨event, mem, hr, fenced⟩
    exact ⟨event, Store.mem_lineage_events.mpr ⟨mem, hr⟩, fenced⟩
  · rintro ⟨event, mem, fenced⟩
    obtain ⟨mem, hr⟩ := Store.mem_lineage_events.mp mem
    exact ⟨event, mem, hr, fenced⟩

/-- However a run ended, its status and its code say whether its call was dispatched. -/
theorem terminal_tells_dispatch (reached : w.Reached P limits) :
    ∀ run ∈ w.store.runs,
      (run.status = .succeeded ∨ run.status = .indeterminate → w.store.Dispatched run.id) ∧
      (run.status = .cancelled ∨ run.status = .timedOut → ¬ w.store.Dispatched run.id) ∧
      (run.status = .failed → ∃ code, run.safeErrorCode = some code ∧
        (w.store.Dispatched run.id ↔ code = .toolCallFailed ∨ code = .invalidToolResult ∨
          code = .unsupportedToolResult ∨ code = .sensitiveToolResult) ∧
        (¬ w.store.Dispatched run.id →
          code = .preparationFailed ∨ code = .sessionInitializationFailed)) := by
  intro run mem
  obtain ⟨job, valid, -⟩ := reached.invariant.sound.of_mem_runs mem
  have known := valid.failed
  rw [valid.dispatched_iff]
  refine ⟨?_, ?_, fun failed => ?_⟩
  · rintro (h | h) <;> rw [h] <;> rfl
  · rintro (h | h) <;> rw [h] <;> exact nofun
  · obtain ⟨code, hc, hcode⟩ := (Option.any_eq_true _ _).mp (known failed)
    refine ⟨code, hc, ?_⟩
    rw [failed, hc]
    cases code <;> simp_all [RunStatus.dispatched, RunFailureCode.afterDispatch,
      RunFailureCode.beforeDispatch]

theorem terminal_tells_dispatch_sample :
    (∃ run ∈ Sample.completed.store.runs, run.status = .succeeded) ∧
      ∀ run ∈ Sample.completed.store.runs,
        run.status = .succeeded ∨ run.status = .indeterminate →
          Sample.completed.store.Dispatched run.id := by
  refine ⟨by decide, fun run mem => ?_⟩
  exact (terminal_tells_dispatch Sample.completed_reached run mem).1

/-! ## The rows of a run -/

section Rows
variable {l : Lineage} {run : Run} {job : Job}

theorem Lineage.Valid.leased_iff (h : l.Valid limits run job) :
    job.status = .leased ↔ run.status.attempting = true := by
  rw [h.status]
  cases run.status <;> simp [RunStatus.jobStatus, RunStatus.attempting]

/-- The attempts that `_active_attempt` would select. -/
theorem Lineage.Valid.filter_attempting (h : l.Valid limits run job) :
    (job.status = .leased → ∃ a, (l.attempts.filter fun a => a.status.attempting) = [a] ∧
        a.status = run.status ∧ a.leaseEpoch = job.leaseEpoch) ∧
      (job.status ≠ .leased → (l.attempts.filter fun a => a.status.attempting) = []) := by
  rw [ne_eq, h.leased_iff, Bool.not_eq_true]
  constructor
  · intro attempting
    obtain ⟨closed, a, heq, hs, hc⟩ := h.attempts.last attempting
    refine ⟨a, ?_, hs, ?_⟩
    · have none : (closed.filter fun a => a.status.attempting) = [] :=
        List.filter_eq_nil_iff.mpr fun b hb => by simp [hc b hb]
      rw [heq, List.filter_append, none]
      simp [hs, attempting]
    · have number := h.numbered
      rw [heq] at number
      rw [h.epochs a (by simp [heq]), number.last, h.epoch, heq]
      simp
  · intro idle
    exact List.filter_eq_nil_iff.mpr fun a ha => by simp [h.attempts.closed idle a ha]

theorem Lineage.Valid.lease_iff (h : l.Valid limits run job) :
    (job.leaseOwner.isSome = true ↔ job.status = .leased) ∧
      (job.leaseExpiresAt.isSome = true ↔ job.status = .leased) ∧
      ∀ expiresAt, job.leaseExpiresAt = some expiresAt → expiresAt ≤ job.deadline := by
  rw [h.leased_iff]
  by_cases attempting : run.status.attempting = true
  · obtain ⟨owner, expiresAt, ho, he, hle⟩ := h.leased attempting
    simp [ho, he, attempting, hle]
  · obtain ⟨ho, he⟩ := h.unleased (by simpa using attempting)
    simp [ho, he, attempting]

end Rows

/-- What the job and the attempts of a run have to do with the run. -/
structure RunRows (limits : ExecutionLimits) (run : Run) (job : Job) (attempts : List RunAttempt) :
    Prop where
  queued : job.status = .queued ↔ run.status = .queued
  leased : job.status = .leased ↔
    run.status = .preparing ∨ run.status = .sessionFenced ∨ run.status = .dispatchFenced
  terminal : run.status.terminal = true → run.status.toJobStatus = some job.status
  active : job.status = .leased → ∃ a, (attempts.filter fun a => a.status.attempting) = [a] ∧
    a.status = run.status ∧ a.leaseEpoch = job.leaseEpoch
  inactive : job.status ≠ .leased → (attempts.filter fun a => a.status.attempting) = []
  sequences : attempts.map RunAttempt.sequence = List.range' 1 job.leaseEpoch
  epochs : ∀ a ∈ attempts, a.sequence = a.leaseEpoch
  owner : job.leaseOwner.isSome = true ↔ job.status = .leased
  expiry : job.leaseExpiresAt.isSome = true ↔ job.status = .leased
  expires : ∀ expiresAt, job.leaseExpiresAt = some expiresAt → expiresAt ≤ job.deadline
  deadline : job.deadline = run.deadline
  created : run.createdAt < run.deadline
  bounded : run.deadline ≤ run.createdAt + seconds limits.maxRunSeconds

theorem Lineage.Valid.runRows {l : Lineage} {run : Run} {job : Job}
    (h : l.Valid limits run job) : RunRows limits run job l.attempts where
  queued := by
    rw [h.status]
    cases run.status <;> simp [RunStatus.jobStatus]
  leased := by
    rw [h.leased_iff]
    cases run.status <;> simp [RunStatus.attempting]
  terminal ht := by
    rw [h.status]
    revert ht
    cases run.status <;> simp [RunStatus.terminal, RunStatus.jobStatus, RunStatus.toJobStatus]
  active := h.filter_attempting.1
  inactive := h.filter_attempting.2
  sequences := by
    rw [h.epoch]
    exact h.numbered
  epochs a ha := (h.epochs a ha).symm
  owner := h.lease_iff.1
  expiry := h.lease_iff.2.1
  expires := h.lease_iff.2.2
  deadline := h.deadline
  created := h.created
  bounded := h.bounded

/-- Every retained run has one job, whose columns and whose attempts agree with it, and a run
that has ended keeps its status and theirs. -/
theorem rows_agree (reached : w.Reached P limits) (path : Path (Step P limits) w ls w') :
    (∀ run ∈ w.store.runs, ∃ job, (w.store.jobs.filter fun j => j.runId == run.id) = [job] ∧
        RunRows limits run job (w.store.attempts.filter fun a => a.runId == run.id)) ∧
      ∀ run ∈ w.store.runs, run.status.terminal = true → ∀ run' ∈ w'.store.runs,
        run'.id = run.id → run'.status = run.status ∧
          (∀ job ∈ w.store.jobs, job.runId = run.id → ∀ job' ∈ w'.store.jobs,
            job'.runId = run.id → job'.status = job.status) ∧
          (w'.store.attempts.filter fun a => a.runId == run.id).map RunAttempt.status =
            (w.store.attempts.filter fun a => a.runId == run.id).map RunAttempt.status := by
  have inv := reached.invariant
  have inv' := (reached.extend path).invariant
  refine ⟨fun run mem => ?_, fun run mem ended run' mem' same => ?_⟩
  · obtain ⟨job, valid, -⟩ := inv.sound.of_mem_runs mem
    exact ⟨job, valid.jobs, valid.runRows⟩
  · obtain ⟨job, valid, -⟩ := inv.sound.of_mem_runs mem
    obtain ⟨job', valid', -⟩ := inv'.sound.of_mem_runs mem'
    rw [same] at valid'
    have continues := (follows_of_path path inv).continues inv valid valid'
    obtain ⟨hs, -, -, hj, ha⟩ := continues.terminal ended
    refine ⟨hs, fun j hjm hjr j' hjm' hjr' => ?_, congrArg _ ha⟩
    have mine := Store.mem_lineage_jobs.mpr ⟨hjm, hjr⟩
    have mine' := Store.mem_lineage_jobs.mpr ⟨hjm', hjr'⟩
    rw [valid.jobs, List.mem_singleton] at mine
    rw [valid'.jobs, List.mem_singleton] at mine'
    rw [mine, mine', hj]

theorem rows_agree_sample :
    Sample.dispatched.store.runs.map Run.status = [.dispatchFenced] ∧
      ∀ run ∈ Sample.dispatched.store.runs, ∃ job,
        (Sample.dispatched.store.jobs.filter fun j => j.runId == run.id) = [job] ∧
          RunRows .default run job
            (Sample.dispatched.store.attempts.filter fun a => a.runId == run.id) := by
  refine ⟨by decide, ?_⟩
  exact (rows_agree Sample.dispatched_reached (.single Sample.completes)).1

/-! ## Replay of the event log -/

theorem replayFrom_eq_ok {first : Nat} {current : RunStatus} {older : List RunEvent}
    {event : RunEvent}
    (h : (older ++ [event]).map RunEvent.sequence = List.range' first (older.length + 1)) :
    replayFrom first current (older ++ [event]) = .ok event.status := by
  induction older generalizing first current with
  | nil =>
    have number : event.sequence = first := by simpa using h
    simp [replayFrom, number]
  | cons e older ih =>
    rw [List.length_cons, List.range'_succ, List.cons_append, List.map_cons] at h
    injection h with number rest
    rw [List.cons_append, replayFrom, if_neg (not_not.mpr number)]
    exact ih rest

theorem Lineage.Journal.replay {status : RunStatus} {dispatched : Bool} {events given : List RunEvent}
    (h : Lineage.Journal status dispatched events) (perm : given.Perm events) :
    replayProjection given = .ok status := by
  obtain ⟨older, event, heq, hs⟩ := h.last
  have some : given ≠ [] := by
    rintro rfl
    have := perm.nil_eq
    simp [heq] at this
  rw [replayProjection, if_neg some, h.numbered.orderedBy_eq perm]
  have numbered := h.numbered
  rw [heq] at numbered ⊢
  rw [replayFrom_eq_ok (by simpa [Numbered] using numbered), hs]

/-- The events of a retained run are numbered from one without a gap, and replaying them, in
whatever order they are read, gives the status of the run. -/
theorem replay_gives_status (reached : w.Reached P limits) :
    ∀ run ∈ w.store.runs,
      (∃ n, 1 ≤ n ∧ (w.store.events.filter fun e => e.runId == run.id).map RunEvent.sequence =
        List.range' 1 n) ∧
      ∀ given, given.Perm (w.store.events.filter fun e => e.runId == run.id) →
        replayProjection given = .ok run.status := by
  intro run mem
  obtain ⟨job, valid, -⟩ := reached.invariant.sound.of_mem_runs mem
  refine ⟨⟨(w.store.lineage run.id).events.length, ?_, valid.journal.numbered⟩,
    fun given perm => valid.journal.replay perm⟩
  obtain ⟨older, event, heq, -⟩ := valid.journal.last
  rw [heq]
  simp

theorem replay_gives_status_sample :
    Sample.dispatched.store.events.length = 4 ∧ ∀ run ∈ Sample.dispatched.store.runs,
      ∀ given, given.Perm (Sample.dispatched.store.events.filter fun e => e.runId == run.id) →
        replayProjection given = .ok run.status := by
  refine ⟨by decide, fun run mem => ?_⟩
  exact (replay_gives_status Sample.dispatched_reached run mem).2

end Reached

end Modall
