import Mathlib
import Modall.Execution.Lineage

/-!
# The life of one run

The ledger's purpose, stated for the rows of a single run. A run is queued, attempted under a
lease, fenced for its session and then for its one dispatch, and ends once. `Lineage.Step`
lists what may happen to the rows of a run, `Lineage.Valid` is what they satisfy in between,
and `Lineage.Continues` is what a later state owes to an earlier one. Nothing here mentions
sessions, batches or callers; the operations of the ledger are shown to take these steps.
-/
namespace Modall
open Library

/-- The status of the job of a run with this status. -/
def RunStatus.jobStatus : RunStatus → JobStatus
  | .queued => .queued
  | .preparing | .sessionFenced | .dispatchFenced => .leased
  | .succeeded => .succeeded
  | .failed => .failed
  | .cancelled => .cancelled
  | .timedOut => .timedOut
  | .indeterminate => .indeterminate

/-- The failures that a worker reports about a call it has sent. -/
def RunFailureCode.afterDispatch : RunFailureCode → Bool
  | .toolCallFailed | .invalidToolResult | .unsupportedToolResult | .sensitiveToolResult => true
  | _ => false

/-- The failures that end a run whose call was never sent. -/
def RunFailureCode.beforeDispatch : RunFailureCode → Bool
  | .preparationFailed | .sessionInitializationFailed => true
  | _ => false

/-- The event reports neither an attempt nor a dispatch. -/
def RunEventType.neutral : RunEventType → Bool
  | .attemptStarted | .dispatchFenced => false
  | _ => true

/-- What the status and the code of a run say about whether its call may have been sent. -/
def RunStatus.dispatched (status : RunStatus) (code : Option RunFailureCode) : Bool :=
  match status with
  | .dispatchFenced | .succeeded | .indeterminate => true
  | .failed => code.any RunFailureCode.afterDispatch
  | _ => false

theorem RunStatus.ne_succeeded_of_live {status : RunStatus} (h : status.terminal = false) :
    status ≠ .succeeded := by
  rintro rfl
  cases h

theorem RunStatus.dispatched_of_live {status : RunStatus} (h : status.terminal = false)
    (code : Option RunFailureCode) :
    status.dispatched code = decide (status = .dispatchFenced) := by
  cases status <;> first | rfl | cases h

/-- The columns that are fixed when the run is admitted. -/
def Run.pinned (run : Run) : Run :=
  { run with status := .queued, arguments := none, argumentDigest := none,
             cancellationRequested := false, safeErrorCode := none, updatedAt := 0,
             terminalAt := none }

/-- The columns that are fixed when the job is inserted. -/
def Job.pinned (job : Job) : Job :=
  { job with status := .queued, leaseOwner := none, leaseEpoch := 0, leaseExpiresAt := none,
             completedAt := none }

section Pinned
variable {run run' : Run} (h : run'.pinned = run.pinned)
include h

theorem Run.id_of_pinned : run'.id = run.id := (congrArg Run.id h :)
theorem Run.workspaceId_of_pinned : run'.workspaceId = run.workspaceId :=
  (congrArg Run.workspaceId h :)
theorem Run.actorUserId_of_pinned : run'.actorUserId = run.actorUserId :=
  (congrArg Run.actorUserId h :)
theorem Run.deadline_of_pinned : run'.deadline = run.deadline := (congrArg Run.deadline h :)
theorem Run.createdAt_of_pinned : run'.createdAt = run.createdAt := (congrArg Run.createdAt h :)

end Pinned

theorem Job.id_of_pinned {job job' : Job} (h : job'.pinned = job.pinned) : job'.id = job.id :=
  (congrArg Job.id h :)
theorem Job.executionEpoch_of_pinned {job job' : Job} (h : job'.pinned = job.pinned) :
    job'.executionEpoch = job.executionEpoch := (congrArg Job.executionEpoch h :)

/-- The ends a run in status `source` may come to. -/
def MayEnd (source status : RunStatus) (code : Option RunFailureCode) : Prop :=
  source.terminal = false ∧
  match status with
  | .succeeded | .indeterminate => source = .dispatchFenced
  | .cancelled | .timedOut => source ≠ .dispatchFenced
  | .failed => if source = .dispatchFenced then code.any RunFailureCode.afterDispatch = true
      else code.any RunFailureCode.beforeDispatch = true
  | _ => False

namespace MayEnd
variable {source status : RunStatus} {code : Option RunFailureCode}

theorem terminal (h : MayEnd source status code) : status.terminal = true := by
  cases status <;> first | rfl | exact h.2.elim

/-- However a run ends, the end reports a dispatch exactly when there was one. -/
theorem dispatched (h : MayEnd source status code) :
    status.dispatched code = decide (source = .dispatchFenced) := by
  obtain ⟨-, h⟩ := h
  cases status with
  | queued | preparing | sessionFenced | dispatchFenced => exact h.elim
  | succeeded | indeterminate => exact (decide_eq_true h).symm
  | cancelled | timedOut => exact (decide_eq_false h).symm
  | failed =>
    by_cases hs : source = .dispatchFenced
    · simpa [hs, RunStatus.dispatched] using h
    · simp only [hs, if_false] at h
      cases code with
      | none => cases h
      | some code => cases code <;> simp_all [RunStatus.dispatched, RunFailureCode.beforeDispatch,
          RunFailureCode.afterDispatch]

theorem failed (h : MayEnd source .failed code) :
    code.any (fun code => code.afterDispatch || code.beforeDispatch) = true := by
  obtain ⟨-, h⟩ := h
  cases code with
  | none => by_cases hs : source = .dispatchFenced <;> simp [hs] at h
  | some code => by_cases hs : source = .dispatchFenced <;> simp_all

end MayEnd

namespace Lineage

/-! ## Steps -/

/-- Append the next event of the run. -/
def note (l : Lineage) (run : Run) (eventType : RunEventType) (status : RunStatus)
    (code : Option RunFailureCode) (now : Time) : Lineage :=
  l.addEvent { workspaceId := run.workspaceId, runId := run.id, sequence := l.events.length + 1,
               eventType, status, safeErrorCode := code, occurredAt := now }

/-- Change the attempt that is under way. -/
def settle (l : Lineage) (f : RunAttempt → RunAttempt) : Lineage :=
  { l with attempts := updateWhere (fun a => a.status.attempting) f l.attempts }

def finish (l : Lineage) (run : Run) (status : RunStatus) (code : Option RunFailureCode)
    (eventType : RunEventType) (now : Time) : Lineage :=
  (((l.setRun fun r => { r with status := status, safeErrorCode := code, updatedAt := now,
                                terminalAt := some now }).setJob fun j =>
    { j with status := status.jobStatus, leaseOwner := none, leaseExpiresAt := none,
             completedAt := some now }).settle fun a =>
    { a with status := status, safeErrorCode := code, terminalAt := some now }).note run
      eventType status code now

theorem finish_runs (l : Lineage) (run : Run) (status : RunStatus)
    (code : Option RunFailureCode) (eventType : RunEventType) (now : Time) :
    (l.finish run status code eventType now).runs = l.runs.map fun r =>
      { r with status := status, safeErrorCode := code, updatedAt := now,
               terminalAt := some now } := rfl

/-- Close the attempt whose lease has expired. -/
def lose (l : Lineage) (run : Run) (now : Time) : Lineage :=
  (l.settle fun a => { a with status := .failed, safeErrorCode := some .workerLostBeforeDispatch,
                              terminalAt := some now }).note run .leaseLost run.status
    (some .workerLostBeforeDispatch) now

def grant (l : Lineage) (run : Run) (job : Job) (workerId : String) (expiresAt now : Time) :
    Lineage :=
  (((l.setJob fun j => { j with status := .leased, leaseOwner := some workerId,
                                leaseEpoch := j.leaseEpoch + 1,
                                leaseExpiresAt := some expiresAt }).addAttempt
    { workspaceId := run.workspaceId, runId := run.id, jobId := job.id,
      sequence := l.attempts.length + 1, leaseEpoch := job.leaseEpoch + 1, status := .preparing,
      startedAt := now, terminalAt := none, safeErrorCode := none }).setRun fun r =>
    { r with status := .preparing, updatedAt := now }).note run .attemptStarted .preparing none now

def fence (l : Lineage) (run : Run) (target : RunStatus) (eventType : RunEventType)
    (now : Time) : Lineage :=
  ((l.setRun fun r => { r with status := target, updatedAt := now }).settle fun a =>
    { a with status := target }).note run eventType target none now

/-- Erase the retained content of the run. -/
def scrub (l : Lineage) (now : Time) : Lineage :=
  l.setRun fun r => { r with arguments := none, argumentDigest := none, updatedAt := now }

/-- What may happen to the rows of a run. -/
inductive Step : Lineage → Lineage → Prop where
  /-- The run ends, by its worker or by any of the reconciling operations. -/
  | finish {l run status code} (eventType : RunEventType) (now : Time) :
      l.runs = [run] → MayEnd run.status status code → eventType.neutral = true →
      eventType ≠ .contentExpired → run.createdAt ≤ now →
      Step l (l.finish run status code eventType now)
  /-- The first attempt of a queued run starts. -/
  | start {l run job} (workerId : String) (expiresAt now : Time) :
      l.runs = [run] → l.jobs = [job] → run.status = .queued → expiresAt ≤ job.deadline →
      Step l (l.grant run job workerId expiresAt now)
  /-- An undispatched attempt whose lease has expired is replaced by the next one. -/
  | restart {l run job} (workerId : String) (expiresAt now : Time) :
      l.runs = [run] → l.jobs = [job] → run.status.attempting = true →
      run.status ≠ .dispatchFenced → expiresAt ≤ job.deadline →
      Step l ((l.lose run now).grant run job workerId expiresAt now)
  | fenceSession {l run} (now : Time) : l.runs = [run] → run.status = .preparing →
      Step l (l.fence run .sessionFenced .sessionFenced now)
  | fenceDispatch {l run} (now : Time) : l.runs = [run] → run.status = .sessionFenced →
      Step l (l.fence run .dispatchFenced .dispatchFenced now)
  | renew {l job} (expiresAt : Time) : l.jobs = [job] → job.status = .leased →
      expiresAt ≤ job.deadline →
      Step l (l.setJob fun j => { j with leaseExpiresAt := some expiresAt })
  | requestCancel {l} : l.runs ≠ [] →
      Step l (l.setRun fun r => { r with cancellationRequested := true })
  | touch {l} (now : Time) : l.runs ≠ [] →
      Step l (l.setRun fun r => { r with updatedAt := now })
  /-- The content of an active run expires, which ends the run. -/
  | expire {l run status code} (now : Time) : l.runs = [run] → run.arguments.isSome = true →
      MayEnd run.status status code → run.createdAt ≤ now →
      Step l ((l.finish run status code .contentExpired now).scrub now)
  /-- The content of a run that has ended expires. -/
  | forget {l run} (code : Option RunFailureCode) (now : Time) : l.runs = [run] →
      run.arguments.isSome = true → run.status.terminal = true →
      Step l ((l.note run .contentExpired run.status code now).scrub now)
  /-- An event that leaves the status as it is. -/
  | remark {l run} (eventType : RunEventType) (code : Option RunFailureCode) (now : Time) :
      l.runs = [run] → eventType.neutral = true → eventType ≠ .contentExpired →
      Step l (l.note run eventType run.status code now)
  /-- A run that has succeeded gets its result. -/
  | keepResult {l run} (result : RunResult) : l.runs = [run] → run.status = .succeeded →
      run.terminalAt = some result.capturedAt → l.results = [] → Step l (l.addResult result)
  | dropResults {l} : l.runs ≠ [] → Step l l.dropResults

/-! ## The invariant -/

/-- At most one attempt is under way, the last one, and it has the status of the run. -/
inductive Attempting : RunStatus → List RunAttempt → Prop where
  | idle {status : RunStatus} {attempts : List RunAttempt} : status.attempting = false →
      (∀ a ∈ attempts, a.status.attempting = false) → Attempting status attempts
  | underWay {closed : List RunAttempt} {a : RunAttempt} : a.status.attempting = true →
      (∀ b ∈ closed, b.status.attempting = false) → Attempting a.status (closed ++ [a])

/-- The event log of a run with this status: numbered without a gap, ending in the status, and
with at most one dispatch, after which no attempt starts. -/
structure Journal (status : RunStatus) (dispatched : Bool) (events : List RunEvent) : Prop where
  numbered : Numbered RunEvent.sequence events
  last : ∃ older event, events = older ++ [event] ∧ event.status = status
  dispatch : (∃ event ∈ events, event.eventType = .dispatchFenced) ↔ dispatched = true
  order : events.Pairwise fun a b => a.eventType = .dispatchFenced →
    b.eventType ≠ .dispatchFenced ∧ b.eventType ≠ .attemptStarted

/-- The rows of an existing run belong together. -/
structure Valid (limits : ExecutionLimits) (l : Lineage) (run : Run) (job : Job) : Prop where
  runs : l.runs = [run]
  jobs : l.jobs = [job]
  runId : job.runId = run.id
  workspaceId : job.workspaceId = run.workspaceId
  deadline : job.deadline = run.deadline
  created : run.createdAt < run.deadline
  bounded : run.deadline ≤ run.createdAt + seconds limits.maxRunSeconds
  status : job.status = run.status.jobStatus
  attempts : Attempting run.status l.attempts
  numbered : Numbered RunAttempt.sequence l.attempts
  epochs : ∀ a ∈ l.attempts, a.leaseEpoch = a.sequence
  epoch : job.leaseEpoch = l.attempts.length
  unstarted : run.status = .queued → l.attempts = []
  leased : run.status.attempting = true → ∃ owner expiresAt, job.leaseOwner = some owner ∧
    job.leaseExpiresAt = some expiresAt ∧ expiresAt ≤ job.deadline
  unleased : run.status.attempting = false → job.leaseOwner = none ∧ job.leaseExpiresAt = none
  journal : Journal run.status (run.status.dispatched run.safeErrorCode) l.events
  failed : run.status = .failed → run.safeErrorCode.any
    (fun code => code.afterDispatch || code.beforeDispatch) = true
  ended : run.status.terminal = run.terminalAt.isSome
  endedAfter : ∀ t, run.terminalAt = some t → run.createdAt ≤ t
  record : ∃ record, l.records = [record] ∧ record.workspaceId = run.workspaceId ∧
    record.actorUserId = run.actorUserId
  unanswered : run.status ≠ .succeeded → l.results = []

/-- What a later state of the rows owes to an earlier one. -/
structure Continues (l : Lineage) (run : Run) (job : Job) (l' : Lineage) (run' : Run)
    (job' : Job) : Prop where
  pinnedRun : run'.pinned = run.pinned
  pinnedJob : job'.pinned = job.pinned
  epoch : job.leaseEpoch ≤ job'.leaseEpoch
  lease : job'.leaseEpoch = job.leaseEpoch → job'.status = .leased → job.status = .leased
  events : l.events <+: l'.events
  nonces : l.nonces <+: l'.nonces
  records : l'.records = l.records
  terminal : run.status.terminal = true → run'.status = run.status ∧
    run'.safeErrorCode = run.safeErrorCode ∧ run'.terminalAt = run.terminalAt ∧
    job'.status = job.status ∧ l'.attempts = l.attempts

theorem Continues.refl (l : Lineage) (run : Run) (job : Job) : Continues l run job l run job where
  pinnedRun := rfl
  pinnedJob := rfl
  epoch := Nat.le_refl _
  lease _ h := h
  events := List.prefix_rfl
  nonces := List.prefix_rfl
  records := rfl
  terminal _ := ⟨rfl, rfl, rfl, rfl, rfl⟩

theorem Continues.trans {l l' l'' : Lineage} {run run' run'' : Run} {job job' job'' : Job}
    (h : Continues l run job l' run' job') (g : Continues l' run' job' l'' run'' job'') :
    Continues l run job l'' run'' job'' where
  pinnedRun := g.pinnedRun.trans h.pinnedRun
  pinnedJob := g.pinnedJob.trans h.pinnedJob
  epoch := h.epoch.trans g.epoch
  lease heq hl := by
    have h1 := h.epoch
    have h2 := g.epoch
    exact h.lease (by omega) (g.lease (by omega) hl)
  events := h.events.trans g.events
  nonces := h.nonces.trans g.nonces
  records := g.records.trans h.records
  terminal ht := by
    obtain ⟨hs, hc, hat, hj, ha⟩ := h.terminal ht
    obtain ⟨gs, gc, gat, gj, ga⟩ := g.terminal (hs ▸ ht)
    exact ⟨gs.trans hs, gc.trans hc, gat.trans hat, gj.trans hj, ga.trans ha⟩

theorem Continues.of_trans {limits : ExecutionLimits} {l m n : Lineage} {run run' : Run}
    {job job' : Job} (h : Continues l run job m run' job')
    (g : ∃ run'' job'', Valid limits n run'' job'' ∧ Continues m run' job' n run'' job'') :
    ∃ run'' job'', Valid limits n run'' job'' ∧ Continues l run job n run'' job'' := by
  obtain ⟨run'', job'', valid, continues⟩ := g
  exact ⟨run'', job'', valid, h.trans continues⟩

/-! ## Every step keeps the invariant -/

/-- Appending the next event. A dispatch is reported once, and an attempt only before it. -/
theorem Journal.append {status status' : RunStatus} {dispatched dispatched' : Bool}
    {events : List RunEvent} {event : RunEvent} (h : Journal status dispatched events)
    (number : event.sequence = events.length + 1) (hs : event.status = status')
    (once : event.eventType.neutral = false → dispatched = false)
    (hd : dispatched' = (dispatched || decide (event.eventType = .dispatchFenced))) :
    Journal status' dispatched' (events ++ [event]) where
  numbered := h.numbered.append number
  last := ⟨events, event, rfl, hs⟩
  dispatch := by
    have old := h.dispatch
    constructor
    · rintro ⟨e, he, ht⟩
      rcases List.mem_append.mp he with he | he
      · simp [hd, old.mp ⟨e, he, ht⟩]
      · rw [List.mem_singleton] at he
        simp [hd, ← he, ht]
    · intro hd'
      rw [hd, Bool.or_eq_true, decide_eq_true_eq] at hd'
      rcases hd' with hd' | hd'
      · obtain ⟨e, he, ht⟩ := old.mpr hd'
        exact ⟨e, List.mem_append_left _ he, ht⟩
      · exact ⟨event, by simp, hd'⟩
  order := by
    refine List.pairwise_append.mpr ⟨h.order, List.pairwise_singleton _ _, ?_⟩
    intro a ha b hb hat
    rw [List.mem_singleton] at hb
    subst hb
    -- a dispatch has been reported, so only a neutral event may follow
    have hn : b.eventType.neutral = true := by
      by_contra hn
      have := h.dispatch.mp ⟨a, ha, hat⟩
      rw [once (by simpa using hn)] at this
      cases this
    constructor <;> intro he <;> rw [he] at hn <;> cases hn

theorem closed_settle (attempts : List RunAttempt) {f : RunAttempt → RunAttempt}
    (hf : ∀ a, (f a).status.attempting = false) :
    ∀ a ∈ updateWhere (fun a => a.status.attempting) f attempts, a.status.attempting = false := by
  intro a ha
  obtain ⟨b, -, rfl⟩ := mem_updateWhere.mp ha
  by_cases hb : b.status.attempting = true <;> simp [hb, hf]

theorem Attempting.last {status : RunStatus} {attempts : List RunAttempt}
    (h : Attempting status attempts) (hs : status.attempting = true) :
    ∃ closed a, attempts = closed ++ [a] ∧ a.status = status ∧
      ∀ b ∈ closed, b.status.attempting = false := by
  cases h with
  | idle hi _ => simp [hi] at hs
  | underWay ha hc => exact ⟨_, _, rfl, rfl, hc⟩

theorem Attempting.closed {status : RunStatus} {attempts : List RunAttempt}
    (h : Attempting status attempts) (hs : status.attempting = false) :
    ∀ a ∈ attempts, a.status.attempting = false := by
  cases h with
  | idle _ hc => exact hc
  | underWay ha _ => simp [ha] at hs

/-- The attempt under way moves on with its run. -/
theorem Attempting.settle {status target : RunStatus} {attempts : List RunAttempt}
    {f : RunAttempt → RunAttempt} (h : Attempting status attempts)
    (hs : status.attempting = true) (ht : target.attempting = true)
    (hf : ∀ a, (f a).status = target) :
    Attempting target (updateWhere (fun a => a.status.attempting) f attempts) := by
  obtain ⟨closed, a, rfl, rfl, hc⟩ := h.last hs
  rw [updateWhere_append, updateWhere_eq_self hc, updateWhere_singleton, if_pos hs]
  have := Attempting.underWay (a := f a) (by rw [hf, ht]) hc
  rwa [hf] at this

variable {limits : ExecutionLimits} {l : Lineage} {run : Run} {job : Job}

theorem Valid.ne_empty (h : Valid limits l run job) : l ≠ .empty := by
  rintro rfl
  exact absurd h.runs (by simp [empty])

theorem Valid.eq_run (h : Valid limits l run job) {other : Run} (ho : l.runs = [other]) :
    other = run := by
  have := h.runs
  rw [ho] at this
  simpa using this

theorem Valid.eq_job (h : Valid limits l run job) {other : Job} (ho : l.jobs = [other]) :
    other = job := by
  have := h.jobs
  rw [ho] at this
  simpa using this

theorem Valid.finish (h : Valid limits l run job) {status : RunStatus}
    {code : Option RunFailureCode} {eventType : RunEventType} {now : Time}
    (ends : MayEnd run.status status code) (neutral : eventType.neutral = true)
    (later : run.createdAt ≤ now) :
    ∃ run' job', Valid limits (l.finish run status code eventType now) run' job' ∧
      Continues l run job (l.finish run status code eventType now) run' job' := by
  have live : run.status.terminal = false := ends.1
  have done := ends.terminal
  have idle : status.attempting = false := by
    revert done
    cases status <;> decide
  refine ⟨{ run with status := status, safeErrorCode := code, updatedAt := now,
                     terminalAt := some now },
    { job with status := status.jobStatus, leaseOwner := none, leaseExpiresAt := none,
               completedAt := some now }, ?_, ?_⟩
  · exact {
      runs := by simp [Lineage.finish, note, settle, setJob, setRun, addEvent, h.runs]
      jobs := by simp [Lineage.finish, note, settle, setJob, setRun, addEvent, h.jobs]
      runId := h.runId
      workspaceId := h.workspaceId
      deadline := h.deadline
      created := h.created
      bounded := h.bounded
      status := rfl
      attempts := .idle idle (closed_settle _ fun _ => idle)
      numbered := h.numbered.updateWhere fun _ _ => rfl
      epochs := by
        intro a ha
        obtain ⟨b, hb, rfl⟩ := mem_updateWhere.mp ha
        have := h.epochs b hb
        by_cases hs : b.status.attempting = true <;> simp [hs, this]
      epoch := by
        rw [h.epoch]
        simp [Lineage.finish, note, settle, setJob, setRun, addEvent, updateWhere]
      unstarted := by
        rintro rfl
        cases done
      leased := by
        intro hs
        rw [idle] at hs
        cases hs
      unleased := fun _ => ⟨rfl, rfl⟩
      journal := by
        refine h.journal.append rfl rfl (by simp [neutral]) ?_
        have : eventType ≠ .dispatchFenced := by
          rintro rfl
          cases neutral
        simp [this, ends.dispatched, RunStatus.dispatched_of_live live]
      failed := by
        rintro rfl
        exact ends.failed
      ended := done
      endedAfter := by
        rintro t ⟨⟩
        exact later
      record := h.record
      unanswered := fun _ => h.unanswered (RunStatus.ne_succeeded_of_live live) }
  · exact {
      pinnedRun := rfl
      pinnedJob := rfl
      epoch := Nat.le_refl _
      lease := by
        intro _ hj
        revert hj done
        cases status <;> simp [RunStatus.jobStatus, RunStatus.terminal]
      events := List.prefix_append _ _
      nonces := List.prefix_rfl
      records := rfl
      terminal := fun ht => by simp [live] at ht }

/-- A new attempt starts on rows `m` that differ from valid ones at most by a closed attempt
and the event that reports it. -/
theorem Valid.grant (h : Valid limits l run job) {m : Lineage} {workerId : String}
    {expiresAt now : Time} (live : run.status.terminal = false) (runs : m.runs = l.runs)
    (jobs : m.jobs = l.jobs) (nonces : m.nonces = l.nonces) (records : m.records = l.records)
    (results : m.results = l.results)
    (closed : ∀ a ∈ m.attempts, a.status.attempting = false)
    (numbered : Numbered RunAttempt.sequence m.attempts)
    (epochs : ∀ a ∈ m.attempts, a.leaseEpoch = a.sequence)
    (length : m.attempts.length = l.attempts.length) (journal : Journal run.status false m.events)
    (events : l.events <+: m.events) (bounded : expiresAt ≤ job.deadline) :
    ∃ run' job', Valid limits (m.grant run job workerId expiresAt now) run' job' ∧
      Continues l run job (m.grant run job workerId expiresAt now) run' job' := by
  refine ⟨{ run with status := .preparing, updatedAt := now },
    { job with status := .leased, leaseOwner := some workerId, leaseEpoch := job.leaseEpoch + 1,
               leaseExpiresAt := some expiresAt }, ?_, ?_⟩
  · exact {
      runs := by simp [Lineage.grant, note, setJob, setRun, addEvent, addAttempt, runs, h.runs]
      jobs := by simp [Lineage.grant, note, setJob, setRun, addEvent, addAttempt, jobs, h.jobs]
      runId := h.runId
      workspaceId := h.workspaceId
      deadline := h.deadline
      created := h.created
      bounded := h.bounded
      status := rfl
      attempts := .underWay (a := ⟨_, _, _, _, _, .preparing, _, _, _⟩) rfl closed
      numbered := numbered.append rfl
      epochs := by
        intro a ha
        rcases List.mem_append.mp ha with ha | ha
        · exact epochs a ha
        · rw [List.mem_singleton] at ha
          subst ha
          have := h.epoch
          simp only
          omega
      epoch := by
        have := h.epoch
        simp only [Lineage.grant, note, setJob, setRun, addEvent, addAttempt, List.length_append,
          List.length_singleton]
        omega
      unstarted := nofun
      leased := fun _ => ⟨workerId, expiresAt, rfl, rfl, bounded⟩
      unleased := nofun
      journal := journal.append rfl rfl (fun _ => rfl) rfl
      failed := nofun
      ended := live.symm.trans h.ended
      endedAfter := h.endedAfter
      record := by
        obtain ⟨record, hr, hw⟩ := h.record
        exact ⟨record, records.trans hr, hw⟩
      unanswered := fun _ => results.trans (h.unanswered (RunStatus.ne_succeeded_of_live live)) }
  · exact {
      pinnedRun := rfl
      pinnedJob := rfl
      epoch := Nat.le_succ _
      lease := by
        intro he
        simp at he
      events := events.trans (List.prefix_append _ _)
      nonces := nonces ▸ List.prefix_rfl
      records := records
      terminal := fun ht => by simp [live] at ht }

theorem Valid.start (h : Valid limits l run job) {workerId : String} {expiresAt now : Time}
    (queued : run.status = .queued) (bounded : expiresAt ≤ job.deadline) :
    ∃ run' job', Valid limits (l.grant run job workerId expiresAt now) run' job' ∧
      Continues l run job (l.grant run job workerId expiresAt now) run' job' := by
  have none := h.unstarted queued
  refine h.grant (by rw [queued]; rfl) rfl rfl rfl rfl rfl ?_ h.numbered h.epochs rfl ?_
    List.prefix_rfl bounded
  · simp [none]
  · have := h.journal
    rwa [queued] at this ⊢

theorem Valid.restart (h : Valid limits l run job) {workerId : String} {expiresAt now : Time}
    (attempting : run.status.attempting = true) (undispatched : run.status ≠ .dispatchFenced)
    (bounded : expiresAt ≤ job.deadline) :
    ∃ run' job', Valid limits ((l.lose run now).grant run job workerId expiresAt now) run' job' ∧
      Continues l run job ((l.lose run now).grant run job workerId expiresAt now) run' job' := by
  have live := RunStatus.not_terminal_of_attempting attempting
  have sent : run.status.dispatched run.safeErrorCode = false := by
    simp [RunStatus.dispatched_of_live live, undispatched]
  refine h.grant live rfl rfl rfl rfl rfl (closed_settle _ fun _ => rfl)
    (h.numbered.updateWhere fun _ _ => rfl) ?_ ?_ ?_ (List.prefix_append _ _) bounded
  · intro a ha
    obtain ⟨b, hb, rfl⟩ := mem_updateWhere.mp ha
    have := h.epochs b hb
    by_cases hs : b.status.attempting = true <;> simp [hs, this]
  · simp [lose, note, settle, addEvent, updateWhere]
  · exact h.journal.append rfl rfl (fun h => by cases h) (by simp [sent])

theorem Valid.fence (h : Valid limits l run job) {target : RunStatus} {eventType : RunEventType}
    {now : Time} (attempting : run.status.attempting = true)
    (undispatched : run.status ≠ .dispatchFenced) (ht : target.attempting = true)
    (he : eventType = .dispatchFenced ↔ target = .dispatchFenced) :
    ∃ run' job', Valid limits (l.fence run target eventType now) run' job' ∧
      Continues l run job (l.fence run target eventType now) run' job' := by
  have live := RunStatus.not_terminal_of_attempting attempting
  have live' := RunStatus.not_terminal_of_attempting ht
  have sent : run.status.dispatched run.safeErrorCode = false := by
    simp [RunStatus.dispatched_of_live live, undispatched]
  have leased : target.jobStatus = run.status.jobStatus := by
    revert attempting ht
    cases target <;> cases run.status <;> simp [RunStatus.attempting, RunStatus.jobStatus]
  refine ⟨{ run with status := target, updatedAt := now }, job, ?_, ?_⟩
  · exact {
      runs := by simp [Lineage.fence, note, settle, setRun, addEvent, h.runs]
      jobs := h.jobs
      runId := h.runId
      workspaceId := h.workspaceId
      deadline := h.deadline
      created := h.created
      bounded := h.bounded
      status := h.status.trans leased.symm
      attempts := h.attempts.settle attempting ht fun _ => rfl
      numbered := h.numbered.updateWhere fun _ _ => rfl
      epochs := by
        intro a ha
        obtain ⟨b, hb, rfl⟩ := mem_updateWhere.mp ha
        have := h.epochs b hb
        by_cases hs : b.status.attempting = true <;> simp [hs, this]
      epoch := by
        rw [h.epoch]
        simp [Lineage.fence, note, settle, setRun, addEvent, updateWhere]
      unstarted := by
        rintro rfl
        cases ht
      leased := fun _ => h.leased attempting
      unleased := by
        intro hs
        rw [ht] at hs
        cases hs
      journal := by
        refine h.journal.append rfl rfl (fun _ => sent) ?_
        simp [sent, RunStatus.dispatched_of_live live', he]
      failed := by
        rintro rfl
        cases ht
      ended := (live'.trans live.symm).trans h.ended
      endedAfter := h.endedAfter
      record := h.record
      unanswered := fun _ => h.unanswered (RunStatus.ne_succeeded_of_live live) }
  · exact {
      pinnedRun := rfl
      pinnedJob := rfl
      epoch := Nat.le_refl _
      lease := fun _ hj => hj
      events := List.prefix_append _ _
      nonces := List.prefix_rfl
      records := rfl
      terminal := fun hs => by simp [live] at hs }

theorem Valid.renew (h : Valid limits l run job) {expiresAt : Time}
    (leased : job.status = .leased) (bounded : expiresAt ≤ job.deadline) :
    ∃ run' job',
      Valid limits (l.setJob fun j => { j with leaseExpiresAt := some expiresAt }) run' job' ∧
      Continues l run job (l.setJob fun j => { j with leaseExpiresAt := some expiresAt })
        run' job' := by
  have attempting : run.status.attempting = true := by
    have := h.status
    rw [leased] at this
    revert this
    cases run.status <;> simp [RunStatus.jobStatus, RunStatus.attempting]
  refine ⟨run, { job with leaseExpiresAt := some expiresAt }, ?_, ?_⟩
  · exact { h with
      jobs := by simp [setJob, h.jobs]
      leased := by
        obtain ⟨owner, -, ho, -, -⟩ := h.leased attempting
        exact fun _ => ⟨owner, expiresAt, ho, rfl, bounded⟩
      unleased := by
        intro hs
        rw [attempting] at hs
        cases hs }
  · exact { Continues.refl l run job with }

/-- A change of the run row that leaves its pinned columns, its status and its end alone. -/
theorem Valid.amend (h : Valid limits l run job) (f : Run → Run)
    (pinned : (f run).pinned = run.pinned) (hs : (f run).status = run.status)
    (hc : (f run).safeErrorCode = run.safeErrorCode) (ht : (f run).terminalAt = run.terminalAt) :
    ∃ run' job', Valid limits (l.setRun f) run' job' ∧
      Continues l run job (l.setRun f) run' job' := by
  have deadline := Run.deadline_of_pinned pinned
  have createdAt := Run.createdAt_of_pinned pinned
  refine ⟨f run, job, ?_, ?_⟩
  · exact {
      runs := by simp [setRun, h.runs]
      jobs := h.jobs
      runId := h.runId.trans (Run.id_of_pinned pinned).symm
      workspaceId := h.workspaceId.trans (Run.workspaceId_of_pinned pinned).symm
      deadline := h.deadline.trans deadline.symm
      created := by
        rw [createdAt, deadline]
        exact h.created
      bounded := by
        rw [createdAt, deadline]
        exact h.bounded
      status := by rw [hs, h.status]
      attempts := hs ▸ h.attempts
      numbered := h.numbered
      epochs := h.epochs
      epoch := h.epoch
      unstarted := hs ▸ h.unstarted
      leased := hs ▸ h.leased
      unleased := hs ▸ h.unleased
      journal := by
        rw [hs, hc]
        exact h.journal
      failed := by
        rw [hs, hc]
        exact h.failed
      ended := by rw [hs, ht, h.ended]
      endedAfter := by
        rw [ht, createdAt]
        exact h.endedAfter
      record := by
        rw [Run.workspaceId_of_pinned pinned, Run.actorUserId_of_pinned pinned]
        exact h.record
      unanswered := hs ▸ h.unanswered }
  · exact { Continues.refl l run job with
      pinnedRun := pinned
      terminal := fun _ => ⟨hs, hc, ht, rfl, rfl⟩ }

theorem Valid.remark (h : Valid limits l run job) {eventType : RunEventType}
    {code : Option RunFailureCode} {now : Time} (neutral : eventType.neutral = true) :
    ∃ run' job', Valid limits (l.note run eventType run.status code now) run' job' ∧
      Continues l run job (l.note run eventType run.status code now) run' job' := by
  have : eventType ≠ .dispatchFenced := by
    rintro rfl
    cases neutral
  refine ⟨run, job, ?_, ?_⟩
  · exact { h with journal := h.journal.append rfl rfl (by simp [neutral]) (by simp [this]) }
  · exact { Continues.refl l run job with events := List.prefix_append _ _ }

/-- Every step from valid rows leads to valid rows that continue them. -/
theorem Step.sound {l' : Lineage} (step : Step l l') (h : Valid limits l run job) :
    ∃ run' job', Valid limits l' run' job' ∧ Continues l run job l' run' job' := by
  cases step with
  | finish eventType now hr ends neutral _ later =>
    obtain rfl := h.eq_run hr
    exact h.finish ends neutral later
  | start workerId expiresAt now hr hj queued bounded =>
    obtain rfl := h.eq_run hr
    obtain rfl := h.eq_job hj
    exact h.start queued bounded
  | restart workerId expiresAt now hr hj attempting undispatched bounded =>
    obtain rfl := h.eq_run hr
    obtain rfl := h.eq_job hj
    exact h.restart attempting undispatched bounded
  | fenceSession now hr hs =>
    obtain rfl := h.eq_run hr
    exact h.fence (by rw [hs]; rfl) (by simp [hs]) rfl (by simp)
  | fenceDispatch now hr hs =>
    obtain rfl := h.eq_run hr
    exact h.fence (by rw [hs]; rfl) (by simp [hs]) rfl (by simp)
  | renew expiresAt hj leased bounded =>
    obtain rfl := h.eq_job hj
    exact h.renew leased bounded
  | requestCancel | touch now => exact h.amend _ rfl rfl rfl rfl
  | expire now hr _ ends later =>
    obtain rfl := h.eq_run hr
    have neutral : RunEventType.contentExpired.neutral = true := rfl
    obtain ⟨run', job', valid, continues⟩ := h.finish ends neutral later
    exact continues.of_trans (valid.amend _ rfl rfl rfl rfl)
  | forget code now hr _ _ =>
    obtain rfl := h.eq_run hr
    have neutral : RunEventType.contentExpired.neutral = true := rfl
    obtain ⟨run', job', valid, continues⟩ := h.remark neutral
    exact continues.of_trans (valid.amend _ rfl rfl rfl rfl)
  | remark eventType code now hr neutral _ =>
    obtain rfl := h.eq_run hr
    exact h.remark neutral
  | keepResult result hr hs =>
    obtain rfl := h.eq_run hr
    exact ⟨_, job, { h with unanswered := fun live => (live hs).elim },
      { Continues.refl l _ job with }⟩
  | dropResults =>
    exact ⟨run, job, { h with unanswered := fun _ => rfl }, { Continues.refl l run job with }⟩

/-- Nothing happens to a run that does not exist. -/
theorem not_step_empty {l' : Lineage} : ¬ Step .empty l' := by
  rintro ⟨⟩ <;> simp_all [empty]

/-- Any number of steps. -/
abbrev Steps : Lineage → Lineage → Prop := Relation.ReflTransGen Step

/-- What one step keeps, any number of steps keeps. -/
theorem Steps.sound {l' : Lineage} (steps : Steps l l') (h : Valid limits l run job) :
    ∃ run' job', Valid limits l' run' job' ∧ Continues l run job l' run' job' := by
  induction steps with
  | refl => exact ⟨run, job, h, .refl l run job⟩
  | tail _ step ih =>
    obtain ⟨run', job', h', c⟩ := ih
    obtain ⟨run'', job'', h'', c'⟩ := step.sound h'
    exact ⟨run'', job'', h'', c.trans c'⟩

/-- No step touches the consumed nonces. -/
theorem Steps.nonces {l' : Lineage} (steps : Steps l l') : l'.nonces = l.nonces := by
  induction steps with
  | refl => rfl
  | tail _ step ih =>
    rw [← ih]
    cases step <;> rfl

theorem Steps.eq_empty {l' : Lineage} (steps : Steps .empty l') : l' = .empty := by
  induction steps with
  | refl => rfl
  | tail _ step ih =>
    subst ih
    exact (not_step_empty step).elim

/-! ## What is kept of the content -/

def isExpiry (event : RunEvent) : Bool := event.eventType == .contentExpired

/-- An active run has its arguments, the expiry of its content is reported when they are erased, and
a result belongs to a run that succeeded when it was captured. -/
structure Content (l : Lineage) (run : Run) : Prop where
  held : run.status.terminal = false →
    run.arguments.isSome = true ∧ run.argumentDigest.isSome = true
  expiries : l.events.countP isExpiry ≤ if run.arguments.isSome then 0 else 1
  results : l.results = [] ∨ ∃ result, l.results = [result] ∧ run.status = .succeeded ∧
    run.terminalAt = some result.capturedAt

namespace Content

theorem results_of_live (h : Content l run) (live : run.status.terminal = false) :
    l.results = [] := by
  rcases h.results with none | ⟨result, -, succeeded, -⟩
  · exact none
  · exact (RunStatus.ne_succeeded_of_live live succeeded).elim

/-- An event that reports no expiry leaves their number as it is. -/
theorem countP_append {events : List RunEvent} {event : RunEvent}
    (other : event.eventType ≠ .contentExpired) :
    (events ++ [event]).countP isExpiry = events.countP isExpiry := by
  simp [isExpiry, other]

/-- An expiry is the first one of a run that still has its arguments. -/
theorem countP_expiry (h : Content l run) (full : run.arguments.isSome = true) {event : RunEvent} :
    (l.events ++ [event]).countP isExpiry ≤ 1 := by
  have none := h.expiries
  rw [if_pos full] at none
  rw [List.countP_append, Nat.le_zero.mp none, Nat.zero_add]
  exact List.countP_le_length

end Content

/-- Every step keeps what is promised of the content. -/
theorem Step.content {l' : Lineage} {run' : Run} (step : Step l l') (h : Valid limits l run job)
    (c : Content l run) (after : l'.runs = [run']) : Content l' run' := by
  have only {f : Run → Run} (heq : l.runs.map f = [run']) : run' = f run := by
    rw [h.runs, List.map_singleton] at heq
    exact (List.singleton_inj.mp heq).symm
  cases step with
  | finish eventType now hr ends _ other _ =>
    obtain rfl := (h.eq_run hr).symm
    obtain rfl := only after
    exact ⟨fun live => by simp [ends.terminal] at live, (Content.countP_append other).trans_le
      c.expiries, .inl (c.results_of_live ends.1)⟩
  | start workerId expiresAt now hr hj queued _ =>
    obtain rfl := (h.eq_run hr).symm
    obtain rfl := only after
    have live : run.status.terminal = false := by rw [queued]; rfl
    exact ⟨fun _ => c.held live, (Content.countP_append (by simp)).trans_le c.expiries,
      .inl (c.results_of_live live)⟩
  | restart workerId expiresAt now hr hj attempting _ _ =>
    obtain rfl := (h.eq_run hr).symm
    obtain rfl := only after
    have live := RunStatus.not_terminal_of_attempting attempting
    refine ⟨fun _ => c.held live, ?_, .inl (c.results_of_live live)⟩
    exact ((Content.countP_append (by simp)).trans (Content.countP_append (by simp))).trans_le c.expiries
  | fenceSession now hr hs | fenceDispatch now hr hs =>
    obtain rfl := (h.eq_run hr).symm
    obtain rfl := only after
    have live : run.status.terminal = false := by rw [hs]; rfl
    exact ⟨fun _ => c.held live, (Content.countP_append (by simp)).trans_le c.expiries,
      .inl (c.results_of_live live)⟩
  | renew expiresAt hj leased bounded =>
    obtain rfl := (h.eq_run after).symm
    exact { c with }
  | requestCancel | touch now =>
    obtain rfl := only after
    exact { c with }
  | expire now hr full ends _ =>
    obtain rfl := (h.eq_run hr).symm
    rw [scrub, setRun, finish_runs, List.map_map] at after
    obtain rfl := only after
    exact ⟨fun live => by simp [ends.terminal] at live, c.countP_expiry full,
      .inl (c.results_of_live ends.1)⟩
  | forget code now hr full ended =>
    obtain rfl := (h.eq_run hr).symm
    obtain rfl := only after
    exact ⟨fun live => by simp [ended] at live, c.countP_expiry full, c.results⟩
  | remark eventType code now hr _ other =>
    obtain rfl := (h.eq_run hr).symm
    obtain rfl := (h.eq_run after).symm
    exact { c with expiries := (Content.countP_append other).trans_le c.expiries }
  | keepResult result hr succeeded captured none =>
    obtain rfl := (h.eq_run hr).symm
    obtain rfl := (h.eq_run after).symm
    exact { c with results := .inr ⟨result, by simp [addResult, none], succeeded, captured⟩ }
  | dropResults =>
    obtain rfl := (h.eq_run after).symm
    exact { c with results := .inl rfl }

theorem Steps.content {l' : Lineage} {run' : Run} (steps : Steps l l') (h : Valid limits l run job)
    (c : Content l run) (after : l'.runs = [run']) : Content l' run' := by
  induction steps generalizing run' with
  | refl =>
    obtain rfl := h.eq_run after
    exact c
  | tail first step ih =>
    obtain ⟨middle, job', valid, -⟩ := Steps.sound first h
    exact step.content valid (ih valid.runs) after

end Lineage

/-! ## Stores -/

/-- Every run of the store has valid rows, and none was created after `clock`. -/
def Store.Sound (limits : ExecutionLimits) (clock : Time) (s : Store) : Prop :=
  ∀ r, s.lineage r = .empty ∨
    ∃ run job, (s.lineage r).Valid limits run job ∧ run.createdAt ≤ clock

/-- The system row is kept, or has been inserted as `_execution_state` inserts it. -/
def Store.SystemKept (s t : Store) : Prop :=
  t.system = s.system ∨ s.system = none ∧ ∃ now, t.system = some ⟨1, false, now⟩

/-- The execution epoch, a missing row standing for the one that would be inserted. -/
def Store.executionEpoch (s : Store) : Nat :=
  (s.system.map SystemExecutionState.executionEpoch).getD 1

def Store.quarantined (s : Store) : Bool :=
  (s.system.map SystemExecutionState.dispatchQuarantined).getD false

/-- The store has changed by steps of its runs only. -/
structure Store.Evolves (s t : Store) : Prop where
  registry : t.registry = s.registry
  system : s.SystemKept t
  steps : ∀ r, Lineage.Steps (s.lineage r) (t.lineage r)

namespace Store
variable {limits : ExecutionLimits} {clock : Time} {s t u : Store}

theorem executionEpoch_of_system {state : SystemExecutionState} (h : s.system = some state) :
    s.executionEpoch = state.executionEpoch := by simp [executionEpoch, h]

theorem quarantined_of_system {state : SystemExecutionState} (h : s.system = some state) :
    s.quarantined = state.dispatchQuarantined := by simp [quarantined, h]

theorem SystemKept.trans (h : s.SystemKept t) (g : t.SystemKept u) : s.SystemKept u := by
  rcases h with h | ⟨hs, now, ht⟩
  · rcases g with g | ⟨gt, g⟩
    · exact .inl (g.trans h)
    · exact .inr ⟨h ▸ gt, g⟩
  · rcases g with g | ⟨gt, -⟩
    · exact .inr ⟨hs, now, g.trans ht⟩
    · rw [ht] at gt
      cases gt

theorem SystemKept.executionEpoch (h : s.SystemKept t) :
    t.executionEpoch = s.executionEpoch := by
  rcases h with h | ⟨hs, now, ht⟩
  · simp [Store.executionEpoch, h]
  · simp [Store.executionEpoch, hs, ht]

theorem SystemKept.quarantined (h : s.SystemKept t) : t.quarantined = s.quarantined := by
  rcases h with h | ⟨hs, now, ht⟩
  · simp [Store.quarantined, h]
  · simp [Store.quarantined, hs, ht]

theorem SystemKept.isSome (h : s.SystemKept t) (row : s.system.isSome = true) :
    t.system.isSome = true := by
  rcases h with h | ⟨-, now, ht⟩
  · rw [h, row]
  · simp [ht]

theorem Evolves.refl (s : Store) : s.Evolves s := ⟨rfl, .inl rfl, fun _ => .refl⟩

theorem Evolves.trans (h : s.Evolves t) (g : t.Evolves u) : s.Evolves u where
  registry := g.registry.trans h.registry
  system := h.system.trans g.system
  steps r := (h.steps r).trans (g.steps r)

/-- One run takes one step. -/
theorem Evolves.of_edits {r : Uuid} {g : Lineage → Lineage} (h : s.Edits r g t)
    (step : Lineage.Steps (s.lineage r) (g (s.lineage r))) : s.Evolves t where
  registry := h.registry
  system := .inl h.system
  steps q := by
    by_cases hq : q = r
    · subst hq
      rw [h.self]
      exact step
    · rw [h.other q hq]

theorem Sound.mono {later : Time} (h : s.Sound limits clock) (hl : clock ≤ later) :
    s.Sound limits later := by
  intro r
  rcases h r with he | ⟨run, job, hv, hc⟩
  · exact .inl he
  · exact .inr ⟨run, job, hv, hc.trans hl⟩

theorem Evolves.sound (h : s.Evolves t) (hs : s.Sound limits clock) : t.Sound limits clock := by
  intro r
  rcases hs r with he | ⟨run, job, hv, hc⟩
  · have := h.steps r
    rw [he] at this
    exact .inl this.eq_empty
  · obtain ⟨run', job', hv', hk⟩ := (h.steps r).sound hv
    exact .inr ⟨run', job', hv', by rw [Run.createdAt_of_pinned hk.pinnedRun]; exact hc⟩

end Store
end Modall
