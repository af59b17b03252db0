import Modall.Execution.Lifecycle
import Modall.Execution.Ledger

/-!
# What the ledger's statements do

The statements of `Ledger` in a transaction that nothing interferes with, started on rows that
belong together. Between two flushes the mapped objects run ahead of the rows a query sees, so
the lemmas ask only that the jobs, attempts and events of the run at hand are flushed.
-/
namespace Modall
open Library

namespace Session

/-- Everything assigned has been flushed, and no other transaction commits meanwhile. -/
structure Settled (s : Session) : Prop where
  flushed : s.objects = s.rows
  alone : s.commits = []

/-- What `_terminalize_run` and `_append_next_event` read of a run has been flushed. -/
structure Synced (s : Session) (r : Uuid) : Prop where
  jobs : (s.objects.lineage r).jobs = (s.rows.lineage r).jobs
  attempts : (s.objects.lineage r).attempts = (s.rows.lineage r).attempts
  events : (s.objects.lineage r).events = (s.rows.lineage r).events

theorem Synced.of_lineage_eq {s : Session} {r : Uuid}
    (h : s.objects.lineage r = s.rows.lineage r) : s.Synced r := ⟨by rw [h], by rw [h], by rw [h]⟩

theorem Settled.synced {s : Session} (h : s.Settled) (r : Uuid) : s.Synced r :=
  .of_lineage_eq (by rw [h.flushed])

/-- The session has read and locked, and at most inserted the system row. -/
structure Opened (s t : Session) : Prop where
  settled : t.Settled
  clock : s.clock ≤ t.clock
  registry : t.rows.registry = s.rows.registry
  system : s.rows.SystemKept t.rows
  lineage : ∀ r, t.rows.lineage r = s.rows.lineage r

theorem Opened.trans {s t u : Session} (h : s.Opened t) (g : t.Opened u) : s.Opened u where
  settled := g.settled
  clock := h.clock.trans g.clock
  registry := g.registry.trans h.registry
  system := h.system.trans g.system
  lineage r := (g.lineage r).trans (h.lineage r)

theorem Opened.evolves {s t : Session} (h : s.Opened t) : s.rows.Evolves t.rows :=
  ⟨h.registry, h.system, fun r => by rw [h.lineage r]⟩

theorem Settled.opened {s t : Session} (h : s.Settled) (hr : t.rows = s.rows)
    (ho : t.objects = s.objects) (hc : t.commits = s.commits) (hclock : s.clock ≤ t.clock) :
    s.Opened t where
  settled := ⟨by rw [ho, hr, h.flushed], hc.trans h.alone⟩
  clock := hclock
  registry := by rw [hr]
  system := .inl (by rw [hr])
  lineage r := by rw [hr]

end Session

/-- The session has come to rest after steps of its runs. -/
structure Session.Advanced (s t : Session) : Prop where
  settled : t.Settled
  clock : s.clock ≤ t.clock
  evolves : s.rows.Evolves t.rows

theorem Session.Advanced.trans {s t u : Session} (h : s.Advanced t) (g : t.Advanced u) :
    s.Advanced u := ⟨g.settled, h.clock.trans g.clock, h.evolves.trans g.evolves⟩

theorem Session.Opened.advanced {s t : Session} (h : s.Opened t) : s.Advanced t :=
  ⟨h.settled, h.clock, h.evolves⟩

/-- A settled session flushes steps of its runs. -/
theorem Session.Settled.advanced {s : Session} (h : s.Settled) {o : Store}
    (evolves : s.rows.Evolves o) : s.Advanced { s with rows := o, objects := o } :=
  ⟨⟨rfl, h.alone⟩, le_refl _, evolves⟩

theorem Session.Advanced.sound {s t : Session} {limits : ExecutionLimits} (h : s.Advanced t)
    (sound : s.rows.Sound limits s.clock) : t.rows.Sound limits t.clock :=
  (h.evolves.sound sound).mono h.clock

/-- A program that writes nothing opens a settled session. -/
theorem Reads.opened {α : Type} {x : Tx α} (hx : Reads x) {s t : Session} {a : α}
    (settled : s.Settled) (h : x s = .ok a t) : s.Opened t ∧ t.rows = s.rows := by
  obtain ⟨hr, ho, hc, hclock⟩ := (hx.ok h).quiet settled.alone
  exact ⟨settled.opened hr ho (hc.trans settled.alone.symm) hclock, hr⟩

section Rows
variable {limits : ExecutionLimits} {clock : Time} {store : Store}

theorem find?_job_eq (r : Uuid) :
    (store.jobs.find? fun job => job.runId == r) = (store.lineage r).jobs.head? :=
  (List.head?_filter ..).symm

/-- The rows of a job or a run found in a sound store. -/
theorem Store.Sound.of_mem_runs (sound : store.Sound limits clock) {run : Run}
    (h : run ∈ store.runs) :
    ∃ job, (store.lineage run.id).Valid limits run job ∧ run.createdAt ≤ clock := by
  have mem : run ∈ (store.lineage run.id).runs := Store.mem_lineage_runs.mpr ⟨h, rfl⟩
  rcases sound run.id with he | ⟨run', job, hv, hc⟩
  · rw [he] at mem
    cases mem
  · rw [hv.runs, List.mem_singleton] at mem
    subst mem
    exact ⟨job, hv, hc⟩

theorem Store.Sound.of_mem_jobs (sound : store.Sound limits clock) {job : Job}
    (h : job ∈ store.jobs) :
    ∃ run, (store.lineage job.runId).Valid limits run job ∧ run.createdAt ≤ clock := by
  have mem : job ∈ (store.lineage job.runId).jobs := Store.mem_lineage_jobs.mpr ⟨h, rfl⟩
  rcases sound job.runId with he | ⟨run, job', hv, hc⟩
  · rw [he] at mem
    cases mem
  · rw [hv.jobs, List.mem_singleton] at mem
    subst mem
    exact ⟨run, hv, hc⟩

theorem Store.Sound.nodup_runs (sound : store.Sound limits clock) :
    (store.runs.map Run.id).Nodup := by
  refine nodup_map_of_filter_length_le_one fun r => ?_
  change (store.lineage r).runs.length ≤ 1
  rcases sound r with he | ⟨run, job, hv, -⟩
  · rw [he]
    exact Nat.zero_le 1
  · rw [hv.runs]
    exact Nat.le_refl 1

theorem Store.Sound.nodup_jobs (sound : store.Sound limits clock) :
    (store.jobs.map Job.runId).Nodup := by
  refine nodup_map_of_filter_length_le_one fun r => ?_
  change (store.lineage r).jobs.length ≤ 1
  rcases sound r with he | ⟨run, job, hv, -⟩
  · rw [he]
    exact Nat.zero_le 1
  · rw [hv.jobs]
    exact Nat.le_refl 1

/-- The join pairs every run with its own job. -/
theorem Store.Sound.of_mem_runJobs (sound : store.Sound limits clock) {run : Run} {job : Job}
    (h : (run, job) ∈ store.runJobs) :
    (store.lineage run.id).Valid limits run job ∧ run.createdAt ≤ clock := by
  obtain ⟨run', hr, pair⟩ := List.mem_flatMap.mp h
  obtain ⟨job', hj, heq⟩ := List.mem_map.mp pair
  obtain ⟨rfl, rfl⟩ := Prod.mk.inj heq
  obtain ⟨job, hv, hc⟩ := sound.of_mem_runs hr
  have mem : job' ∈ (store.lineage run'.id).jobs := by
    rw [List.mem_filter, Bool.and_eq_true, beq_iff_eq, beq_iff_eq] at hj
    exact Store.mem_lineage_jobs.mpr ⟨hj.1, hj.2.2⟩
  rw [hv.jobs, List.mem_singleton] at mem
  subst mem
  exact ⟨hv, hc⟩

theorem Store.Sound.nodup_runJobs (sound : store.Sound limits clock) :
    (store.runJobs.map fun row => row.1.id).Nodup := by
  refine (map_flatMap_sublist fun run hr => ?_).nodup sound.nodup_runs
  obtain ⟨job, hv, -⟩ := sound.of_mem_runs hr
  have few : (store.jobs.filter fun job =>
      job.workspaceId == run.workspaceId && job.runId == run.id).Sublist [job] := by
    rw [← hv.jobs]
    exact List.monotone_filter_right _ fun j hj => (Bool.and_eq_true_iff.mp hj).2
  rw [List.map_map]
  exact few.map fun _ : Job => run.id

end Rows

section Statements
variable {limits : ExecutionLimits} {s : Session} {r : Uuid} {run row : Run} {job : Job}

theorem jobOfRun_ok (valid : (s.rows.lineage r).Valid limits run job)
    (sync : (s.objects.lineage r).jobs = (s.rows.lineage r).jobs) (hr : run.id = r) : jobOfRun r s = .ok (some job) s := by
  have row : (s.rows.jobs.find? fun j => j.runId == r) = some job := by
    rw [find?_job_eq, valid.jobs, List.head?_cons]
  have mapped : (s.objects.jobs.find? fun j => job.runId == j.runId) = some job := by
    have : (fun j : Job => job.runId == j.runId) = fun j => j.runId == r := by
      funext j
      rw [valid.runId, hr]
      exact BEq.comm
    rw [this, find?_job_eq, sync, valid.jobs, List.head?_cons]
  simp [jobOfRun, scalar, row, mapped]

theorem filter_attempting_eq (store : Store) (r : Uuid) :
    (store.attempts.filter fun a => a.runId == r && a.status.attempting) =
      (store.lineage r).attempts.filter fun a => a.status.attempting := by
  simp only [Store.lineage, List.filter_filter]
  exact List.filter_congr fun a _ => Bool.and_comm _ _

/-- The attempt that is under way is found, and is the only one a change of it touches. -/
theorem activeAttempt_ok (valid : (s.rows.lineage r).Valid limits run job)
    (sync : (s.objects.lineage r).attempts = (s.rows.lineage r).attempts)
    (attempting : run.status.attempting = true) :
    ∃ a, activeAttempt r s = .ok (some a) s ∧ a.runId = r ∧ a.status = run.status ∧
      a.leaseEpoch = job.leaseEpoch ∧ a ∈ (s.rows.lineage r).attempts ∧
      ∀ f, (s.objects.lineage r).setAttempt a.sequence f = (s.objects.lineage r).settle f := by
  obtain ⟨closed, a, hl, hs, hc⟩ := valid.attempts.last attempting
  have ha : a.status.attempting = true := hs ▸ attempting
  have mem : a ∈ (s.rows.lineage r).attempts := by simp [hl]
  have runId : a.runId = r := (Store.mem_lineage_attempts.mp mem).2
  have only : (s.rows.attempts.filter fun a => a.runId == r && a.status.attempting) = [a] := by
    rw [filter_attempting_eq, hl, List.filter_append, List.filter_eq_nil_iff.mpr]
    · simp [ha]
    · intro b hb
      simp [hc b hb]
  -- attempts of one run are told apart by their sequence
  have unique : ∀ b ∈ (s.rows.lineage r).attempts, (b.sequence == a.sequence) = b.status.attempting := by
    intro b hb
    rw [hl, List.mem_append, List.mem_singleton] at hb
    rcases hb with hb | rfl
    · rw [hc b hb, beq_eq_false_iff_ne]
      intro heq
      have := valid.numbered.eq_of_number_eq (by simp [hl, hb]) mem heq
      rw [← this, hc b hb] at ha
      cases ha
    · simp [ha]
  have mapped : (s.objects.attempts.find? fun b => b.runId == a.runId && b.sequence == a.sequence)
      = some a := by
    rw [← List.head?_filter]
    have : (s.objects.attempts.filter fun b => b.runId == a.runId && b.sequence == a.sequence) =
        (s.objects.lineage r).attempts.filter fun b => b.sequence == a.sequence := by
      simp only [Store.lineage, List.filter_filter, runId]
      exact List.filter_congr fun b _ => Bool.and_comm _ _
    rw [this, sync, List.filter_congr unique, hl, List.filter_append,
      List.filter_eq_nil_iff.mpr fun b hb => by simp [hc b hb]]
    simp [ha]
  refine ⟨a, ?_, runId, hs, ?_, mem, ?_⟩
  · simp [activeAttempt, only, mapped]
  · have hseq : a.sequence = closed.length + 1 := (hl ▸ valid.numbered).last
    have hlen : job.leaseEpoch = closed.length + 1 := by simpa [hl] using valid.epoch
    rw [valid.epochs a mem, hseq, hlen]
  · intro f
    unfold Lineage.setAttempt Lineage.settle
    rw [updateWhere_congr]
    rw [sync]
    exact unique

theorem activeAttempt_idle (valid : (s.rows.lineage r).Valid limits run job)
    (sync : (s.objects.lineage r).attempts = (s.rows.lineage r).attempts) (idle : run.status.attempting = false) :
    activeAttempt r s = .ok none s ∧
      ∀ f, (s.objects.lineage r).settle f = s.objects.lineage r := by
  have closed := valid.attempts.closed idle
  constructor
  · have : (s.rows.attempts.filter fun a => a.runId == r && a.status.attempting) = [] := by
      rw [filter_attempting_eq, List.filter_eq_nil_iff]
      intro a ha
      simp [closed a ha]
    simp [activeAttempt, this, orderedBy]
  · intro f
    unfold Lineage.settle
    rw [updateWhere_eq_self (by rw [sync]; exact closed)]

/-- The next event gets the number after the flushed ones. -/
theorem appendNextEvent_ok (numbered : Numbered RunEvent.sequence (s.rows.lineage run.id).events)
    (events : (s.objects.lineage run.id).events = (s.rows.lineage run.id).events)
    (eventType : RunEventType) (status : RunStatus) (code : Option RunFailureCode) (now : Time) :
    ∃ o, appendNextEvent run eventType status code now s = .ok () { s with objects := o } ∧
      s.objects.Edits run.id (fun l => l.note run eventType status code now) o := by
  refine ⟨_, rfl, ?_⟩
  have number : maximum ((s.rows.events.filter fun e => e.runId == run.id).map RunEvent.sequence)
      = (s.objects.lineage run.id).events.length := by
    rw [events]
    exact numbered.maximum_eq
  beta_reduce
  rw [number]
  exact (Store.edits_addEvent s.objects { workspaceId := run.workspaceId, runId := run.id, .. }).congr rfl

theorem toJobStatus_of_terminal {status : RunStatus} (h : status.terminal = true) :
    status.toJobStatus = some status.jobStatus := by
  cases status <;> first | rfl | cases h

/-- The job half of an end. -/
theorem terminalizeJob_ok {status : RunStatus} (ends : status.terminal = true) (now : Time)
    (job : Job) (s : Session) :
    ∃ o, terminalizeJob status now job s = .ok () { s with objects := o } ∧
      s.objects.Edits job.runId (fun l => l.setJob fun j =>
        { j with status := status.jobStatus, leaseOwner := none, leaseExpiresAt := none,
                 completedAt := some now }) o := by
  refine ⟨_, ?_, Store.edits_setJob _ _ _ fun _ => rfl⟩
  unfold terminalizeJob jobStatusOf
  rw [toJobStatus_of_terminal ends]
  rfl

/-- The attempt half of an end: the attempt under way is closed, if there is one. -/
theorem settleActive_ok (valid : (s.rows.lineage r).Valid limits run job)
    (sync : (s.objects.lineage r).attempts = (s.rows.lineage r).attempts)
    (f : RunAttempt → RunAttempt) (hf : ∀ a, (f a).runId = a.runId) :
    ∃ attempt o, activeAttempt r s = .ok attempt s ∧
      runSome attempt (fun a => assign fun s => s.setAttempt a.runId a.sequence f) s =
        .ok () { s with objects := o } ∧
      s.objects.Edits r (fun l => l.settle f) o := by
  cases attempting : run.status.attempting with
  | true =>
    obtain ⟨a, ha, runId, -, -, -, hset⟩ := activeAttempt_ok valid sync attempting
    refine ⟨some a, _, ha, rfl, ?_⟩
    rw [runId]
    exact (Store.edits_setAttempt _ _ _ f hf).congr (hset f)
  | false =>
    obtain ⟨ha, hset⟩ := activeAttempt_idle valid sync attempting
    exact ⟨none, s.objects, ha, rfl, rfl, rfl, (hset f).symm, fun _ _ => rfl⟩

/-- `_terminalize_run` ends the run, its job and its attempt together, and says so in the
next event. -/
theorem terminalizeRun_ok (valid : (s.rows.lineage run.id).Valid limits row job)
    (sync : s.Synced run.id) {status : RunStatus} (ends : status.terminal = true) (now : Time)
    (code : RunFailureCode) (eventType : RunEventType) :
    ∃ o, terminalizeRun run status now code eventType s = .ok () { s with objects := o } ∧
      s.objects.Edits run.id (fun l => l.finish run status (some code) eventType now) o := by
  have id : row.id = run.id := (Store.mem_lineage_runs.mp (by rw [valid.runs]; simp)).2
  have runId : job.runId = run.id := valid.runId.trans id
  let ended : Run → Run := fun r => { r with status := status, safeErrorCode := some code,
                                             updatedAt := now, terminalAt := some now }
  have e₁ := Store.edits_setRun s.objects run.id ended fun _ => rfl
  have h₁ : jobOfRun run.id { s with objects := s.objects.setRun run.id ended } =
      .ok (some job) { s with objects := s.objects.setRun run.id ended } :=
    jobOfRun_ok valid (by rw [e₁.self]; exact sync.jobs) id
  obtain ⟨o₂, h₂, e₂⟩ := terminalizeJob_ok ends now job
    { s with objects := s.objects.setRun run.id ended }
  rw [runId] at e₂
  -- neither write has touched the attempts or the events
  have e₁₂ := e₁.trans e₂
  obtain ⟨attempt, o₃, h₃, h₃', e₃⟩ := settleActive_ok (s := { s with objects := o₂ }) valid
    (by rw [e₁₂.self]; exact sync.attempts)
    (fun a => { a with status := status, safeErrorCode := some code, terminalAt := some now })
    fun _ => rfl
  have e₁₃ := e₁₂.trans e₃
  obtain ⟨o₄, h₄, e₄⟩ := appendNextEvent_ok (s := { s with objects := o₃ })
    valid.journal.numbered (by rw [e₁₃.self]; exact sync.events) eventType status (some code) now
  refine ⟨o₄, ?_, e₁₃.trans e₄⟩
  unfold terminalizeRun
  rw [bind_of_ok (assign_apply _ _), bind_of_ok h₁, runSome_some, bind_of_ok h₂, bind_of_ok h₃,
    bind_of_ok h₃']
  exact h₄

end Statements
section Guards
variable {limits : ExecutionLimits} {clock : Time} {s t : Session}

/-- `_execution_state` returns the row, inserting it first when it is missing. -/
theorem executionState_spec (flushed : s.objects = s.rows) {state : SystemExecutionState}
    (h : executionState s = .ok state t) :
    t.objects = t.rows ∧ t.rows = { s.rows with system := some state } ∧
      s.rows.SystemKept t.rows ∧ t.commits = s.commits ∧ s.clock ≤ t.clock ∧
      state.executionEpoch = s.rows.executionEpoch ∧
      state.dispatchQuarantined = s.rows.quarantined := by
  unfold executionState at h
  rw [bind_of_ok (query_apply _ _)] at h
  cases hs : s.rows.system with
  | some found =>
    rw [hs] at h
    injection h with hf ht
    subst hf ht
    refine ⟨flushed, ?_, .inl rfl, rfl, le_refl _, by simp [Store.executionEpoch, hs],
      by simp [Store.quarantined, hs]⟩
    rw [← hs]
  | none =>
    rw [hs] at h
    obtain ⟨now, u, hu, h⟩ := bind_eq_ok.mp h
    obtain ⟨rfl, hr, ho, hc, -, hclock⟩ := durableNow_eq_ok hu
    rw [bind_of_ok (assign_apply _ _), bind_of_ok (flush_apply _)] at h
    injection h with hf ht
    subst hf ht
    refine ⟨rfl, ?_, .inr ⟨hs, _, rfl⟩, hc, hclock, by simp [Store.executionEpoch, hs],
      by simp [Store.quarantined, hs]⟩
    simp only [ho, flushed]

theorem executionState_ok (settled : s.Settled) {state : SystemExecutionState}
    (h : executionState s = .ok state t) :
    s.Opened t ∧ t.rows.system = some state ∧ state.executionEpoch = s.rows.executionEpoch ∧
      state.dispatchQuarantined = s.rows.quarantined := by
  obtain ⟨flushed, hrows, kept, hc, hclock, epoch, quarantine⟩ :=
    executionState_spec settled.flushed h
  refine ⟨⟨⟨flushed, hc.trans settled.alone⟩, hclock, ?_, kept, ?_⟩, ?_, epoch, quarantine⟩
  · rw [hrows]
  · intro r
    rw [hrows]
    rfl
  · rw [hrows]

theorem scalar_ok {α : Type} {table : Store → List α} {same : α → α → Bool} {p : α → Bool}
    {a : α} (h : scalar table same p s = .ok (some a) t) :
    t = s ∧ ∃ row, (table s.rows).find? p = some row ∧
      (table s.objects).find? (same row) = some a := by
  injection h with hf ht
  exact ⟨ht.symm, Option.bind_eq_some_iff.mp hf⟩

/-- Locking a run without waiting finds its row. -/
theorem lockRun_ok (settled : s.Settled) (sound : s.rows.Sound limits clock) {p : Run → Bool}
    {run : Run} (h : lockRun p s = .ok (some run) t) :
    t = s ∧ p run = true ∧ run.createdAt ≤ clock ∧
      ∃ job, (s.rows.lineage run.id).Valid limits run job := by
  unfold lockRun at h
  have quiet : othersCommit s = .ok () s := by
    unfold othersCommit
    rw [settled.alone]
  rw [bind_of_ok quiet] at h
  obtain ⟨rfl, row, found, hr⟩ := scalar_ok h
  rw [settled.flushed] at hr
  have mem := List.mem_of_find?_eq_some found
  have same : row = run := by
    have hid : row.id = run.id := by simpa using List.find?_some hr
    exact List.inj_on_of_nodup_map sound.nodup_runs mem (List.mem_of_find?_eq_some hr) hid
  subst same
  obtain ⟨job, hv, hc⟩ := sound.of_mem_runs mem
  exact ⟨rfl, List.find?_some found, hc, job, hv⟩

end Guards

/-! ## Loops over locked rows -/

/-- A loop whose body edits one run, over distinct runs, edits each of them once. The body may
rely on the flushed rows and on the objects of its own run being as they were. -/
theorem forM_edits {α : Type} {as : List α} {f : α → Tx Unit} {key : α → Uuid} {g : α → Lineage → Lineage}
    {rows base : Store} (body : ∀ a (u : Session), u.rows = rows →
      u.objects.lineage (key a) = base.lineage (key a) → a ∈ as →
      ∃ o, f a u = .ok () { u with objects := o } ∧ u.objects.Edits (key a) (g a) o)
    (distinct : (as.map key).Nodup) (s : Session) (hr : s.rows = rows)
    (hb : ∀ a ∈ as, s.objects.lineage (key a) = base.lineage (key a)) :
    ∃ o, forM as f s = .ok () { s with objects := o } ∧ o.registry = s.objects.registry ∧
      o.system = s.objects.system ∧
      (∀ a ∈ as, o.lineage (key a) = g a (base.lineage (key a))) ∧
      ∀ q ∉ as.map key, o.lineage q = s.objects.lineage q := by
  induction as generalizing s with
  | nil => exact ⟨s.objects, rfl, rfl, rfl, by simp, fun _ _ => rfl⟩
  | cons a as ih =>
    rw [List.map_cons, List.nodup_cons] at distinct
    obtain ⟨o, ho, edits⟩ := body a s hr (hb a (by simp)) (by simp)
    have untouched : ∀ b ∈ as, o.lineage (key b) = base.lineage (key b) := by
      intro b mem
      have : key b ≠ key a := fun heq => distinct.1 (heq ▸ List.mem_map_of_mem mem)
      rw [edits.other _ this, hb b (by simp [mem])]
    obtain ⟨o', ho', hreg, hsys, hself, hother⟩ := ih
      (fun b u hu hl mem => body b u hu hl (by simp [mem])) distinct.2 { s with objects := o } hr
      untouched
    refine ⟨o', (bind_of_ok ho).trans ho', hreg.trans edits.registry,
      hsys.trans edits.system, ?_, ?_⟩
    · intro b mem
      rcases List.mem_cons.mp mem with rfl | mem
      · rw [hother _ distinct.1, edits.self, hb b (by simp)]
      · exact hself b mem
    · intro q hq
      rw [List.map_cons, List.mem_cons, not_or] at hq
      rw [hother q hq.2, edits.other q hq.1]

/-- The same loop seen as steps: every run of the list takes the step of its edit. -/
theorem forM_evolves {α : Type} {as : List α} {f : α → Tx Unit} {key : α → Uuid}
    {g : α → Lineage → Lineage} {s : Session} (flushed : s.objects = s.rows)
    (body : ∀ a (u : Session), u.rows = s.rows →
      u.objects.lineage (key a) = s.rows.lineage (key a) → a ∈ as →
      ∃ o, f a u = .ok () { u with objects := o } ∧ u.objects.Edits (key a) (g a) o)
    (distinct : (as.map key).Nodup)
    (step : ∀ a ∈ as, Lineage.Steps (s.rows.lineage (key a)) (g a (s.rows.lineage (key a)))) :
    ∃ o, forM as f s = .ok () { s with objects := o } ∧ s.rows.Evolves o := by
  obtain ⟨o, ho, hreg, hsys, hself, hother⟩ := forM_edits body distinct s rfl
    fun a _ => by rw [flushed]
  rw [flushed] at hreg hsys
  refine ⟨o, ho, hreg, .inl hsys, fun r => ?_⟩
  by_cases hr : r ∈ as.map key
  · obtain ⟨a, mem, rfl⟩ := List.mem_map.mp hr
    rw [hself a mem]
    exact step a mem
  · rw [hother r hr, flushed]

/-- Ending distinct runs one after the other. -/
theorem terminalizeEach_ok {α : Type} {limits : ExecutionLimits} {s : Session}
    (flushed : s.objects = s.rows) {rows : List α} (run : α → Run) (status : α → RunStatus) (now : Time)
    (code : RunFailureCode) (eventType : RunEventType) (neutral : eventType.neutral = true)
    (other : eventType ≠ .contentExpired) (distinct : (rows.map fun a => (run a).id).Nodup)
    (each : ∀ a ∈ rows, MayEnd (run a).status (status a) (some code) ∧
      (run a).createdAt ≤ now ∧ ∃ job, (s.rows.lineage (run a).id).Valid limits (run a) job) :
    ∃ o, forM rows (fun a => terminalizeRun (run a) (status a) now code eventType) s =
        .ok () { s with objects := o } ∧ s.rows.Evolves o := by
  refine forM_evolves flushed (g := fun a l => l.finish (run a) (status a) (some code) eventType
    now) ?_ distinct ?_
  · intro a u hrows hl mem
    obtain ⟨ends, -, job, valid⟩ := each a mem
    rw [← hrows] at valid hl
    exact terminalizeRun_ok valid (.of_lineage_eq hl) ends.terminal now code eventType
  · intro a mem
    obtain ⟨ends, created, job, valid⟩ := each a mem
    exact .single (.finish eventType now valid.runs ends neutral other created)

section Locks
variable {limits : ExecutionLimits} {clock : Time} {s : Session}

/-- The locked rows are latest versions of candidates that still satisfy the predicate. -/
theorem lockEach_spec {γ : Type} (p : Run → γ → Bool) (s : Session) (n : Nat)
    (candidates : List (Run × γ)) :
    ((lockEach p s n candidates).map fun row => row.1.id).Sublist
        (candidates.map fun row => row.1.id) ∧
      ∀ row ∈ lockEach p s n candidates, row.1 ∈ s.rows.runs ∧ p row.1 row.2 = true ∧
        ∃ candidate ∈ candidates, candidate.1.id = row.1.id ∧ candidate.2 = row.2 := by
  induction candidates generalizing n with
  | nil => cases n <;> simp [lockEach]
  | cons candidate rest ih =>
    obtain ⟨run, joined⟩ := candidate
    cases n with
    | zero => simp [lockEach]
    | succ n =>
      have skip (m : Nat) : ((lockEach p s m rest).map fun row => row.1.id).Sublist
          (((run, joined) :: rest).map fun row => row.1.id) ∧
          ∀ row ∈ lockEach p s m rest, row.1 ∈ s.rows.runs ∧ p row.1 row.2 = true ∧
            ∃ candidate ∈ (run, joined) :: rest,
              candidate.1.id = row.1.id ∧ candidate.2 = row.2 := by
        obtain ⟨sub, hp⟩ := ih m
        refine ⟨sub.cons _, fun row mem => ?_⟩
        obtain ⟨hr, hpr, c, hc, heq⟩ := hp row mem
        exact ⟨hr, hpr, c, by simp [hc], heq⟩
      unfold lockEach
      cases latest : (if run.id ∈ s.held then none
          else s.rows.runs.find? fun r => r.id == run.id) with
      | none => exact skip (n + 1)
      | some row =>
        have found : s.rows.runs.find? (fun r => r.id == run.id) = some row := by
          split_ifs at latest
          exact latest
        have id : row.id = run.id := by simpa using List.find?_some found
        by_cases hrow : p row joined = true
        · obtain ⟨sub, hp⟩ := ih n
          simp only [hrow, if_true]
          refine ⟨?_, ?_⟩
          · simp only [List.map_cons, id]
            exact sub.cons_cons _
          · intro r mem
            rcases List.mem_cons.mp mem with rfl | mem
            · exact ⟨List.mem_of_find?_eq_some found, hrow, _, List.mem_cons_self, id.symm, rfl⟩
            · obtain ⟨hr, hpr, c, hc, heq⟩ := hp r mem
              exact ⟨hr, hpr, c, by simp [hc], heq⟩
        · simp only [hrow]
          exact skip (n + 1)

theorem othersCommit_alone (alone : s.commits = []) : othersCommit s = .ok () s := by
  unfold othersCommit
  rw [alone]

/-- Without interference the locked rows belong together as the snapshot found them. -/
theorem lockRunJobs_ok (alone : s.commits = []) (sound : s.rows.Sound limits clock)
    (p : Run → Job → Bool) (before : Job → Job → Prop) [DecidableRel before] (n : Nat) :
    ∃ locked, lockRunJobs p before n s = .ok locked s ∧
      (locked.map fun row => row.1.id).Nodup ∧
      ∀ row ∈ locked, p row.1 row.2 = true ∧ row.1.createdAt ≤ clock ∧
        (s.rows.lineage row.1.id).Valid limits row.1 row.2 := by
  obtain ⟨sub, hp⟩ := lockEach_spec p s n
    (orderedBy (fun a b => before a.2 b.2) (s.rows.runJobs.filter fun row => p row.1 row.2))
  refine ⟨_, (bind_of_ok (query_apply _ _)).trans (bind_of_ok (othersCommit_alone alone)), ?_, ?_⟩
  · refine sub.nodup (nodup_map_orderedBy.mpr ?_)
    exact (List.filter_sublist.map _).nodup sound.nodup_runJobs
  · intro row mem
    obtain ⟨hr, hpr, c, hc, hid, hjoin⟩ := hp row mem
    have hcand := (List.mem_filter.mp (mem_orderedBy.mp hc)).1
    obtain ⟨hv, -⟩ : (s.rows.lineage c.1.id).Valid limits c.1 c.2 ∧ _ := sound.of_mem_runJobs hcand
    obtain ⟨job, hv', hcr⟩ := sound.of_mem_runs hr
    rw [hid] at hv
    have : job = row.2 := by
      rw [← hjoin]
      exact hv.eq_job hv'.jobs
    exact ⟨hpr, hcr, this ▸ hv'⟩

theorem lockRuns_ok (alone : s.commits = []) (sound : s.rows.Sound limits clock)
    (p : Run → Bool) (before : Run → Run → Prop) [DecidableRel before] (n : Nat) :
    ∃ locked, lockRuns p before n s = .ok locked s ∧ (locked.map Run.id).Nodup ∧
      ∀ run ∈ locked, p run = true ∧ run.createdAt ≤ clock ∧
        ∃ job, (s.rows.lineage run.id).Valid limits run job := by
  obtain ⟨sub, hp⟩ := lockEach_spec (fun run (_ : Unit) => p run) s n
    ((orderedBy before (s.rows.runs.filter p)).map fun run => (run, ()))
  refine ⟨_, (bind_of_ok (query_apply _ _)).trans (bind_of_ok (othersCommit_alone alone)), ?_, ?_⟩
  · rw [List.map_map]
    refine sub.nodup ?_
    rw [List.map_map]
    exact nodup_map_orderedBy.mpr ((List.filter_sublist.map _).nodup sound.nodup_runs)
  · intro run hrun
    obtain ⟨row, mem, rfl⟩ := List.mem_map.mp hrun
    obtain ⟨hr, hpr, -⟩ := hp row mem
    obtain ⟨job, hv, hc⟩ := sound.of_mem_runs hr
    exact ⟨hpr, hc, job, hv⟩

end Locks

end Modall
