import Modall.Execution.Safety

/-!
# `claim_job` among other transactions

The three statements of `claim_job` take their candidates from a snapshot and lock the run rows
afterwards. Before a run row is locked its latest version is tested again, its job is not, and
nothing tests the job once it is locked. So the claim is safe exactly as long as the others leave
the jobs it can select alone: `Meanwhile` says which changes of the others do, and `ClaimSafe`
what the locked rows then satisfy.
-/
namespace Modall
open Library

/-- At `now` the job is queued, or leased with its lease expired or its deadline passed: some
statement of `claim_job` may select it. -/
def Job.exposed (job : Job) (now : Time) : Bool :=
  job.status == .queued ||
    (job.status == .leased && (job.leaseExpired now || decide (job.deadline ≤ now)))

/-- The rows as the session finds them once the other transactions have committed. -/
def Session.meanwhile (s : Session) : Store :=
  match s.commits with
  | [] => s.rows
  | commit :: _ => commit s.rows

/-- What the other transactions do between a snapshot and the row locks: they keep the ledger in
order; and a run with an exposed job keeps its job row as long as it is active, and is ended by
them only before its deadline. -/
structure Meanwhile (limits : ExecutionLimits) (now : Time) (before after : Store) : Prop where
  sound : ∀ clock, before.Sound limits clock → ∃ later, after.Sound limits later
  spares : ∀ job ∈ before.jobs, job.exposed now = true → ∀ run ∈ after.runs, run.id = job.runId →
    (run.status.terminal = false ∧
      (after.lineage run.id).jobs = (before.lineage run.id).jobs) ∨
    (run.status.terminal = true ∧ now < job.deadline)

/-- The others spare what each of the three statements of a claim may select. -/
structure Undisturbed (limits : ExecutionLimits) (service : ExecutionService) (workerId : String)
    (leaseDuration : Int) (s : Session) : Prop where
  expired : ∀ {now state u}, openClaim workerId leaseDuration s = .ok (now, state) u →
    Meanwhile limits now u.rows u.meanwhile
  abandoned : ∀ {now state reconciled u},
    service.sweepExpired workerId leaseDuration s = .ok (now, state, reconciled) u →
    Meanwhile limits now u.rows u.meanwhile
  claim : ∀ {now state reconciled u},
    service.sweep workerId leaseDuration s = .ok (now, state, reconciled) u →
    Meanwhile limits now u.rows u.meanwhile

/-- What the rows that a claim has locked satisfy at that moment. -/
structure ClaimSafe (service : ExecutionService) (workerId : String) (leaseDuration : Int)
    (s : Session) : Prop where
  /-- What `_terminalize_expired_jobs` ends is active and past its deadline. -/
  expired : ∀ {now state u rows v}, openClaim workerId leaseDuration s = .ok (now, state) u →
    lockRunJobs (pastDeadline now) beforeDeadline service.limits.reconciliationBatchSize.toNat u =
      .ok rows v →
    ∀ row ∈ rows, ∀ run ∈ v.rows.runs, run.id = row.1.id → run.status.terminal = false ∧
      ∀ job ∈ v.rows.jobs, job.runId = run.id → job.deadline ≤ now
  /-- What `_terminalize_abandoned_dispatches` ends is fenced, and its lease has expired. -/
  abandoned : ∀ {now state reconciled u rows v},
    service.sweepExpired workerId leaseDuration s = .ok (now, state, reconciled) u →
    lockRunJobs (abandonedDispatch now) beforeLeaseExpiry
      service.limits.reconciliationBatchSize.toNat u = .ok rows v →
    ∀ row ∈ rows, ∀ run ∈ v.rows.runs, run.id = row.1.id → run.status = .dispatchFenced ∧
      ∀ job ∈ v.rows.jobs, job.runId = run.id →
        job.status = .leased ∧ job.leaseExpired now = true
  /-- What is leased is queued, or its lease has expired. -/
  granted : ∀ {now state reconciled u run job v lease rest t},
    service.sweep workerId leaseDuration s = .ok (now, state, reconciled) u →
    lockClaimable state now u = .ok (some (run, job)) v →
    claimLocked run job workerId leaseDuration reconciled v = .ok (some lease, rest) t →
    job ∈ v.rows.jobs ∧ job.runId = run.id ∧
      (job.status = .queued ∨ job.status = .leased ∧ job.leaseExpired now = true)

section Statements
variable {limits : ExecutionLimits} {now clock : Time} {s t u v : Session}

theorem othersCommit_ok {x : Unit} (flushed : s.objects = s.rows)
    (h : othersCommit s = .ok x t) : t.rows = s.meanwhile ∧ t.objects = t.rows := by
  unfold othersCommit at h
  unfold Session.meanwhile
  cases hs : s.commits with
  | nil =>
    rw [hs] at h
    injection h with _ h
    subst h
    exact ⟨rfl, flushed⟩
  | cons commit rest =>
    rw [hs] at h
    injection h with _ h
    subst h
    exact ⟨rfl, by simp [flushed]⟩

/-- No run has two jobs. -/
def Store.OneJob (store : Store) : Prop := ∀ r, (store.lineage r).jobs.length ≤ 1

theorem Store.Sound.oneJob {store : Store} (sound : store.Sound limits clock) : store.OneJob := by
  intro r
  rcases sound r with he | ⟨run, job, valid, -⟩
  · simp [he, Lineage.empty]
  · simp [valid.jobs]

theorem Store.OneJob.eq_singleton {store : Store} (one : store.OneJob) {job : Job}
    (mem : job ∈ store.jobs) : (store.lineage job.runId).jobs = [job] := by
  have mine := Store.mem_lineage_jobs.mpr ⟨mem, rfl⟩
  obtain ⟨only, hjobs⟩ := List.length_eq_one_iff.mp
    (Nat.le_antisymm (one job.runId) (List.length_pos_of_mem mine))
  rw [hjobs, List.mem_singleton] at mine
  rw [hjobs, mine]

theorem Store.job_of_mem_runJobs {store : Store} {run : Run} {job : Job}
    (h : (run, job) ∈ store.runJobs) : job ∈ store.jobs ∧ job.runId = run.id := by
  obtain ⟨run', -, pair⟩ := List.mem_flatMap.mp h
  obtain ⟨job', hj, heq⟩ := List.mem_map.mp pair
  obtain ⟨rfl, rfl⟩ := Prod.mk.inj heq
  rw [List.mem_filter, Bool.and_eq_true, beq_iff_eq, beq_iff_eq] at hj
  exact ⟨hj.1, hj.2.2⟩

/-- The rows that a statement has locked once the others have committed: latest versions of runs
whose jobs the snapshot joined. -/
theorem lockRunJobs_meanwhile {p : Run → Job → Bool} {before : Job → Job → Prop}
    [DecidableRel before] {n : Nat} {rows : List (Run × Job)} (flushed : s.objects = s.rows)
    (h : lockRunJobs p before n s = .ok rows t) :
    t.rows = s.meanwhile ∧ t.objects = t.rows ∧
      (rows.map fun row => row.1.id).Sublist ((orderedBy (fun a b => before a.2 b.2)
        (s.rows.runJobs.filter fun row => p row.1 row.2)).map fun row => row.1.id) ∧
      ∀ row ∈ rows, row.1 ∈ t.rows.runs ∧ p row.1 row.2 = true ∧ row.2 ∈ s.rows.jobs ∧
        row.2.runId = row.1.id := by
  unfold lockRunJobs at h
  rw [bind_of_ok (query_apply _ _), bind_eq_ok] at h
  obtain ⟨⟨⟩, u, hu, h⟩ := h
  obtain ⟨hrows, flushed'⟩ := othersCommit_ok flushed hu
  injection h with hl ht
  subst hl ht
  obtain ⟨sub, hp⟩ := lockEach_spec p u n
    (orderedBy (fun a b => before a.2 b.2) (s.rows.runJobs.filter fun row => p row.1 row.2))
  refine ⟨hrows, flushed', sub, fun row mem => ?_⟩
  obtain ⟨hr, hpr, c, hc, hid, hjoin⟩ := hp row mem
  obtain ⟨hmem, hrun⟩ := Store.job_of_mem_runJobs (List.mem_filter.mp (mem_orderedBy.mp hc)).1
  rw [hjoin] at hmem hrun
  exact ⟨hr, hpr, hmem, hrun.trans hid⟩

/-- An exposed job of a run that is still active has been left alone. -/
theorem Meanwhile.job_eq {before after : Store} (h : Meanwhile limits now before after)
    (one : before.OneJob) {run : Run} {job job' : Job} (hj : job ∈ before.jobs)
    (exposed : job.exposed now = true) (mem : run ∈ after.runs) (hid : run.id = job.runId)
    (live : run.status.terminal = false) (hj' : job' ∈ after.jobs) (hjr : job'.runId = run.id) :
    job' = job := by
  rcases h.spares job hj exposed run mem hid with ⟨-, same⟩ | ⟨ended, -⟩
  · have mem' := Store.mem_lineage_jobs.mpr ⟨hj', hjr⟩
    rw [same, hid, one.eq_singleton hj, List.mem_singleton] at mem'
    exact mem'
  · simp [live] at ended

/-- A run with an exposed job past its deadline is still active. -/
theorem Meanwhile.live {before after : Store} (h : Meanwhile limits now before after) {run : Run}
    {job : Job} (hj : job ∈ before.jobs) (exposed : job.exposed now = true)
    (past : job.deadline ≤ now) (mem : run ∈ after.runs) (hid : run.id = job.runId) :
    run.status.terminal = false := by
  rcases h.spares job hj exposed run mem hid with ⟨live, -⟩ | ⟨-, ahead⟩
  · exact live
  · exact (not_lt.mpr past ahead).elim

theorem exposed_of_pastDeadline {run : Run} {job : Job} (h : pastDeadline now run job = true) :
    job.exposed now = true ∧ job.deadline ≤ now := by
  simp only [pastDeadline, Bool.and_eq_true, Bool.or_eq_true, beq_iff_eq, decide_eq_true_eq] at h
  obtain ⟨hs | hs, hd⟩ := h <;> simp [Job.exposed, hs, hd]

theorem exposed_of_abandoned {run : Run} {job : Job} (h : abandonedDispatch now run job = true) :
    job.exposed now = true ∧ job.status = .leased ∧ job.leaseExpired now = true ∧
      run.status = .dispatchFenced := by
  simp only [abandonedDispatch, Bool.and_eq_true, beq_iff_eq] at h
  obtain ⟨⟨hs, he⟩, hr⟩ := h
  exact ⟨by simp [Job.exposed, hs, he], hs, he, hr⟩

theorem exposed_of_claimable {state : SystemExecutionState} {run : Run} {job : Job}
    (h : claimable state now run job = true) : job.exposed now = true ∧
      run.status.terminal = false ∧
      (job.status = .queued ∨ job.status = .leased ∧ job.leaseExpired now = true) := by
  simp only [claimable, Bool.and_eq_true, Bool.or_eq_true, beq_iff_eq] at h
  obtain ⟨⟨-, hr⟩, hj⟩ := h
  refine ⟨?_, ?_, hj⟩
  · rcases hj with hs | ⟨hs, he⟩
    · simp [Job.exposed, hs]
    · simp [Job.exposed, hs, he]
  · revert hr
    cases run.status <;> simp [RunStatus.claimable, RunStatus.terminal]

end Statements

/-! ## The three statements -/

section Phases
variable {limits : ExecutionLimits} {service : ExecutionService} {workerId : String}
  {leaseDuration : Int} {now clock : Time} {state : SystemExecutionState} {s t u v : Session}
  {rows : List (Run × Job)} {reconciled : List ReconciledJob}

theorem openClaim_flushed (flushed : s.objects = s.rows)
    (h : openClaim workerId leaseDuration s = .ok (now, state) t) :
    t.objects = t.rows ∧ ∀ r, t.rows.lineage r = s.rows.lineage r := by
  unfold openClaim at h
  rw [bind_eq_ok] at h
  obtain ⟨⟨⟩, u, hu, h⟩ := h
  obtain ⟨-, hs⟩ := raiseIf_eq_ok.mp hu
  subst u
  rw [bind_eq_ok] at h
  obtain ⟨now', u, hu, h⟩ := h
  obtain ⟨-, hr, ho, -⟩ := durableNow_eq_ok hu
  rw [bind_eq_ok] at h
  obtain ⟨state', v, hv, h⟩ := h
  obtain ⟨flushed', hrows, -⟩ := executionState_spec (by rw [ho, hr, flushed]) hv
  rw [bind_eq_ok] at h
  obtain ⟨⟨⟩, w, hw, h⟩ := h
  obtain ⟨-, rfl⟩ := raiseIf_eq_ok.mp hw
  injection h with _ ht
  subst ht
  refine ⟨flushed', fun r => ?_⟩
  rw [hrows, hr]
  rfl

theorem expired_safe (flushed : s.objects = s.rows) (sound : s.rows.Sound limits clock)
    (meanwhile : Meanwhile limits now s.rows s.meanwhile)
    (h : lockRunJobs (pastDeadline now) beforeDeadline
      service.limits.reconciliationBatchSize.toNat s = .ok rows t) :
    ∀ row ∈ rows, ∀ run ∈ t.rows.runs, run.id = row.1.id → run.status.terminal = false ∧
      ∀ job ∈ t.rows.jobs, job.runId = run.id → job.deadline ≤ now := by
  obtain ⟨hrows, -, -, each⟩ := lockRunJobs_meanwhile flushed h
  intro row mem run hrun hid
  obtain ⟨-, selected, hjob, hjr⟩ := each row mem
  obtain ⟨exposed, past⟩ := exposed_of_pastDeadline selected
  rw [hrows] at hrun ⊢
  have live := meanwhile.live hjob exposed past hrun (hid.trans hjr.symm)
  refine ⟨live, fun job mem' hjr' => ?_⟩
  rw [meanwhile.job_eq sound.oneJob hjob exposed hrun (hid.trans hjr.symm) live mem' hjr']
  exact past

/-- The first pass keeps the ledger in order. -/
theorem sweepExpired_sound (flushed : s.objects = s.rows) (sound : s.rows.Sound limits clock)
    (undisturbed : Undisturbed limits service workerId leaseDuration s)
    (h : service.sweepExpired workerId leaseDuration s = .ok (now, state, reconciled) t) :
    t.objects = t.rows ∧ ∃ later, t.rows.Sound limits later := by
  unfold ExecutionService.sweepExpired ExecutionService.terminalizeExpiredJobs at h
  rw [bind_eq_ok] at h
  obtain ⟨⟨now', state'⟩, u, hu, h⟩ := h
  obtain ⟨flushed', lineage⟩ := openClaim_flushed flushed hu
  have sound' : u.rows.Sound limits clock := fun r => by
    rw [lineage]
    exact sound r
  have meanwhile := undisturbed.expired hu
  dsimp only at h
  rw [bind_eq_ok] at h
  obtain ⟨expired, w, hw, h⟩ := h
  rw [bind_eq_ok] at hw
  obtain ⟨rows, v, hv, hw⟩ := hw
  obtain ⟨hrows, flushed₂, sub, each⟩ := lockRunJobs_meanwhile flushed' hv
  have safe := expired_safe flushed' sound' meanwhile hv
  obtain ⟨later, sound₂⟩ := meanwhile.sound clock sound'
  rw [← hrows] at sound₂
  obtain ⟨o, ho, evolves⟩ := terminalizeEach_ok flushed₂ (fun row : Run × Job => row.1)
    (fun row => deadlineStatus row.1.status) now' .deadlineExceeded .terminal rfl nofun
    (sub.nodup (nodup_map_orderedBy.mpr ((List.filter_sublist.map _).nodup sound'.nodup_runJobs)))
    (by
      intro row mem
      obtain ⟨hrun, -⟩ := each row mem
      obtain ⟨live, past⟩ := safe row mem row.1 hrun rfl
      obtain ⟨job, valid, -⟩ := sound₂.of_mem_runs hrun
      have mine : job ∈ (v.rows.lineage row.1.id).jobs := by simp [valid.jobs]
      obtain ⟨hmem, hjr⟩ := Store.mem_lineage_jobs.mp mine
      have due := past job hmem hjr
      rw [valid.deadline] at due
      exact ⟨mayEnd_deadline live _, valid.created.le.trans due, job, valid⟩)
  rw [bind_of_ok ho] at hw
  injection hw with _ hw
  subst hw
  rw [bind_of_ok (flush_apply _)] at h
  injection h with _ ht
  subst ht
  exact ⟨rfl, later, evolves.sound sound₂⟩

theorem abandoned_safe (flushed : s.objects = s.rows) (sound : s.rows.Sound limits clock)
    (meanwhile : Meanwhile limits now s.rows s.meanwhile)
    (h : lockRunJobs (abandonedDispatch now) beforeLeaseExpiry
      service.limits.reconciliationBatchSize.toNat s = .ok rows t) :
    ∀ row ∈ rows, ∀ run ∈ t.rows.runs, run.id = row.1.id → run.status = .dispatchFenced ∧
      ∀ job ∈ t.rows.jobs, job.runId = run.id →
        job.status = .leased ∧ job.leaseExpired now = true := by
  obtain ⟨hrows, -, -, each⟩ := lockRunJobs_meanwhile flushed h
  intro row mem run hrun hid
  obtain ⟨hrow, selected, hjob, hjr⟩ := each row mem
  obtain ⟨exposed, leased, expired, fenced⟩ := exposed_of_abandoned selected
  rw [hrows] at hrun hrow ⊢
  obtain ⟨later, sound'⟩ := meanwhile.sound clock sound
  have same : run = row.1 := List.inj_on_of_nodup_map sound'.nodup_runs hrun hrow hid
  subst same
  refine ⟨fenced, fun job mem' hjr' => ?_⟩
  rw [meanwhile.job_eq sound.oneJob hjob exposed hrun hjr.symm (by rw [fenced]; rfl) mem' hjr']
  exact ⟨leased, expired⟩

/-- The second pass leaves every run its one job. -/
theorem sweep_oneJob (flushed : s.objects = s.rows) (sound : s.rows.Sound limits clock)
    (undisturbed : Undisturbed limits service workerId leaseDuration s)
    (h : service.sweep workerId leaseDuration s = .ok (now, state, reconciled) t) :
    t.objects = t.rows ∧ t.rows.OneJob := by
  unfold ExecutionService.sweep ExecutionService.terminalizeAbandonedDispatches at h
  rw [bind_eq_ok] at h
  obtain ⟨⟨now', state', expired⟩, u, hu, h⟩ := h
  obtain ⟨flushed', later, sound'⟩ := sweepExpired_sound flushed sound undisturbed hu
  have meanwhile := undisturbed.abandoned hu
  dsimp only at h
  rw [bind_eq_ok] at h
  obtain ⟨abandoned, w, hw, h⟩ := h
  rw [bind_eq_ok] at hw
  obtain ⟨rows, v, hv, hw⟩ := hw
  obtain ⟨hrows, flushed₂, sub, each⟩ := lockRunJobs_meanwhile flushed' hv
  obtain ⟨later', sound₂⟩ := meanwhile.sound later sound'
  rw [← hrows] at sound₂
  have distinct : (rows.map fun row => row.1.id).Nodup :=
    sub.nodup (nodup_map_orderedBy.mpr ((List.filter_sublist.map _).nodup sound'.nodup_runJobs))
  have body (row : Run × Job) (x : Session) (hx : x.rows = v.rows)
      (hl : x.objects.lineage row.1.id = v.rows.lineage row.1.id) (mem : row ∈ rows) :
      ∃ o, terminalizeRun row.1 .indeterminate now' .workerLostAfterDispatch .terminal x =
          .ok () { x with objects := o } ∧
        x.objects.Edits row.1.id (fun l => l.finish row.1 .indeterminate
          (some .workerLostAfterDispatch) .terminal now') o := by
    obtain ⟨job, valid, -⟩ := sound₂.of_mem_runs (each row mem).1
    rw [← hx] at valid hl
    exact terminalizeRun_ok valid (.of_lineage_eq hl) rfl now' .workerLostAfterDispatch .terminal
  obtain ⟨o, ho, -, -, hself, hother⟩ := forM_edits body distinct v rfl fun row _ => by
    rw [flushed₂]
  rw [bind_of_ok ho, bind_of_ok (flush_apply _)] at hw
  injection hw with _ hw
  subst hw
  injection h with _ ht
  subst ht
  refine ⟨rfl, fun r => ?_⟩
  have one := sound₂.oneJob r
  by_cases hr : r ∈ rows.map fun row => row.1.id
  · obtain ⟨row, mem, rfl⟩ := List.mem_map.mp hr
    dsimp only
    rw [hself row mem]
    simpa [Lineage.finish, Lineage.note, Lineage.settle, Lineage.setJob, Lineage.setRun,
      Lineage.addEvent] using one
  · dsimp only
    rw [hother r hr, flushed₂]
    exact one

theorem granted_safe (flushed : s.objects = s.rows) (one : s.rows.OneJob)
    (meanwhile : Meanwhile limits now s.rows s.meanwhile) {run : Run} {job : Job}
    (h : lockClaimable state now s = .ok (some (run, job)) t) :
    job ∈ t.rows.jobs ∧ job.runId = run.id ∧
      (job.status = .queued ∨ job.status = .leased ∧ job.leaseExpired now = true) := by
  unfold lockClaimable at h
  rw [bind_eq_ok] at h
  obtain ⟨rows, u, hu, h⟩ := h
  obtain ⟨hrows, flushed', -, each⟩ := lockRunJobs_meanwhile flushed hu
  cases rows with
  | nil => cases h
  | cons row rest =>
    dsimp only [List.head?_cons] at h
    obtain ⟨hrun, selected, hjob, hjr⟩ := each row (by simp)
    obtain ⟨exposed, live, free⟩ := exposed_of_claimable selected
    rw [bind_eq_ok] at h
    obtain ⟨found, v, hv, h⟩ := h
    cases found with
    | none => cases h
    | some found =>
      injection h with hp ht
      simp only [Option.map_some, Option.some.injEq, Prod.mk.injEq] at hp
      obtain ⟨rfl, rfl⟩ := hp
      subst ht
      obtain ⟨rfl, old, hold, hobj⟩ := scalar_ok hv
      rw [flushed'] at hobj
      have mem := List.mem_of_find?_eq_some hobj
      have hid : found.runId = row.1.id := by
        have h₁ : old.runId = found.runId := by simpa using List.find?_some hobj
        have h₂ : old.runId = row.1.id := by simpa using List.find?_some hold
        exact h₁.symm.trans h₂
      refine ⟨mem, hid, ?_⟩
      rw [hrows] at mem hrun
      rw [meanwhile.job_eq one hjob exposed hrun hjr.symm live mem hid]
      exact free

/-! ## With and without others -/

/-- Doing nothing disturbs nothing. -/
theorem Meanwhile.refl {store : Store} (sound : store.Sound limits clock) :
    Meanwhile limits now store store where
  sound clock' h := ⟨clock', h⟩
  spares job hj exposed run mem hid := by
    left
    obtain ⟨row, valid, -⟩ := sound.of_mem_jobs hj
    obtain ⟨job', valid', -⟩ := sound.of_mem_runs mem
    rw [hid] at valid'
    obtain rfl := valid'.eq_run valid.runs
    refine ⟨live_of_jobStatus ?_, rfl⟩
    rw [← valid.status]
    simp only [Job.exposed, Bool.or_eq_true, Bool.and_eq_true, beq_iff_eq] at exposed
    exact exposed.imp_right And.left

/-- A claim that runs on its own is undisturbed. -/
theorem Undisturbed.of_settled (settled : s.Settled) (sound : s.rows.Sound limits s.clock) :
    Undisturbed limits service workerId leaseDuration s where
  expired := by
    intro now state u hu
    obtain ⟨opened, -⟩ := openClaim_ok settled hu
    rw [Session.meanwhile, opened.settled.alone]
    exact .refl (opened.evolves.sound sound)
  abandoned := by
    intro now state reconciled u hu
    obtain ⟨advanced, -⟩ := sweepExpired_ok settled sound hu
    rw [Session.meanwhile, advanced.settled.alone]
    exact .refl (advanced.evolves.sound sound)
  claim := by
    intro now state reconciled u hu
    obtain ⟨advanced, -⟩ := sweep_ok settled sound hu
    rw [Session.meanwhile, advanced.settled.alone]
    exact .refl (advanced.evolves.sound sound)

end Phases

/-- Another worker's `claim_job`, as an effect on the committed rows. -/
def Sample.otherClaim (store : Store) : Store :=
  (transact (Sample.service.claimJob "other" 1000000) (.begin store 0 [] [] [])).store

end Modall
