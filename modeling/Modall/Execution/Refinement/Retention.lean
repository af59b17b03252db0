import Modall.Execution.Retention
import Modall.Execution.Refinement.Leasing

/-!
# Quarantine and retention take steps of their runs

The system and cleanup operations of `Retention`, run without interference on a sound store.
Entering and clearing the quarantine change the system row and no run.
-/
namespace Modall
open Library

variable {limits : ExecutionLimits} {clock : Time} {s t : Session}

/-! ## Restore quarantine -/

/-- Only the system row has changed. -/
structure SystemSet (s t : Session) (state : SystemExecutionState) : Prop where
  settled : t.Settled
  clock : s.clock ≤ t.clock
  registry : t.rows.registry = s.rows.registry
  lineage : ∀ r, t.rows.lineage r = s.rows.lineage r
  system : t.rows.system = some state

/-- Assigning and flushing the system row. -/
theorem systemSet_of_opened (opened : s.Opened t) (state : SystemExecutionState) :
    SystemSet s { t with rows := { t.objects with system := some state },
                         objects := { t.objects with system := some state } } state where
  settled := ⟨rfl, opened.settled.alone⟩
  clock := opened.clock
  registry := by
    simp only [opened.settled.flushed]
    exact opened.registry
  lineage r := by
    simp only [opened.settled.flushed]
    exact opened.lineage r
  system := rfl

variable {service : ExecutionService}

theorem enterRestoreQuarantine_ok (settled : s.Settled) {epoch : Nat}
    (h : service.enterRestoreQuarantine s = .ok epoch t) :
    ∃ now, SystemSet s t ⟨s.rows.executionEpoch + 1, true, now⟩ := by
  unfold ExecutionService.enterRestoreQuarantine at h
  rw [bind_eq_ok] at h
  obtain ⟨⟨⟩, u, hu, h⟩ := h
  obtain ⟨-, hs⟩ := raiseIf_eq_ok.mp hu
  subst u
  rw [bind_eq_ok] at h
  obtain ⟨now, u, hu, h⟩ := h
  obtain ⟨opened, -⟩ := Reads.opened .durableNow settled hu
  rw [bind_eq_ok] at h
  obtain ⟨state, v, hv, h⟩ := h
  obtain ⟨opened₂, -, hepoch, -⟩ := executionState_ok opened.settled hv
  rw [bind_of_ok (assign_apply _ _), bind_of_ok (flush_apply _)] at h
  injection h with _ ht
  subst ht
  refine ⟨now, ?_⟩
  rw [← opened.system.executionEpoch, ← hepoch]
  exact systemSet_of_opened (opened.trans opened₂) _

theorem clearRestoreQuarantine_ok (settled : s.Settled) {epoch : Nat}
    (h : service.clearRestoreQuarantine s = .ok epoch t) :
    s.rows.quarantined = true ∧ (∀ run ∈ s.rows.runs, run.status.active = false) ∧
      ∃ now, SystemSet s t ⟨s.rows.executionEpoch, false, now⟩ := by
  unfold ExecutionService.clearRestoreQuarantine at h
  rw [bind_eq_ok] at h
  obtain ⟨⟨⟩, u, hu, h⟩ := h
  obtain ⟨-, hs⟩ := raiseIf_eq_ok.mp hu
  subst u
  rw [bind_eq_ok] at h
  obtain ⟨state, u, hu, h⟩ := h
  obtain ⟨opened, -, hepoch, hquarantine⟩ := executionState_ok settled hu
  rw [bind_of_ok (query_apply _ _), bind_eq_ok] at h
  obtain ⟨⟨⟩, v, hv, h⟩ := h
  obtain ⟨guard, rfl⟩ := raiseIf_eq_ok.mp hv
  rw [not_or, Bool.not_eq_false, Bool.not_eq_true] at guard
  rw [bind_eq_ok] at h
  obtain ⟨now, w, hw, h⟩ := h
  obtain ⟨opened₂, hrows⟩ := Reads.opened .durableNow opened.settled hw
  rw [bind_of_ok (assign_apply _ _), bind_of_ok (flush_apply _)] at h
  injection h with _ ht
  subst ht
  refine ⟨hquarantine ▸ guard.1, ?_, now, ?_⟩
  · intro run mem
    have mem' : run ∈ v.rows.runs := by
      have := Store.mem_lineage_runs.mpr ⟨mem, rfl⟩
      rw [← opened.lineage] at this
      exact (Store.mem_lineage_runs.mp this).1
    exact List.any_eq_false.mp guard.2 run mem' |> Bool.eq_false_iff.mpr
  · rw [← hepoch]
    exact systemSet_of_opened (opened.trans opened₂) _

theorem mayEnd_restore {status : RunStatus} (live : status.terminal = false)
    (code : Option RunFailureCode) : MayEnd status (restoreStatus status) code := by
  refine ⟨live, ?_⟩
  unfold restoreStatus
  split_ifs with hs <;> exact hs

theorem reconcileRestoreQuarantine_ok (settled : s.Settled)
    (sound : s.rows.Sound limits s.clock) {batchSize : Int} {count : Nat}
    (h : service.reconcileRestoreQuarantine batchSize s = .ok count t) :
    s.Advanced t ∧ s.rows.quarantined = true := by
  unfold ExecutionService.reconcileRestoreQuarantine at h
  rw [bind_eq_ok] at h
  obtain ⟨⟨⟩, u, hu, h⟩ := h
  obtain ⟨-, hs⟩ := raiseIf_eq_ok.mp hu
  subst u
  rw [bind_eq_ok] at h
  obtain ⟨⟨⟩, u, hu, h⟩ := h
  obtain ⟨-, hs⟩ := raiseIf_eq_ok.mp hu
  subst u
  rw [bind_eq_ok] at h
  obtain ⟨state, u, hu, h⟩ := h
  obtain ⟨opened, -, -, hquarantine⟩ := executionState_ok settled hu
  rw [bind_eq_ok] at h
  obtain ⟨⟨⟩, v, hv, h⟩ := h
  obtain ⟨quarantined, rfl⟩ := raiseIf_eq_ok.mp hv
  rw [bind_eq_ok] at h
  obtain ⟨now, w, hw, h⟩ := h
  obtain ⟨opened₂, hrows⟩ := Reads.opened .durableNow opened.settled hw
  have both := opened.trans opened₂
  obtain ⟨runs, hruns, distinct, each⟩ := lockRuns_ok opened₂.settled.alone
    (both.evolves.sound sound) (fun run => run.status.active) runBeforeCreation batchSize.toNat
  rw [bind_of_ok hruns] at h
  obtain ⟨o, ho, evolves⟩ := terminalizeEach_ok opened₂.settled.flushed (fun run : Run => run)
    (fun run => restoreStatus run.status) now .restoreReconciliation .restoreReconciled rfl nofun
    distinct (by
      intro run mem
      obtain ⟨active, created, valid⟩ := each run mem
      refine ⟨mayEnd_restore (by simpa using active) _, created.trans ?_, valid⟩
      rw [(durableNow_eq_ok hw).1]
      exact both.clock)
  rw [bind_of_ok ho, bind_of_ok (flush_apply _)] at h
  injection h with _ ht
  subst ht
  exact ⟨both.advanced.trans (opened₂.settled.advanced evolves), hquarantine ▸ by simpa using quarantined⟩

/-! ## Retention -/

/-- Expiring the content of a run ends it when it is still active. -/
def Lineage.expire (l : Lineage) (run : Run) (now : Time) : Lineage :=
  (if run.status.terminal = false then
    l.finish run (deadlineStatus run.status) (some .contentRetentionDeadline) .contentExpired now
  else l.note run .contentExpired run.status run.safeErrorCode now).scrub now

theorem expireContent_ok {run : Run} {job : Job} {now : Time}
    (valid : (s.rows.lineage run.id).Valid limits run job) (sync : s.Synced run.id) :
    ∃ o, expireContent now run s = .ok () { s with objects := o } ∧
      s.objects.Edits run.id (fun l => l.expire run now) o := by
  have ended : ∃ o, endContent now run s = .ok () { s with objects := o } ∧
      s.objects.Edits run.id (fun l => if run.status.terminal = false then
        l.finish run (deadlineStatus run.status) (some .contentRetentionDeadline)
          .contentExpired now
      else l.note run .contentExpired run.status run.safeErrorCode now) o := by
    unfold endContent
    by_cases live : run.status.terminal = false
    · simp only [live, if_true]
      exact terminalizeRun_ok valid sync (mayEnd_deadline live none).terminal now
        .contentRetentionDeadline .contentExpired
    · simp only [live]
      exact appendNextEvent_ok valid.journal.numbered sync.events .contentExpired run.status
        run.safeErrorCode now
  obtain ⟨o, ho, edits⟩ := ended
  refine ⟨_, (bind_of_ok ho).trans (assign_apply _ _), ?_⟩
  exact edits.trans (Store.edits_setRun o run.id
    (fun r => { r with arguments := none, argumentDigest := none, updatedAt := now }) fun _ => rfl)

theorem steps_expire {l : Lineage} {run : Run} {job : Job} {now : Time}
    (valid : l.Valid limits run job) (created : run.createdAt ≤ now)
    (full : run.arguments.isSome = true) : Lineage.Steps l (l.expire run now) := by
  unfold Lineage.expire
  by_cases live : run.status.terminal = false
  · simp only [live, if_true]
    exact .single (.expire now valid.runs full (mayEnd_deadline live _) created)
  · simp only [live]
    exact .single (.forget _ now valid.runs full (by simpa using live))

theorem expireRetainedContent_ok (settled : s.Settled) (sound : s.rows.Sound limits s.clock)
    {batchSize : Int} {count : Nat} (h : expireRetainedContent batchSize s = .ok count t) :
    s.Advanced t := by
  unfold expireRetainedContent at h
  rw [bind_eq_ok] at h
  obtain ⟨⟨⟩, u, hu, h⟩ := h
  obtain ⟨-, hs⟩ := raiseIf_eq_ok.mp hu
  subst u
  rw [bind_eq_ok] at h
  obtain ⟨now, u, hu, h⟩ := h
  obtain ⟨opened, -⟩ := Reads.opened .durableNow settled hu
  have later := opened.clock
  rw [← (durableNow_eq_ok hu).1] at later
  obtain ⟨runs, hruns, distinct, each⟩ := lockRuns_ok opened.settled.alone
    (opened.evolves.sound sound)
    (fun run => run.arguments.isSome && decide (run.argumentsExpiresAt ≤ now)) runBeforeExpiry
    batchSize.toNat
  rw [bind_of_ok hruns] at h
  obtain ⟨o, ho, evolves⟩ := forM_evolves (f := expireContent now)
    (g := fun run l => l.expire run now) opened.settled.flushed
    (by
      intro run v hrows hl mem
      obtain ⟨-, -, job, valid⟩ := each run mem
      rw [← hrows] at valid hl
      exact expireContent_ok valid (.of_lineage_eq hl))
    distinct
    (by
      intro run mem
      obtain ⟨selected, created, job, valid⟩ := each run mem
      rw [Bool.and_eq_true] at selected
      exact steps_expire valid (created.trans later) selected.1)
  rw [bind_of_ok ho, bind_of_ok (flush_apply _)] at h
  injection h with _ ht
  subst ht
  exact opened.advanced.trans (opened.settled.advanced evolves)

/-- Metadata is deleted run by run, and only long after the run has ended. -/
theorem deleteExpiredRunMetadata_ok (settled : s.Settled) (sound : s.rows.Sound limits s.clock)
    {batchSize : Int} {count : Nat}
    (h : service.deleteExpiredRunMetadata batchSize s = .ok count t) :
    t.Settled ∧ s.clock ≤ t.clock ∧ ∃ ids, t.rows = s.rows.deleteRuns ids ∧
      ∀ r ∈ ids, ∃ run job terminalAt, (s.rows.lineage r).Valid limits run job ∧
        run.terminalAt = some terminalAt ∧
        terminalAt + days service.limits.runRetentionDays ≤ t.clock := by
  unfold ExecutionService.deleteExpiredRunMetadata at h
  rw [bind_eq_ok] at h
  obtain ⟨⟨⟩, u, hu, h⟩ := h
  obtain ⟨-, hs⟩ := raiseIf_eq_ok.mp hu
  subst u
  rw [bind_eq_ok] at h
  obtain ⟨now, u, hu, h⟩ := h
  obtain ⟨opened, hrows⟩ := Reads.opened .durableNow settled hu
  have hnow := (durableNow_eq_ok hu).1
  obtain ⟨runs, hruns, -, each⟩ := lockRuns_ok opened.settled.alone (opened.evolves.sound sound)
    (fun run => run.terminalAt.any fun terminalAt =>
      decide (terminalAt ≤ now - days service.limits.runRetentionDays))
    runBeforeTerminal batchSize.toNat
  rw [bind_of_ok hruns, bind_of_ok (execute_apply _ _)] at h
  injection h with _ ht
  subst ht
  have expired : ∀ r ∈ runs.map Run.id, ∃ run job terminalAt,
      (s.rows.lineage r).Valid limits run job ∧ run.terminalAt = some terminalAt ∧
      terminalAt + days service.limits.runRetentionDays ≤ u.clock := by
    intro r mem
    obtain ⟨run, hrun, rfl⟩ := List.mem_map.mp mem
    obtain ⟨old, -, job, valid⟩ := each run hrun
    obtain ⟨terminalAt, hsome, hle⟩ := (Option.any_eq_true _ _).mp old
    rw [hrows] at valid
    rw [decide_eq_true_eq] at hle
    exact ⟨run, job, terminalAt, valid, hsome, hnow ▸ Int.add_le_of_le_sub_right hle⟩
  exact ⟨⟨by rw [opened.settled.flushed], opened.settled.alone⟩, opened.clock, runs.map Run.id,
    by rw [hrows], expired⟩

theorem expireRetainedResults_ok (settled : s.Settled) (sound : s.rows.Sound limits s.clock)
    {batchSize : Int} {count : Nat} (h : expireRetainedResults batchSize s = .ok count t) :
    s.Advanced t := by
  unfold expireRetainedResults at h
  rw [bind_eq_ok] at h
  obtain ⟨⟨⟩, u, hu, h⟩ := h
  obtain ⟨-, hs⟩ := raiseIf_eq_ok.mp hu
  subst u
  rw [bind_eq_ok] at h
  obtain ⟨now, u, hu, h⟩ := h
  obtain ⟨opened, hrows⟩ := Reads.opened .durableNow settled hu
  rw [bind_of_ok (query_apply _ _), bind_of_ok (execute_apply _ _)] at h
  injection h with _ ht
  subst ht
  refine opened.advanced.trans ⟨⟨by rw [opened.settled.flushed], opened.settled.alone⟩,
    le_refl _, rfl, .inl rfl, fun r => ?_⟩
  rw [Store.lineage_deleteResults]
  split_ifs with hr
  · rcases opened.advanced.sound sound r with he | ⟨run, job, valid, -⟩
    · rw [he]
      exact .refl
    · exact .single (.dropResults (by simp [valid.runs]))
  · exact .refl

end Modall
