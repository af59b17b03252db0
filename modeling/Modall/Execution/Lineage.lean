import Modall.Persistence.Session

/-!
# The rows of one run

Everything the ledger keeps about a run hangs off it: one job, its attempts, its events, its
accepted result, the nonces consumed for it and its idempotency record. `Store.lineage` reads
these rows off a store. A store is determined by its registry, its system row, its audit trail
and the lineages of its runs, and the statements of the ledger act on one lineage at a time:
`Store.Edits` says so, and leaves everything else alone.
-/
namespace Modall
open Library

/-- The rows of one run, table by table. -/
@[ext] structure Lineage where
  runs : List Run
  jobs : List Job
  attempts : List RunAttempt
  events : List RunEvent
  results : List RunResult
  nonces : List ConfirmationNonce
  records : List IdempotencyRecord

namespace Lineage

/-- The rows of a run that does not exist. -/
def empty : Lineage := ⟨[], [], [], [], [], [], []⟩

def setRun (l : Lineage) (f : Run → Run) : Lineage := { l with runs := l.runs.map f }
def setJob (l : Lineage) (f : Job → Job) : Lineage := { l with jobs := l.jobs.map f }
def setAttempt (l : Lineage) (sequence : Nat) (f : RunAttempt → RunAttempt) : Lineage :=
  { l with attempts := updateWhere (fun a => a.sequence == sequence) f l.attempts }
def addAttempt (l : Lineage) (attempt : RunAttempt) : Lineage :=
  { l with attempts := l.attempts ++ [attempt] }
def addEvent (l : Lineage) (event : RunEvent) : Lineage :=
  { l with events := l.events ++ [event] }
def addResult (l : Lineage) (result : RunResult) : Lineage :=
  { l with results := l.results ++ [result] }
def addNonce (l : Lineage) (nonce : ConfirmationNonce) : Lineage :=
  { l with nonces := l.nonces ++ [nonce] }
def dropResults (l : Lineage) : Lineage := { l with results := [] }

end Lineage

namespace Store

def lineage (s : Store) (r : Uuid) : Lineage where
  runs := s.runs.filter fun run => run.id == r
  jobs := s.jobs.filter fun job => job.runId == r
  attempts := s.attempts.filter fun attempt => attempt.runId == r
  events := s.events.filter fun event => event.runId == r
  results := s.results.filter fun result => result.runId == r
  nonces := s.nonces.filter fun nonce => nonce.runId == r
  records := s.records.filter fun record => record.resourceId == r

section Membership
variable {s : Store} {r : Uuid}

theorem mem_lineage_runs {run : Run} : run ∈ (s.lineage r).runs ↔ run ∈ s.runs ∧ run.id = r := by
  simp [lineage]
theorem mem_lineage_jobs {job : Job} :
    job ∈ (s.lineage r).jobs ↔ job ∈ s.jobs ∧ job.runId = r := by simp [lineage]
theorem mem_lineage_attempts {a : RunAttempt} :
    a ∈ (s.lineage r).attempts ↔ a ∈ s.attempts ∧ a.runId = r := by simp [lineage]
theorem mem_lineage_events {e : RunEvent} :
    e ∈ (s.lineage r).events ↔ e ∈ s.events ∧ e.runId = r := by simp [lineage]
theorem mem_lineage_results {x : RunResult} :
    x ∈ (s.lineage r).results ↔ x ∈ s.results ∧ x.runId = r := by simp [lineage]
theorem mem_lineage_nonces {n : ConfirmationNonce} :
    n ∈ (s.lineage r).nonces ↔ n ∈ s.nonces ∧ n.runId = r := by simp [lineage]
theorem mem_lineage_records {record : IdempotencyRecord} :
    record ∈ (s.lineage r).records ↔ record ∈ s.records ∧ record.resourceId = r := by
  simp [lineage]

end Membership

/-- One store is another with the lineage of `r` changed by `g`, audit events apart. -/
structure Edits (r : Uuid) (g : Lineage → Lineage) (s t : Store) : Prop where
  registry : t.registry = s.registry
  system : t.system = s.system
  self : t.lineage r = g (s.lineage r)
  other : ∀ q, q ≠ r → t.lineage q = s.lineage q

section Edits
variable {r : Uuid} {s t u : Store} {g h : Lineage → Lineage}

theorem Edits.trans (first : Edits r g s t) (second : Edits r h t u) :
    Edits r (fun l => h (g l)) s u where
  registry := second.registry.trans first.registry
  system := second.system.trans first.system
  self := by rw [second.self, first.self]
  other q hq := (second.other q hq).trans (first.other q hq)

/-- What an edit does matters only at the lineage it finds. -/
theorem Edits.congr (first : Edits r g s t) (eq : g (s.lineage r) = h (s.lineage r)) :
    Edits r h s t := { first with self := first.self.trans eq }

theorem edits_setRun (s : Store) (r : Uuid) (f : Run → Run) (hf : ∀ run, (f run).id = run.id) :
    Edits r (fun l => l.setRun f) s (s.setRun r f) where
  registry := rfl
  system := rfl
  self := by
    simp only [lineage, setRun, Lineage.setRun, Lineage.mk.injEq, and_self, and_true]
    rw [filter_updateWhere _ fun row _ => by rw [hf]]
    exact updateWhere_eq_map fun row hr => (List.mem_filter.mp hr).2
  other q hq := by
    simp only [lineage, setRun, Lineage.mk.injEq, and_self, and_true]
    refine filter_updateWhere_of_disjoint _ (fun row _ => by rw [hf]) fun row hr => ?_
    have : row.id = q := by simpa using hr
    simp [this, hq]

theorem edits_setJob (s : Store) (r : Uuid) (f : Job → Job)
    (hf : ∀ job, (f job).runId = job.runId) :
    Edits r (fun l => l.setJob f) s (s.setJob r f) where
  registry := rfl
  system := rfl
  self := by
    simp only [lineage, setJob, Lineage.setJob, Lineage.mk.injEq, and_self, and_true, true_and]
    rw [filter_updateWhere _ fun row _ => by rw [hf]]
    exact updateWhere_eq_map fun row hr => (List.mem_filter.mp hr).2
  other q hq := by
    simp only [lineage, setJob, Lineage.mk.injEq, and_self, and_true, true_and]
    refine filter_updateWhere_of_disjoint _ (fun row _ => by rw [hf]) fun row hr => ?_
    have : row.runId = q := by simpa using hr
    simp [this, hq]

theorem edits_setAttempt (s : Store) (r : Uuid) (sequence : Nat) (f : RunAttempt → RunAttempt)
    (hf : ∀ a, (f a).runId = a.runId) :
    Edits r (fun l => l.setAttempt sequence f) s (s.setAttempt r sequence f) where
  registry := rfl
  system := rfl
  self := by
    simp only [lineage, setAttempt, Lineage.setAttempt, Lineage.mk.injEq, and_self, and_true,
      true_and]
    rw [filter_updateWhere _ fun row _ => by rw [hf]]
    exact updateWhere_congr fun row hr => by simp [(List.mem_filter.mp hr).2]
  other q hq := by
    simp only [lineage, setAttempt, Lineage.mk.injEq, and_self, and_true, true_and]
    refine filter_updateWhere_of_disjoint _ (fun row _ => by rw [hf]) fun row hr => ?_
    have : row.runId = q := by simpa using hr
    simp [this, hq]

theorem edits_addAttempt (s : Store) (a : RunAttempt) :
    Edits a.runId (fun l => l.addAttempt a) s (s.addAttempt a) where
  registry := rfl
  system := rfl
  self := by simp [lineage, addAttempt, Lineage.addAttempt]
  other q hq := by simp [lineage, addAttempt, hq.symm]

theorem edits_addEvent (s : Store) (e : RunEvent) :
    Edits e.runId (fun l => l.addEvent e) s (s.addEvent e) where
  registry := rfl
  system := rfl
  self := by simp [lineage, addEvent, Lineage.addEvent]
  other q hq := by simp [lineage, addEvent, hq.symm]

theorem edits_addResult (s : Store) (result : RunResult) :
    Edits result.runId (fun l => l.addResult result) s (s.addResult result) where
  registry := rfl
  system := rfl
  self := by simp [lineage, addResult, Lineage.addResult]
  other q hq := by simp [lineage, addResult, hq.symm]

theorem edits_addNonce (s : Store) (nonce : ConfirmationNonce) :
    Edits nonce.runId (fun l => l.addNonce nonce) s (s.addNonce nonce) where
  registry := rfl
  system := rfl
  self := by simp [lineage, addNonce, Lineage.addNonce]
  other q hq := by simp [lineage, addNonce, hq.symm]

theorem edits_addAudit (s : Store) (r : Uuid) (event : AuditEvent) :
    Edits r (fun l => l) s (s.addAudit event) := ⟨rfl, rfl, rfl, fun _ _ => rfl⟩

end Edits

theorem lineage_deleteRuns (s : Store) (ids : List Uuid) (r : Uuid) :
    (s.deleteRuns ids).lineage r = if r ∈ ids then .empty else s.lineage r := by
  split_ifs with h
  · simp only [lineage, deleteRuns, Lineage.empty, List.filter_filter, Lineage.mk.injEq,
      List.filter_eq_nil_iff]
    refine ⟨?_, ?_, ?_, ?_, ?_, ?_, ?_⟩ <;>
    · intro row _ hr
      simp only [Bool.and_eq_true, beq_iff_eq, decide_eq_true_eq] at hr
      exact hr.2 (hr.1 ▸ h)
  · simp only [lineage, deleteRuns, List.filter_filter, Lineage.mk.injEq]
    refine ⟨?_, ?_, ?_, ?_, ?_, ?_, ?_⟩ <;>
    · refine List.filter_congr fun row _ => ?_
      rw [Bool.and_eq_left_iff_imp]
      intro hr
      simpa [(beq_iff_eq.mp hr)] using h

theorem lineage_deleteResults (s : Store) (ids : List Uuid) (r : Uuid) :
    (s.deleteResults ids).lineage r =
      if r ∈ ids then (s.lineage r).dropResults else s.lineage r := by
  split_ifs with h
  · simp only [lineage, deleteResults, Lineage.dropResults, List.filter_filter,
      Lineage.mk.injEq, List.filter_eq_nil_iff, true_and, and_true]
    intro row _ hr
    simp only [Bool.and_eq_true, beq_iff_eq, decide_eq_true_eq] at hr
    exact hr.2 (hr.1 ▸ h)
  · simp only [lineage, deleteResults, List.filter_filter, Lineage.mk.injEq, true_and, and_true]
    refine List.filter_congr fun row _ => ?_
    rw [Bool.and_eq_left_iff_imp]
    intro hr
    simpa [(beq_iff_eq.mp hr)] using h

end Store

end Modall
