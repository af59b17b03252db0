import Mathlib
import Modall.Registry.Discovery

/-!
# The refresh protocol of one connection

What the registry keeps about the refreshes of a connection, stated for the rows of a single
connection: the connection itself, its refresh jobs and the snapshots it has published.
`Docket.Step` lists what operators and workers may do to them, `Docket.publish` what a successful
publication does, and `Docket.Valid` what holds in between: an allocation and its one outstanding
job come and go together.
-/
namespace Modall
open Library

/-- The rows of one connection, table by table. -/
@[ext] structure Docket where
  connections : List ServerConnection
  jobs : List DiscoveryRefreshJob
  snapshots : List DiscoverySnapshot

namespace Docket

/-- The rows of a connection that does not exist. -/
def empty : Docket := ⟨[], [], []⟩

def put (d : Docket) (connection : ServerConnection) : Docket :=
  { d with connections := d.connections.map fun _ => connection }
def setJob (d : Docket) (id : Uuid) (f : DiscoveryRefreshJob → DiscoveryRefreshJob) : Docket :=
  { d with jobs := updateWhere (fun job => job.id == id) f d.jobs }
def obsoleteJobs (d : Docket) : Docket :=
  { d with jobs := updateWhere (fun job => job.outstanding) .obsoleted d.jobs }
def addJob (d : Docket) (job : DiscoveryRefreshJob) : Docket := { d with jobs := d.jobs ++ [job] }
def addSnapshot (d : Docket) (snapshot : DiscoverySnapshot) : Docket :=
  { d with snapshots := d.snapshots ++ [snapshot] }

/-- The queued and leased jobs. -/
def outstanding (d : Docket) : List DiscoveryRefreshJob := d.jobs.filter fun job => job.outstanding

end Docket

namespace ServerConnection

/-- The row that results when an operator intervenes. -/
def intervened (c : ServerConnection) (lifecycle : ConnectionLifecycle) (pending : Option Uuid) :
    ServerConnection :=
  releaseAllocation
    { c with pendingVersionId := pending, lifecycle, controlEpoch := c.controlEpoch + 1 }

/-- `allocate_refresh_generation` on the row. -/
def allocate (c : ServerConnection) (versionId : Uuid) : ServerConnection :=
  { c with
    lifecycle := if c.pendingVersionId ≠ none ∧ c.lifecycle = .degraded then .verifying
      else c.lifecycle
    refreshGeneration := c.refreshGeneration + 1
    allocatedControlEpoch := some c.controlEpoch
    allocatedTargetVersionId := some versionId }

/-- The row that `publish_failure` leaves behind. -/
def degraded (c : ServerConnection) (code : DiscoveryFailureCode) (now : Time) :
    ServerConnection :=
  releaseAllocation
    { c with lifecycle := .degraded, lastRefreshErrorCode := some code, lastRefreshAt := some now }

/-- The row that `publish_success` leaves behind. -/
def published (c : ServerConnection) (versionId snapshotId : Uuid) (now : Time) :
    ServerConnection :=
  { c with
    lifecycle := .active
    pendingVersionId := none
    verifiedVersionId := some versionId
    allocatedControlEpoch := none
    allocatedTargetVersionId := none
    currentSnapshotId := some snapshotId
    lastRefreshErrorCode := none
    lastRefreshAt := some now }

end ServerConnection

/-- A job that no worker will hold again. -/
def DiscoveryRefreshJob.closed (status : RefreshJobStatus) (job : DiscoveryRefreshJob) :
    DiscoveryRefreshJob :=
  { job with status, leaseOwner := none, leaseExpiresAt := none }

namespace Docket

/-! ## Steps -/

/-- What may happen to the rows of a connection, a successful publication apart. -/
inductive Step : Docket → Docket → Prop where
  /-- A version is appended or the connection disabled, and outstanding work withdrawn. -/
  | intervene {d c} (lifecycle : ConnectionLifecycle) (pending : Option Uuid) :
      d.connections = [c] → lifecycle = .verifying ∨ lifecycle = .disabled →
      Step d (d.put (c.intervened lifecycle pending)).obsoleteJobs
  /-- A disabled connection is enabled again. -/
  | reopen {d c} : d.connections = [c] → c.lifecycle = .disabled →
      Step d (d.put (c.intervened .verifying c.pendingVersionId))
  /-- A refresh is allocated and queued; it supersedes what was outstanding. -/
  | enqueue {d c versionId job} : d.connections = [c] → c.lifecycle ≠ .disabled →
      c.target = some versionId → job.status = .queued →
      job.generation = c.refreshGeneration + 1 → job.controlEpoch = c.controlEpoch →
      job.connectionVersionId = versionId → job.workspaceId = c.workspaceId →
      job.id ∉ d.jobs.map DiscoveryRefreshJob.id →
      Step d ((d.put (c.allocate versionId)).obsoleteJobs.addJob job)
  /-- A worker takes the job, or takes it over. -/
  | claim {d job} (workerId : String) (expiresAt : Time) : job ∈ d.jobs →
      job.outstanding = true →
      Step d (d.setJob job.id fun _ => { job with
        status := .leased, leaseOwner := some workerId, leaseEpoch := job.leaseEpoch + 1,
        leaseExpiresAt := some expiresAt })
  | renew {d job} (expiresAt : Time) : job ∈ d.jobs → job.status = .leased →
      Step d (d.setJob job.id fun _ => { job with leaseExpiresAt := some expiresAt })
  | fail {d c job} (code : DiscoveryFailureCode) (now : Time) : d.connections = [c] →
      job ∈ d.jobs → job.status = .leased →
      Step d ((d.put (c.degraded code now)).setJob job.id fun _ => job.closed .failed)

/-- A successful publication. -/
def publish (d : Docket) (c : ServerConnection) (job : DiscoveryRefreshJob)
    (snapshot : DiscoverySnapshot) (now : Time) : Docket :=
  ((d.addSnapshot snapshot).put (c.published job.connectionVersionId snapshot.id now)).setJob
    job.id fun _ => job.closed .succeeded

/-! ## The invariant -/

/-- Nothing is allocated and no job outstanding, or one job is and matches the allocation. A
pending version is refreshed only while the connection is being verified. -/
inductive Allocation (c : ServerConnection) (d : Docket) : Prop where
  | free : c.allocatedControlEpoch = none → c.allocatedTargetVersionId = none →
      d.outstanding = [] → Allocation c d
  | held {job : DiscoveryRefreshJob} :
      c.allocatedControlEpoch = some c.controlEpoch →
      c.allocatedTargetVersionId = some job.connectionVersionId →
      c.target = some job.connectionVersionId → c.lifecycle ≠ .disabled →
      (c.pendingVersionId ≠ none → c.lifecycle = .verifying) → d.outstanding = [job] →
      job.generation = c.refreshGeneration → job.controlEpoch = c.controlEpoch →
      (∀ snapshot ∈ d.snapshots, snapshot.generation < c.refreshGeneration) → Allocation c d

/-- The rows of an existing connection belong together. -/
structure Valid (d : Docket) (c : ServerConnection) : Prop where
  connections : d.connections = [c]
  allocation : Allocation c d
  idle : c.pendingVersionId ≠ none → c.lifecycle ≠ .active
  jobs : ∀ job ∈ d.jobs, job.workspaceId = c.workspaceId
  distinct : (d.jobs.map DiscoveryRefreshJob.id).Nodup
  increasing : d.snapshots.Pairwise fun a b => a.generation < b.generation
  bounded : ∀ snapshot ∈ d.snapshots, snapshot.generation ≤ c.refreshGeneration
  named : (d.snapshots.map DiscoverySnapshot.id).Nodup
  current : c.currentSnapshotId = d.snapshots.getLast?.map DiscoverySnapshot.id

/-- What a later state of the rows owes to an earlier one. -/
structure Continues (d : Docket) (c : ServerConnection) (d' : Docket) (c' : ServerConnection) :
    Prop where
  id : c'.id = c.id
  workspaceId : c'.workspaceId = c.workspaceId
  epoch : c.controlEpoch ≤ c'.controlEpoch
  kept : c'.controlEpoch = c.controlEpoch → c.pendingVersionId = none →
    c'.pendingVersionId = none ∧ c'.verifiedVersionId = c.verifiedVersionId
  jobs : ∀ job ∈ d.jobs, ∃ job' ∈ d'.jobs, job'.id = job.id ∧ job.leaseEpoch ≤ job'.leaseEpoch ∧
    (job.outstanding = false → job' = job)
  snapshots : d.snapshots <+: d'.snapshots

theorem Continues.refl (d : Docket) (c : ServerConnection) : Continues d c d c where
  id := rfl
  workspaceId := rfl
  epoch := Nat.le_refl _
  kept _ h := ⟨h, rfl⟩
  jobs job mem := ⟨job, mem, rfl, Nat.le_refl _, fun _ => rfl⟩
  snapshots := List.prefix_rfl

theorem Continues.trans {d d' d'' : Docket} {c c' c'' : ServerConnection}
    (h : Continues d c d' c') (g : Continues d' c' d'' c'') : Continues d c d'' c'' where
  id := g.id.trans h.id
  workspaceId := g.workspaceId.trans h.workspaceId
  epoch := h.epoch.trans g.epoch
  kept same none := by
    have first := h.epoch
    have second := g.epoch
    obtain ⟨none', verified⟩ := h.kept (by omega) none
    obtain ⟨none'', verified'⟩ := g.kept (by omega) none'
    exact ⟨none'', verified'.trans verified⟩
  jobs job mem := by
    obtain ⟨job', mem', hid, hle, dead⟩ := h.jobs job mem
    obtain ⟨job'', mem'', hid', hle', dead'⟩ := g.jobs job' mem'
    refine ⟨job'', mem'', hid'.trans hid, hle.trans hle', fun gone => ?_⟩
    obtain rfl := dead gone
    exact dead' gone
  snapshots := h.snapshots.trans g.snapshots

/-! ## Every step keeps the invariant -/

section Jobs
variable {d : Docket} {c : ServerConnection} {job job' : DiscoveryRefreshJob}

theorem mem_outstanding : job ∈ d.outstanding ↔ job ∈ d.jobs ∧ job.outstanding = true :=
  List.mem_filter

theorem outstanding_of_leased (h : job.status = .leased) : job.outstanding = true := by
  simp [DiscoveryRefreshJob.outstanding, h]

theorem outstanding_obsoleteJobs (d : Docket) : d.obsoleteJobs.outstanding = [] := by
  refine List.filter_eq_nil_iff.mpr fun job mem => ?_
  obtain ⟨old, -, rfl⟩ := mem_updateWhere.mp mem
  by_cases h : old.outstanding = true
  · rw [if_pos h]
    exact nofun
  · rw [if_neg h]
    exact h

theorem ids_obsoleteJobs (d : Docket) :
    d.obsoleteJobs.jobs.map DiscoveryRefreshJob.id = d.jobs.map DiscoveryRefreshJob.id :=
  map_updateWhere d.jobs fun _ _ => rfl

theorem distinct_setJob (distinct : (d.jobs.map DiscoveryRefreshJob.id).Nodup)
    (h : job'.id = job.id) :
    ((d.setJob job.id fun _ => job').jobs.map DiscoveryRefreshJob.id).Nodup := by
  have ids := map_updateWhere (p := fun row => row.id == job.id) (f := fun _ => job')
    (g := DiscoveryRefreshJob.id) d.jobs fun _ hr => h.trans (beq_iff_eq.mp hr).symm
  exact ids.symm ▸ distinct

/-- While there is an allocation there is one outstanding job, and it is the one in hand. -/
theorem Allocation.held_by (allocation : Allocation c d) (mem : job ∈ d.jobs)
    (live : job.outstanding = true) :
    c.allocatedControlEpoch = some c.controlEpoch ∧
      c.allocatedTargetVersionId = some job.connectionVersionId ∧
      c.target = some job.connectionVersionId ∧ c.lifecycle ≠ .disabled ∧
      (c.pendingVersionId ≠ none → c.lifecycle = .verifying) ∧ d.outstanding = [job] ∧
      job.generation = c.refreshGeneration ∧ job.controlEpoch = c.controlEpoch ∧
      ∀ snapshot ∈ d.snapshots, snapshot.generation < c.refreshGeneration := by
  have mine := mem_outstanding.mpr ⟨mem, live⟩
  cases allocation with
  | free _ _ none =>
    rw [none] at mine
    cases mine
  | held h₁ h₂ h₃ h₄ h₅ only h₆ h₇ h₈ =>
    rw [only, List.mem_singleton] at mine
    subst mine
    exact ⟨h₁, h₂, h₃, h₄, h₅, only, h₆, h₇, h₈⟩

/-- What becomes of the outstanding jobs when the one that is outstanding changes. -/
theorem outstanding_setJob (distinct : (d.jobs.map DiscoveryRefreshJob.id).Nodup)
    (only : d.outstanding = [job]) (job' : DiscoveryRefreshJob) :
    (d.setJob job.id fun _ => job').outstanding = if job'.outstanding then [job'] else [] :=
  filter_updateWhere_only distinct only

theorem workspace_setJob {workspaceId : Uuid} (jobs : ∀ job ∈ d.jobs, job.workspaceId = workspaceId)
    (mem : job ∈ d.jobs) (same : job'.workspaceId = job.workspaceId) :
    ∀ row ∈ (d.setJob job.id fun _ => job').jobs, row.workspaceId = workspaceId := by
  intro row hr
  obtain ⟨old, hold, rfl⟩ := mem_updateWhere.mp hr
  split_ifs
  · exact same.trans (jobs job mem)
  · exact jobs old hold

theorem workspace_obsoleteJobs {workspaceId : Uuid}
    (jobs : ∀ job ∈ d.jobs, job.workspaceId = workspaceId) :
    ∀ row ∈ d.obsoleteJobs.jobs, row.workspaceId = workspaceId := by
  intro row hr
  obtain ⟨old, hold, rfl⟩ := mem_updateWhere.mp hr
  split_ifs <;> exact jobs old hold

/-- A job that was outstanding may change, with its lease epoch counting up. -/
theorem jobs_setJob (distinct : (d.jobs.map DiscoveryRefreshJob.id).Nodup) (mem : job ∈ d.jobs)
    (live : job.outstanding = true) (hid : job'.id = job.id)
    (hle : job.leaseEpoch ≤ job'.leaseEpoch) :
    ∀ row ∈ d.jobs, ∃ row' ∈ (d.setJob job.id fun _ => job').jobs, row'.id = row.id ∧
      row.leaseEpoch ≤ row'.leaseEpoch ∧ (row.outstanding = false → row' = row) := by
  intro row hr
  by_cases same : row.id = job.id
  · obtain rfl := List.inj_on_of_nodup_map distinct hr mem same
    exact ⟨job', mem_updateWhere.mpr ⟨row, hr, by simp⟩, hid, hle, by simp [live]⟩
  · exact ⟨row, mem_updateWhere.mpr ⟨row, hr, by simp [same]⟩, rfl, Nat.le_refl _, fun _ => rfl⟩

theorem jobs_obsoleteJobs (d : Docket) :
    ∀ row ∈ d.jobs, ∃ row' ∈ d.obsoleteJobs.jobs, row'.id = row.id ∧
      row.leaseEpoch ≤ row'.leaseEpoch ∧ (row.outstanding = false → row' = row) := by
  intro row hr
  by_cases live : row.outstanding = true
  · exact ⟨row.obsoleted, mem_updateWhere.mpr ⟨row, hr, by simp [live]⟩, rfl, Nat.le_refl _,
      by simp [live]⟩
  · exact ⟨row, mem_updateWhere.mpr ⟨row, hr, by simp [live]⟩, rfl, Nat.le_refl _, fun _ => rfl⟩

end Jobs

section Sound
variable {d d' : Docket} {c : ServerConnection} {job job' : DiscoveryRefreshJob}

theorem Valid.intervene (h : Valid d c) {lifecycle : ConnectionLifecycle} {pending : Option Uuid}
    (hl : lifecycle = .verifying ∨ lifecycle = .disabled) :
    Valid (d.put (c.intervened lifecycle pending)).obsoleteJobs
        (c.intervened lifecycle pending) ∧
      Continues d c (d.put (c.intervened lifecycle pending)).obsoleteJobs
        (c.intervened lifecycle pending) := by
  constructor
  · exact {
      connections := by simp [obsoleteJobs, put, h.connections]
      allocation := .free rfl rfl (outstanding_obsoleteJobs _)
      idle := fun _ => by rcases hl with rfl | rfl <;> exact nofun
      jobs := workspace_obsoleteJobs (d := d.put _) h.jobs
      distinct := (ids_obsoleteJobs (d.put _)).symm ▸ h.distinct
      increasing := h.increasing
      bounded := h.bounded
      named := h.named
      current := h.current }
  · exact {
      id := rfl
      workspaceId := rfl
      epoch := Nat.le_succ _
      kept := fun same => (Nat.succ_ne_self _ same).elim
      jobs := jobs_obsoleteJobs (d.put _)
      snapshots := List.prefix_rfl }

/-- A disabled connection has nothing outstanding. -/
theorem Valid.free_of_disabled (h : Valid d c) (disabled : c.lifecycle = .disabled) :
    d.outstanding = [] := by
  cases h.allocation with
  | free _ _ none => exact none
  | held _ _ _ live => exact (live disabled).elim

theorem Valid.reopen (h : Valid d c) (disabled : c.lifecycle = .disabled) :
    Valid (d.put (c.intervened .verifying c.pendingVersionId))
        (c.intervened .verifying c.pendingVersionId) ∧
      Continues d c (d.put (c.intervened .verifying c.pendingVersionId))
        (c.intervened .verifying c.pendingVersionId) := by
  constructor
  · exact { h with
      connections := by simp [put, h.connections]
      allocation := .free rfl rfl (h.free_of_disabled disabled)
      idle := fun _ => nofun }
  · exact { Continues.refl d c with
      epoch := Nat.le_succ _
      kept := fun same => (Nat.succ_ne_self _ same).elim }

theorem Valid.enqueue (h : Valid d c) {versionId : Uuid} (open' : c.lifecycle ≠ .disabled)
    (target : c.target = some versionId) (queued : job.status = .queued)
    (generation : job.generation = c.refreshGeneration + 1)
    (epoch : job.controlEpoch = c.controlEpoch) (version : job.connectionVersionId = versionId)
    (workspace : job.workspaceId = c.workspaceId)
    (fresh : job.id ∉ d.jobs.map DiscoveryRefreshJob.id) :
    Valid ((d.put (c.allocate versionId)).obsoleteJobs.addJob job) (c.allocate versionId) ∧
      Continues d c ((d.put (c.allocate versionId)).obsoleteJobs.addJob job)
        (c.allocate versionId) := by
  subst version
  have live : job.outstanding = true := by simp [DiscoveryRefreshJob.outstanding, queued]
  have only : ((d.put (c.allocate job.connectionVersionId)).obsoleteJobs.addJob job).outstanding =
      [job] := by
    have none := outstanding_obsoleteJobs (d.put (c.allocate job.connectionVersionId))
    unfold outstanding at none
    simp [outstanding, addJob, List.filter_append, none, live]
  constructor
  · refine {
      connections := by simp [addJob, obsoleteJobs, put, h.connections]
      allocation := .held rfl rfl target ?_ ?_ only generation epoch fun snapshot mem =>
        Nat.lt_succ_of_le (h.bounded snapshot mem)
      idle := fun pending => ?_
      jobs := ?_
      distinct := ?_
      increasing := h.increasing
      bounded := fun snapshot mem => Nat.le_succ_of_le (h.bounded snapshot mem)
      named := h.named
      current := h.current }
    · unfold ServerConnection.allocate
      dsimp only
      split_ifs
      · exact nofun
      · exact open'
    · intro pending
      have idle := h.idle pending
      unfold ServerConnection.allocate
      dsimp only
      split_ifs with degraded
      · rfl
      · rw [not_and] at degraded
        have := degraded pending
        cases hl : c.lifecycle <;> simp_all
    · have idle := h.idle pending
      unfold ServerConnection.allocate
      dsimp only
      split_ifs
      · exact nofun
      · exact idle
    · intro row mem
      rcases List.mem_append.mp mem with mem | mem
      · exact workspace_obsoleteJobs (d := d.put _) h.jobs row mem
      · rw [List.mem_singleton.mp mem]
        exact workspace
    · rw [addJob, List.map_append, ids_obsoleteJobs]
      exact h.distinct.append (List.nodup_singleton _) (by simpa using fresh)
  · exact {
      id := rfl
      workspaceId := rfl
      epoch := Nat.le_refl _
      kept := fun _ none => ⟨none, rfl⟩
      jobs := fun row mem => by
        obtain ⟨row', mem', rest⟩ := jobs_obsoleteJobs (d.put (c.allocate _)) row mem
        exact ⟨row', List.mem_append_left _ mem', rest⟩
      snapshots := List.prefix_rfl }

/-- The outstanding job is leased or its lease extended. -/
theorem Valid.relet (h : Valid d c) (mem : job ∈ d.jobs) (live : job.outstanding = true)
    (live' : job'.outstanding = true) (hid : job'.id = job.id)
    (workspace : job'.workspaceId = job.workspaceId)
    (version : job'.connectionVersionId = job.connectionVersionId)
    (generation : job'.generation = job.generation) (epoch : job'.controlEpoch = job.controlEpoch)
    (hle : job.leaseEpoch ≤ job'.leaseEpoch) :
    Valid (d.setJob job.id fun _ => job') c ∧
      Continues d c (d.setJob job.id fun _ => job') c := by
  obtain ⟨h₁, h₂, h₃, h₄, h₅, only, h₆, h₇, h₈⟩ := h.allocation.held_by mem live
  rw [← version] at h₂ h₃
  rw [← generation] at h₆
  rw [← epoch] at h₇
  have only' := outstanding_setJob h.distinct only job'
  rw [if_pos live'] at only'
  constructor
  · exact { h with
      allocation := .held h₁ h₂ h₃ h₄ h₅ only' h₆ h₇ h₈
      jobs := workspace_setJob h.jobs mem workspace
      distinct := distinct_setJob h.distinct hid }
  · exact { Continues.refl d c with jobs := jobs_setJob h.distinct mem live hid hle }

theorem closed_not_outstanding (job : DiscoveryRefreshJob) {status : RefreshJobStatus}
    (h : status = .succeeded ∨ status = .failed) : (job.closed status).outstanding = false := by
  rcases h with rfl | rfl <;> rfl

theorem Valid.fail (h : Valid d c) (code : DiscoveryFailureCode) (now : Time)
    (mem : job ∈ d.jobs) (leased : job.status = .leased) :
    Valid ((d.put (c.degraded code now)).setJob job.id fun _ => job.closed .failed)
        (c.degraded code now) ∧
      Continues d c ((d.put (c.degraded code now)).setJob job.id fun _ => job.closed .failed)
        (c.degraded code now) := by
  have live := outstanding_of_leased leased
  obtain ⟨-, -, -, -, -, only, -, -, -⟩ := h.allocation.held_by mem live
  have none := outstanding_setJob (d := d.put (c.degraded code now)) h.distinct only
    (job.closed .failed)
  rw [closed_not_outstanding job (.inr rfl)] at none
  constructor
  · exact {
      connections := by simp [setJob, put, h.connections]
      allocation := .free rfl rfl none
      idle := fun _ => nofun
      jobs := workspace_setJob (d := d.put _) h.jobs mem rfl
      distinct := distinct_setJob (d := d.put _) h.distinct rfl
      increasing := h.increasing
      bounded := h.bounded
      named := h.named
      current := h.current }
  · exact {
      id := rfl
      workspaceId := rfl
      epoch := Nat.le_refl _
      kept := fun _ none => ⟨none, rfl⟩
      jobs := jobs_setJob (d := d.put _) h.distinct mem live rfl (Nat.le_refl _)
      snapshots := List.prefix_rfl }

/-- The published snapshot is the newest, and the version it was taken of the verified one. -/
theorem Valid.publish (h : Valid d c) {snapshot : DiscoverySnapshot} (now : Time)
    (mem : job ∈ d.jobs) (leased : job.status = .leased)
    (generation : snapshot.generation = job.generation)
    (fresh : snapshot.id ∉ d.snapshots.map DiscoverySnapshot.id) :
    Valid (d.publish c job snapshot now)
        (c.published job.connectionVersionId snapshot.id now) ∧
      Continues d c (d.publish c job snapshot now)
        (c.published job.connectionVersionId snapshot.id now) := by
  have live := outstanding_of_leased leased
  obtain ⟨-, -, target, -, -, only, hgen, -, older⟩ := h.allocation.held_by mem live
  let d₁ := (d.addSnapshot snapshot).put (c.published job.connectionVersionId snapshot.id now)
  have none := outstanding_setJob (d := d₁) h.distinct only (job.closed .succeeded)
  rw [closed_not_outstanding job (.inl rfl)] at none
  constructor
  · refine {
      connections := by simp [Docket.publish, setJob, put, addSnapshot, h.connections]
      allocation := .free rfl rfl none
      idle := fun pending => (pending rfl).elim
      jobs := workspace_setJob (d := d₁) h.jobs mem rfl
      distinct := distinct_setJob (d := d₁) h.distinct rfl
      increasing := ?_
      bounded := ?_
      named := ?_
      current := by simp [Docket.publish, setJob, put, addSnapshot, ServerConnection.published] }
    · refine List.pairwise_append.mpr ⟨h.increasing, List.pairwise_singleton _ _, ?_⟩
      intro old hold new hnew
      rw [List.mem_singleton.mp hnew, generation, hgen]
      exact older old hold
    · intro row hr
      rcases List.mem_append.mp hr with hr | hr
      · exact h.bounded row hr
      · rw [List.mem_singleton.mp hr, generation, hgen]
        exact Nat.le_refl _
    · change ((d.snapshots ++ [snapshot]).map DiscoverySnapshot.id).Nodup
      rw [List.map_append]
      exact h.named.append (List.nodup_singleton _) (by simpa using fresh)
  · refine {
      id := rfl
      workspaceId := rfl
      epoch := Nat.le_refl _
      kept := fun _ none => ⟨rfl, ?_⟩
      jobs := jobs_setJob (d := d₁) h.distinct mem live rfl (Nat.le_refl _)
      snapshots := List.prefix_append _ _ }
    rw [ServerConnection.target, none, Option.none_or] at target
    exact target.symm

theorem Valid.eq_of_connections {d : Docket} {c c' : ServerConnection} (h : Valid d c)
    (hc : d.connections = [c']) : c' = c := by
  rw [h.connections] at hc
  exact (List.cons.inj hc).1.symm

/-- What any step keeps. -/
theorem Step.sound (step : Step d d') (h : Valid d c) :
    ∃ c', Valid d' c' ∧ Continues d c d' c' := by
  cases step with
  | intervene lifecycle pending hc hl =>
    obtain rfl := h.eq_of_connections hc
    exact ⟨_, h.intervene hl⟩
  | reopen hc disabled =>
    obtain rfl := h.eq_of_connections hc
    exact ⟨_, h.reopen disabled⟩
  | enqueue hc open' target queued generation epoch version workspace fresh =>
    obtain rfl := h.eq_of_connections hc
    exact ⟨_, h.enqueue open' target queued generation epoch version workspace fresh⟩
  | claim workerId expiresAt mem live =>
    exact ⟨c, h.relet mem live rfl rfl rfl rfl rfl rfl (Nat.le_succ _)⟩
  | renew expiresAt mem leased =>
    have live := outstanding_of_leased leased
    exact ⟨c, h.relet mem live live rfl rfl rfl rfl rfl (Nat.le_refl _)⟩
  | fail code now hc mem leased =>
    obtain rfl := h.eq_of_connections hc
    exact ⟨_, h.fail code now mem leased⟩

/-- Only a publication makes a connection active, and nothing else moves what an active one
rests on. -/
theorem Step.active (step : Step d d') (h : Valid d c) {c' : ServerConnection}
    (h' : Valid d' c') (active : c'.lifecycle = .active) :
    c.lifecycle = .active ∧ c'.verifiedVersionId = c.verifiedVersionId ∧
      c'.currentSnapshotId = c.currentSnapshotId := by
  have put {e : ServerConnection} (hc : d'.connections = d.connections.map fun _ => e) : c' = e := by
    rw [h.connections, h'.connections] at hc
    exact (List.cons.inj hc).1
  have kept (hc : d'.connections = d.connections) : c' = c := by
    rw [h.connections, h'.connections] at hc
    exact (List.cons.inj hc).1
  cases step with
  | intervene lifecycle pending hc hl =>
    obtain rfl := put rfl
    have : lifecycle = .active := active
    rcases hl with rfl | rfl <;> cases this
  | reopen hc disabled =>
    obtain rfl := put rfl
    cases active
  | @enqueue e _ _ hc =>
    obtain rfl := h.eq_of_connections hc
    obtain rfl := put rfl
    refine ⟨?_, rfl, rfl⟩
    unfold ServerConnection.allocate at active
    dsimp only at active
    split_ifs at active
    exact active
  | claim | renew =>
    obtain rfl := kept rfl
    exact ⟨active, rfl, rfl⟩
  | fail code now hc =>
    obtain rfl := put rfl
    cases active

end Sound

/-- There is no step for a connection that does not exist. -/
theorem Step.ne_empty {d d' : Docket} (step : Step d d') : d ≠ empty := by
  rintro rfl
  cases step with
  | intervene _ _ hc => cases hc
  | reopen hc => cases hc
  | enqueue hc => cases hc
  | claim _ _ mem => cases mem
  | renew _ mem => cases mem
  | fail _ _ hc => cases hc

/-- The docket is as it was, or that of a new connection, or a continuation of itself. -/
def Advances (d d' : Docket) : Prop :=
  d' = d ∨ (d = empty ∧ ∃ c', Valid d' c') ∨
    ∃ c c', Valid d c ∧ Valid d' c' ∧ Continues d c d' c'

theorem Advances.continues {d d' : Docket} {c : ServerConnection} (h : d.Advances d')
    (valid : Valid d c) : ∃ c', Valid d' c' ∧ Continues d c d' c' := by
  rcases h with rfl | ⟨rfl, -⟩ | ⟨c₀, c', valid₀, valid', continues⟩
  · exact ⟨c, valid, .refl _ c⟩
  · cases valid.connections
  · obtain rfl := valid.eq_of_connections valid₀.connections
    exact ⟨c', valid', continues⟩

/-- A connection that has just been created. -/
theorem valid_new (c : ServerConnection) (allocation : c.allocatedControlEpoch = none)
    (target : c.allocatedTargetVersionId = none) (lifecycle : c.lifecycle = .verifying)
    (snapshot : c.currentSnapshotId = none) : Valid ⟨[c], [], []⟩ c where
  connections := rfl
  allocation := .free allocation target rfl
  idle _ := by simp [lifecycle]
  jobs _ := nofun
  distinct := List.nodup_nil
  increasing := .nil
  bounded _ := nofun
  named := List.nodup_nil
  current := snapshot

end Docket

end Modall
