import Modall.Registry.Docket

/-!
# The refreshes of a registry

`Registry.docket` reads the rows of one connection off the tables. Every statement of the refresh
protocol acts on one docket: the lemmas of the first part say how, and `Registry.Turns` is what
the operations have in common, one `Docket.Step` with everything else left alone.
-/
namespace Modall
open Library

namespace Registry

def docket (r : Registry) (id : Uuid) : Docket where
  connections := r.connections.filter fun c => c.id == id
  jobs := r.refreshJobs.filter fun job => job.connectionId == id
  snapshots := r.snapshots.filter fun snapshot => snapshot.connectionId == id

section Slices
variable {r : Registry} {id k : Uuid}

theorem mem_docket_connections {c : ServerConnection} :
    c ∈ (r.docket id).connections ↔ c ∈ r.connections ∧ c.id = id := by simp [docket]

theorem mem_docket_jobs {job : DiscoveryRefreshJob} :
    job ∈ (r.docket id).jobs ↔ job ∈ r.refreshJobs ∧ job.connectionId = id := by simp [docket]

theorem mem_docket_snapshots {snapshot : DiscoverySnapshot} :
    snapshot ∈ (r.docket id).snapshots ↔ snapshot ∈ r.snapshots ∧ snapshot.connectionId = id := by
  simp [docket]

theorem docket_setConnection (c c' : ServerConnection) (h : c'.id = c.id) :
    (r.setConnection c.id fun _ => c').docket k =
      if k = c.id then (r.docket k).put c' else r.docket k := by
  have part : (updateWhere (fun row => row.id == c.id) (fun _ => c') r.connections).filter
        (fun row => row.id == k) =
      updateWhere (fun row => row.id == c.id) (fun _ => c')
        (r.connections.filter fun row => row.id == k) := by
    apply filter_updateWhere
    intro row hr
    rw [h, beq_iff_eq.mp hr]
  simp only [docket, setConnection, part]
  split_ifs with hk
  · subst hk
    rw [updateWhere_eq_map fun row hr => (List.mem_filter.mp hr).2]
    rfl
  · congr 1
    apply updateWhere_eq_self
    intro row hr
    have other : row.id = k := beq_iff_eq.mp (List.mem_filter.mp hr).2
    simp [other, hk]

theorem docket_addConnection (c : ServerConnection) :
    (r.addConnection c).docket k = if k = c.id
      then { r.docket k with connections := (r.docket k).connections ++ [c] } else r.docket k := by
  split_ifs with hk
  · simp [docket, addConnection, List.filter_append, hk]
  · simp [docket, addConnection, List.filter_append, Ne.symm hk]

theorem docket_addRefreshJob (job : DiscoveryRefreshJob) :
    (r.addRefreshJob job).docket k =
      if k = job.connectionId then (r.docket k).addJob job else r.docket k := by
  split_ifs with hk
  · simp [docket, addRefreshJob, Docket.addJob, List.filter_append, hk]
  · simp [docket, addRefreshJob, List.filter_append, Ne.symm hk]

theorem docket_addSnapshot (snapshot : DiscoverySnapshot) :
    (r.addSnapshot snapshot).docket k =
      if k = snapshot.connectionId then (r.docket k).addSnapshot snapshot else r.docket k := by
  split_ifs with hk
  · simp [docket, addSnapshot, Docket.addSnapshot, List.filter_append, hk]
  · simp [docket, addSnapshot, List.filter_append, Ne.symm hk]

/-- The jobs of a connection are all of its workspace, so none is missed. -/
theorem docket_obsoleteRefreshJobs {workspaceId : Uuid}
    (jobs : ∀ job ∈ (r.docket id).jobs, job.workspaceId = workspaceId) :
    (r.obsoleteRefreshJobs workspaceId id).docket k =
      if k = id then (r.docket k).obsoleteJobs else r.docket k := by
  simp only [docket, obsoleteRefreshJobs]
  rw [filter_updateWhere]
  · split_ifs with hk
    · subst hk
      simp only [Docket.obsoleteJobs, Docket.mk.injEq, true_and, and_true]
      apply updateWhere_congr
      intro job mem
      have mine := (List.mem_filter.mp mem).2
      simp [jobs job mem, beq_iff_eq.mp mine]
    · congr 1
      apply updateWhere_eq_self
      intro job mem
      have other : job.connectionId = k := beq_iff_eq.mp (List.mem_filter.mp mem).2
      simp [other, hk]
  · intro job _
    rfl

/-- Job identifiers are unique, so the update meets the one job. -/
theorem docket_setRefreshJob (job job' : DiscoveryRefreshJob)
    (unique : (r.refreshJobs.map DiscoveryRefreshJob.id).Nodup) (mem : job ∈ r.refreshJobs)
    (same : job'.connectionId = job.connectionId) :
    (r.setRefreshJob job.id fun _ => job').docket k =
      if k = job.connectionId then (r.docket k).setJob job.id fun _ => job' else r.docket k := by
  have only : ∀ row ∈ r.refreshJobs, (row.id == job.id) = true → row = job := by
    intro row hr hid
    exact List.inj_on_of_nodup_map unique hr mem (beq_iff_eq.mp hid)
  have part : (updateWhere (fun row => row.id == job.id) (fun _ => job') r.refreshJobs).filter
        (fun row => row.connectionId == k) =
      updateWhere (fun row => row.id == job.id) (fun _ => job')
        (r.refreshJobs.filter fun row => row.connectionId == k) := by
    rw [updateWhere_congr (q := fun row => row.id == job.id && row.connectionId == job.connectionId),
      filter_updateWhere, updateWhere_congr]
    · intro row hr
      have := only row (List.mem_filter.mp hr).1
      by_cases hid : row.id = job.id <;> simp_all
    · intro row hr
      simp only [Bool.and_eq_true, beq_iff_eq] at hr
      rw [same, hr.2]
    · intro row hr
      have := only row hr
      by_cases hid : row.id = job.id <;> simp_all
  simp only [docket, setRefreshJob, part]
  split_ifs with hk
  · rfl
  · congr 1
    apply updateWhere_eq_self
    intro row hr
    obtain ⟨hrow, hc⟩ := List.mem_filter.mp hr
    rw [beq_eq_false_iff_ne]
    intro hid
    rw [only row hrow (beq_iff_eq.mpr hid)] at hc
    exact hk (beq_iff_eq.mp hc).symm

end Slices

/-! ## The invariant -/

/-- The refresh jobs and snapshots of every connection are in order. -/
structure Docketed (r : Registry) : Prop where
  valid : ∀ id, r.docket id = .empty ∨ ∃ c, (r.docket id).Valid c
  jobs : (r.refreshJobs.map DiscoveryRefreshJob.id).Nodup

/-- The connections, each with its workspace. -/
def owners (r : Registry) : List (Uuid × Uuid) := r.connections.map fun c => (c.id, c.workspaceId)

/-- What the registry knows about capabilities, and whose they are, is left alone. -/
structure KeepsCatalogue (r r' : Registry) : Prop where
  capabilities : r'.capabilities = r.capabilities
  capabilityVersions : r'.capabilityVersions = r.capabilityVersions
  bindings : r'.bindings = r.bindings
  statusEvents : r'.statusEvents = r.statusEvents
  snapshotCapabilities : r'.snapshotCapabilities = r.snapshotCapabilities
  owners : r'.owners = r.owners

theorem KeepsCatalogue.refl (r : Registry) : r.KeepsCatalogue r := ⟨rfl, rfl, rfl, rfl, rfl, rfl⟩

/-- A step of the refresh protocol on one connection. -/
structure Turns (drawn : List Uuid) (id : Uuid) (r r' : Registry) : Prop where
  step : Docket.Step (r.docket id) (r'.docket id)
  other : ∀ k, k ≠ id → r'.docket k = r.docket k
  jobs : (r'.refreshJobs.map DiscoveryRefreshJob.id).Nodup
  known : ∀ job ∈ r'.refreshJobs,
    job.id ∈ drawn ∨ job.id ∈ r.refreshJobs.map DiscoveryRefreshJob.id
  snapshots : r'.snapshots = r.snapshots
  rest : r.KeepsCatalogue r'

section Turns
variable {r : Registry} {c : ServerConnection} {job job' : DiscoveryRefreshJob}

/-- A connection that exists, with its docket. -/
theorem Docketed.of_mem (h : r.Docketed) (mem : c ∈ r.connections) : (r.docket c.id).Valid c := by
  have mine : c ∈ (r.docket c.id).connections := mem_docket_connections.mpr ⟨mem, rfl⟩
  rcases h.valid c.id with none | ⟨c', valid⟩
  · rw [none] at mine
    cases mine
  · rw [valid.connections, List.mem_singleton] at mine
    exact mine ▸ valid

/-- The docket of a connection that is found by its identifier. -/
theorem of_docket {id : Uuid} (valid : (r.docket id).Valid c) :
    c ∈ r.connections ∧ c.id = id :=
  mem_docket_connections.mp (valid.connections ▸ List.mem_singleton_self c)

/-- A job belongs to a connection. -/
theorem Docketed.of_job (h : r.Docketed) (mem : job ∈ r.refreshJobs) :
    ∃ c, (r.docket job.connectionId).Valid c ∧ job ∈ (r.docket job.connectionId).jobs := by
  have mine : job ∈ (r.docket job.connectionId).jobs := mem_docket_jobs.mpr ⟨mem, rfl⟩
  rcases h.valid job.connectionId with none | ⟨c, valid⟩
  · rw [none] at mine
    cases mine
  · exact ⟨c, valid, mine⟩

theorem owners_setConnection {c' : ServerConnection}
    (unique : (r.connections.map ServerConnection.id).Nodup) (mem : c ∈ r.connections)
    (hid : c'.id = c.id) (hw : c'.workspaceId = c.workspaceId) :
    (r.setConnection c.id fun _ => c').owners = r.owners := by
  simp only [owners, setConnection, updateWhere, List.map_map]
  apply List.map_congr_left
  intro row hr
  by_cases same : row.id = c.id
  · simp [List.inj_on_of_nodup_map unique hr mem same, hid, hw]
  · simp [same]

theorem Docketed.connections (h : r.Docketed) : (r.connections.map ServerConnection.id).Nodup := by
  apply nodup_map_of_filter_length_le_one
  intro k
  change (r.docket k).connections.length ≤ 1
  rcases h.valid k with none | ⟨c, valid⟩
  · simp [none, Docket.empty]
  · simp [valid.connections]

theorem ids_obsoleteRefreshJobs (workspaceId id : Uuid) :
    (r.obsoleteRefreshJobs workspaceId id).refreshJobs.map DiscoveryRefreshJob.id =
      r.refreshJobs.map DiscoveryRefreshJob.id := map_updateWhere _ fun _ _ => rfl

theorem ids_setRefreshJob (r : Registry) (job job' : DiscoveryRefreshJob)
    (h : job'.id = job.id) :
    (r.setRefreshJob job.id fun _ => job').refreshJobs.map DiscoveryRefreshJob.id =
      r.refreshJobs.map DiscoveryRefreshJob.id :=
  map_updateWhere _ fun _ hr => h.trans (beq_iff_eq.mp hr).symm

theorem Docketed.intervene (h : r.Docketed) (mem : c ∈ r.connections)
    (lifecycle : ConnectionLifecycle) (pending : Option Uuid)
    (hl : lifecycle = .verifying ∨ lifecycle = .disabled) :
    r.Turns [] c.id ((r.setConnection c.id fun _ => c.intervened lifecycle pending)
      |>.obsoleteRefreshJobs c.workspaceId c.id) := by
  have valid := h.of_mem mem
  have docket (k : Uuid) : ((r.setConnection c.id fun _ => c.intervened lifecycle pending)
      |>.obsoleteRefreshJobs c.workspaceId c.id).docket k =
      if k = c.id then ((r.docket k).put (c.intervened lifecycle pending)).obsoleteJobs
        else r.docket k := by
    have put (k : Uuid) := docket_setConnection (r := r) (k := k) c
      (c.intervened lifecycle pending) rfl
    rw [docket_obsoleteRefreshJobs, put]
    · split_ifs <;> rfl
    · rw [put, if_pos rfl]
      exact valid.jobs
  refine ⟨?_, fun k hk => ?_, ?_, fun job hj => .inr ?_, rfl, ⟨rfl, rfl, rfl, rfl, rfl, ?_⟩⟩
  · rw [docket, if_pos rfl]
    exact .intervene lifecycle pending valid.connections hl
  · rw [docket, if_neg hk]
  · rw [ids_obsoleteRefreshJobs]
    exact h.jobs
  · have := List.mem_map_of_mem (f := DiscoveryRefreshJob.id) hj
    rwa [ids_obsoleteRefreshJobs] at this
  · exact owners_setConnection h.connections mem rfl rfl

theorem Docketed.reopen (h : r.Docketed) (mem : c ∈ r.connections)
    (disabled : c.lifecycle = .disabled) :
    r.Turns [] c.id
      (r.setConnection c.id fun _ => c.intervened .verifying c.pendingVersionId) := by
  have valid := h.of_mem mem
  refine ⟨?_, fun k hk => ?_, h.jobs, fun job hj => .inr (List.mem_map_of_mem hj), rfl,
    ⟨rfl, rfl, rfl, rfl, rfl, owners_setConnection h.connections mem rfl rfl⟩⟩
  · rw [docket_setConnection c (c.intervened .verifying c.pendingVersionId) rfl, if_pos rfl]
    exact .reopen valid.connections disabled
  · rw [docket_setConnection c (c.intervened .verifying c.pendingVersionId) rfl, if_neg hk]

theorem Docketed.enqueue (h : r.Docketed) (mem : c ∈ r.connections) {versionId : Uuid}
    (open' : c.lifecycle ≠ .disabled) (target : c.target = some versionId)
    (queued : job.status = .queued) (generation : job.generation = c.refreshGeneration + 1)
    (epoch : job.controlEpoch = c.controlEpoch) (version : job.connectionVersionId = versionId)
    (workspace : job.workspaceId = c.workspaceId) (connection : job.connectionId = c.id)
    (fresh : job.id ∉ r.refreshJobs.map DiscoveryRefreshJob.id) :
    r.Turns [job.id] c.id (((r.setConnection c.id fun _ => c.allocate versionId)
      |>.obsoleteRefreshJobs c.workspaceId c.id).addRefreshJob job) := by
  have valid := h.of_mem mem
  have docket (k : Uuid) : (((r.setConnection c.id fun _ => c.allocate versionId)
      |>.obsoleteRefreshJobs c.workspaceId c.id).addRefreshJob job).docket k =
      if k = c.id then ((r.docket k).put (c.allocate versionId)).obsoleteJobs.addJob job
        else r.docket k := by
    have put (k : Uuid) := docket_setConnection (r := r) (k := k) c (c.allocate versionId) rfl
    rw [docket_addRefreshJob, connection, docket_obsoleteRefreshJobs, put]
    · split_ifs <;> rfl
    · rw [put, if_pos rfl]
      exact valid.jobs
  have ids : (((r.setConnection c.id fun _ => c.allocate versionId)
      |>.obsoleteRefreshJobs c.workspaceId c.id).addRefreshJob job).refreshJobs.map
      DiscoveryRefreshJob.id = r.refreshJobs.map DiscoveryRefreshJob.id ++ [job.id] := by
    rw [addRefreshJob, List.map_append, ids_obsoleteRefreshJobs]
    rfl
  refine ⟨?_, fun k hk => ?_, ?_, fun row hr => ?_, rfl, ⟨rfl, rfl, rfl, rfl, rfl, ?_⟩⟩
  · rw [docket, if_pos rfl]
    refine .enqueue valid.connections open' target queued generation epoch version workspace ?_
    intro old
    obtain ⟨row, hr, hid⟩ := List.mem_map.mp old
    exact fresh (hid ▸ List.mem_map_of_mem (mem_docket_jobs.mp hr).1)
  · rw [docket, if_neg hk]
  · rw [ids]
    exact h.jobs.append (List.nodup_singleton _) (by simpa using fresh)
  · have := List.mem_map_of_mem (f := DiscoveryRefreshJob.id) hr
    rw [ids, List.mem_append] at this
    exact this.symm
  · exact owners_setConnection h.connections mem rfl rfl

/-- A job of a connection is written, and the connection perhaps with it. -/
theorem Docketed.setJob (h : r.Docketed) (mem : job ∈ r.refreshJobs) (hid : job'.id = job.id)
    (connection : job'.connectionId = job.connectionId)
    (step : Docket.Step (r.docket job.connectionId)
      ((r.docket job.connectionId).setJob job.id fun _ => job')) :
    r.Turns [] job.connectionId (r.setRefreshJob job.id fun _ => job') := by
  refine ⟨?_, fun k hk => ?_, ?_, fun row hr => .inr ?_, rfl, ⟨rfl, rfl, rfl, rfl, rfl, rfl⟩⟩
  · rw [docket_setRefreshJob job job' h.jobs mem connection, if_pos rfl]
    exact step
  · rw [docket_setRefreshJob job job' h.jobs mem connection, if_neg hk]
  · rw [ids_setRefreshJob r job job' hid]
    exact h.jobs
  · have := List.mem_map_of_mem (f := DiscoveryRefreshJob.id) hr
    rwa [ids_setRefreshJob r job job' hid] at this

theorem Docketed.fail (h : r.Docketed) (mem : c ∈ r.connections) (code : DiscoveryFailureCode)
    (now : Time) (hj : job ∈ r.refreshJobs) (mine : job.connectionId = c.id)
    (leased : job.status = .leased) :
    r.Turns [] c.id ((r.setConnection c.id fun _ => c.degraded code now).setRefreshJob job.id
      fun _ => job.closed .failed) := by
  have valid := h.of_mem mem
  have docket (k : Uuid) : ((r.setConnection c.id fun _ => c.degraded code now).setRefreshJob
      job.id fun _ => job.closed .failed).docket k =
      if k = c.id then ((r.docket k).put (c.degraded code now)).setJob job.id
        fun _ => job.closed .failed else r.docket k := by
    have put := docket_setConnection (r := r) (k := k) c (c.degraded code now) rfl
    have close := docket_setRefreshJob (r := r.setConnection c.id fun _ => c.degraded code now)
      (k := k) job (job.closed .failed) h.jobs hj rfl
    rw [close, put, mine]
    split_ifs <;> rfl
  refine ⟨?_, fun k hk => ?_, ?_, fun row hr => .inr ?_, rfl, ⟨rfl, rfl, rfl, rfl, rfl, ?_⟩⟩
  · rw [docket, if_pos rfl]
    exact .fail code now valid.connections (mem_docket_jobs.mpr ⟨hj, mine⟩) leased
  · rw [docket, if_neg hk]
  · rw [ids_setRefreshJob _ job (job.closed .failed) rfl]
    exact h.jobs
  · have := List.mem_map_of_mem (f := DiscoveryRefreshJob.id) hr
    rwa [ids_setRefreshJob _ job (job.closed .failed) rfl] at this
  · exact owners_setConnection h.connections mem rfl rfl

end Turns

/-! ## Every step keeps the invariant -/

section Advances
variable {r r' : Registry} {c : ServerConnection} {drawn : List Uuid} {id : Uuid}

theorem Docketed.of_advances (h : r.Docketed)
    (advances : ∀ k, (r.docket k).Advances (r'.docket k))
    (jobs : (r'.refreshJobs.map DiscoveryRefreshJob.id).Nodup) : r'.Docketed where
  valid k := by
    rcases advances k with same | ⟨-, c', valid⟩ | ⟨-, c', -, valid, -⟩
    · rw [same]
      exact h.valid k
    · exact .inr ⟨c', valid⟩
    · exact .inr ⟨c', valid⟩
  jobs := jobs

theorem Turns.advances (turns : r.Turns drawn id r') (h : r.Docketed) (k : Uuid) :
    (r.docket k).Advances (r'.docket k) := by
  by_cases hk : k = id
  · subst hk
    rcases h.valid k with none | ⟨c, valid⟩
    · exact (turns.step.ne_empty none).elim
    · obtain ⟨c', valid', continues⟩ := turns.step.sound valid
      exact .inr (.inr ⟨c, c', valid, valid', continues⟩)
  · exact .inl (turns.other k hk)

theorem Turns.mono (turns : r.Turns drawn id r') {drawn' : List Uuid}
    (more : ∀ id ∈ drawn, id ∈ drawn') : r.Turns drawn' id r' :=
  { turns with known := fun job mem => (turns.known job mem).imp_left (more _) }

theorem Turns.docketed (turns : r.Turns drawn id r') (h : r.Docketed) : r'.Docketed :=
  h.of_advances (turns.advances h) turns.jobs

theorem advances_addConnection (new : r.docket c.id = .empty)
    (allocation : c.allocatedControlEpoch = none) (target : c.allocatedTargetVersionId = none)
    (lifecycle : c.lifecycle = .verifying) (snapshot : c.currentSnapshotId = none) (k : Uuid) :
    (r.docket k).Advances ((r.addConnection c).docket k) := by
  rw [docket_addConnection]
  split_ifs with hk
  · subst hk
    rw [new]
    exact .inr (.inl ⟨rfl, c, Docket.valid_new c allocation target lifecycle snapshot⟩)
  · exact .inl rfl

end Advances

end Registry

end Modall
