import Modall.Registry.Review

/-!
# Refreshes

The refresh protocol in every world that whole operations lead to. An allocation and its one
outstanding job come and go together, the newest snapshot is the current one, a lease that has
lost its job never gets it back, and a publication that has passed its two fences is not turned
away by a later one.
-/
namespace Modall
open Library

/-- The refresh job of the lease is over, or another worker has taken it over since. -/
def Registry.Dead (r : Registry) (lease : RefreshLease) : Prop :=
  ∃ job ∈ r.refreshJobs, job.id = lease.jobId ∧
    (job.outstanding = false ∨ lease.leaseEpoch < job.leaseEpoch)

section Leases
variable {P : Platform} {R : RegistryPlatform} {limits : ExecutionLimits} {w w' : World}
  {e : Event} {lease : RefreshLease} {r r' : Registry}

theorem WholeTransition.advances (h : WholeTransition P R limits w e w') (kept : w.Kept R limits)
    (refreshed : w.Refreshed) (k : Uuid) :
    (w.store.registry.docket k).Advances (w'.store.registry.docket k) := by
  obtain ⟨drawn, -, fresh, effect⟩ := h.1.effect kept.ledger kept.registry
  rw [h.2] at effect
  exact effect.advances refreshed.docketed kept.registry.named refreshed.filed fresh k

theorem Registry.Dead.of_advances (dead : r.Dead lease) (docketed : r.Docketed)
    (advances : ∀ k, (r.docket k).Advances (r'.docket k)) : r'.Dead lease := by
  obtain ⟨job, mem, hid, lost⟩ := dead
  obtain ⟨c, valid, mine⟩ := docketed.of_job mem
  obtain ⟨c', -, continues⟩ := (advances job.connectionId).continues valid
  obtain ⟨job', mine', same, epoch, ended⟩ := continues.jobs job mine
  refine ⟨job', (Registry.mem_docket_jobs.mp mine').1, same.trans hid, ?_⟩
  rcases lost with gone | later
  · rw [ended gone]
    exact .inl gone
  · exact .inr (later.trans_le epoch)

/-- No job is leased under a dead lease. -/
theorem Registry.Dead.not_leased (dead : r.Dead lease) (docketed : r.Docketed)
    {context : WorkspaceContext} {job : DiscoveryRefreshJob} (mem : job ∈ r.refreshJobs) :
    job.leasedTo context lease ≠ true := by
  intro leased
  obtain ⟨hid, status, epoch, -⟩ := Registry.leased_fields leased
  obtain ⟨other, hother, same, lost⟩ := dead
  obtain rfl := List.inj_on_of_nodup_map docketed.jobs mem hother (hid.trans same.symm)
  rcases lost with gone | later
  · rw [Docket.outstanding_of_leased status] at gone
    cases gone
  · omega

/-- A call that presents a lease returns only while some job is leased under it. -/
theorem RanRegistry.leased {call : RegistryCall} {reply : RegistryReply} {s t : Session}
    (ran : RanRegistry R w call reply w' s t) (presents : call.lease = some lease) :
    ∃ context, ∃ job ∈ w.store.registry.refreshJobs, job.leasedTo context lease = true := by
  have run := ran.ran
  rw [← ran.rows]
  cases call with
  | renew context lease' leaseDuration =>
    obtain rfl := Option.some.inj presents
    obtain ⟨_, _, run, -⟩ := bind_eq_ok.mp run
    obtain ⟨job, _, mem, leased, -⟩ := RefreshJobService.renew_ok ran.settled run
    exact ⟨context, job, mem, leased⟩
  | validateForContact context lease' =>
    obtain rfl := Option.some.inj presents
    obtain ⟨_, _, run, -⟩ := bind_eq_ok.mp run
    obtain ⟨-, job, mem, leased⟩ := RefreshJobService.validateForContact_ok ran.settled run
    exact ⟨context, job, mem, leased⟩
  | publishSuccess context lease' result draws =>
    obtain rfl := Option.some.inj presents
    simp only [RegistryCall.run, DiscoveryPublicationService.publishSuccess, lockedActiveJob,
      bind_eq_ok, requireCurrentRole_eq_ok ran.settled] at run
    obtain ⟨_, _, ⟨_, _, ⟨-, rfl⟩, job, _, held, -⟩, -⟩ := run
    obtain ⟨-, mem, leased⟩ := lockedJobForLease_ok ran.settled held
    exact ⟨context, job, mem, leased⟩
  | publishFailure context lease' errorCode =>
    obtain rfl := Option.some.inj presents
    obtain ⟨_, _, run, -⟩ := bind_eq_ok.mp run
    obtain ⟨_, job, _, -, mem, leased, -⟩ :=
      DiscoveryPublicationService.publishFailure_ok ran.settled run
    exact ⟨context, job, mem, leased⟩
  | _ => cases presents

end Leases

/-! ## The protocol -/

section Protocol
variable {P : Platform} {R : RegistryPlatform} {limits : ExecutionLimits} {w : World}

/-- The snapshot with the greatest generation. -/
theorem Docket.Valid.newest {d : Docket} {c : ServerConnection} (h : d.Valid c) :
    (d.snapshots = [] ∧ c.currentSnapshotId = none) ∨
      ∃ newest ∈ d.snapshots, c.currentSnapshotId = some newest.id ∧
        ∀ snapshot ∈ d.snapshots, snapshot.generation ≤ newest.generation := by
  have current := h.current
  have increasing := h.increasing
  rcases List.eq_nil_or_concat d.snapshots with none | ⟨older, newest, split⟩
  · rw [none] at current
    exact .inl ⟨none, current⟩
  · rw [List.concat_eq_append] at split
    rw [split] at current increasing ⊢
    rw [List.getLast?_concat, Option.map_some] at current
    refine .inr ⟨newest, by simp, current, fun snapshot mem => ?_⟩
    rcases List.mem_append.mp mem with mem | mem
    · have before := (List.pairwise_append.mp increasing).2.2
      exact Nat.le_of_lt (before snapshot mem newest (List.mem_singleton_self _))
    · rw [List.mem_singleton.mp mem]

/-- The allocation of a connection and its outstanding job. -/
theorem Docket.Valid.outstanding_iff {d : Docket} {c : ServerConnection} (h : d.Valid c) :
    d.outstanding.length ≤ 1 ∧
      (d.outstanding ≠ [] ↔
        c.allocatedControlEpoch ≠ none ∧ c.allocatedTargetVersionId ≠ none) ∧
      (d.outstanding = [] ↔
        c.allocatedControlEpoch = none ∧ c.allocatedTargetVersionId = none) ∧
      ∀ job ∈ d.outstanding, job.generation = c.refreshGeneration ∧
        job.controlEpoch = c.controlEpoch ∧
        some job.connectionVersionId = c.allocatedTargetVersionId := by
  cases h.allocation with
  | free epoch target none => simp [epoch, target, none]
  | held epoch target _ _ _ only generation control =>
    simp [epoch, target, only, generation, control]

/-- The refresh protocol, for every connection and every lease. -/
theorem refresh_protocol (h : w.Operated P R limits) :
    (∀ c ∈ w.store.registry.connections,
      let outstanding := w.store.registry.refreshJobs.filter fun job =>
        job.connectionId == c.id && job.outstanding
      let snapshots := w.store.registry.snapshots.filter fun s => s.connectionId == c.id
      outstanding.length ≤ 1 ∧
        (outstanding ≠ [] ↔
          c.allocatedControlEpoch ≠ none ∧ c.allocatedTargetVersionId ≠ none) ∧
        (outstanding = [] ↔
          c.allocatedControlEpoch = none ∧ c.allocatedTargetVersionId = none) ∧
        (∀ job ∈ outstanding, job.generation = c.refreshGeneration ∧
          job.controlEpoch = c.controlEpoch ∧
          some job.connectionVersionId = c.allocatedTargetVersionId) ∧
        snapshots.Pairwise (fun a b => a.generation < b.generation) ∧
        ((snapshots = [] ∧ c.currentSnapshotId = none) ∨
          ∃ newest ∈ snapshots, c.currentSnapshotId = some newest.id ∧
            ∀ snapshot ∈ snapshots, snapshot.generation ≤ newest.generation)) ∧
      ∀ lease, w.store.registry.Dead lease →
        ∀ es w', Path (WholeTransition P R limits) w es w' →
          ∀ call result w'', call.lease = some lease →
            Transition P R limits w' (.registry call result) w'' →
            (∃ error, result = .error error) ∧ w''.store = w'.store := by
  have inv := h.invariant
  constructor
  · intro c mem outstanding snapshots
    have valid := inv.2.docketed.of_mem mem
    have split : outstanding = (w.store.registry.docket c.id).outstanding := by
      simp [outstanding, Docket.outstanding, Registry.docket, List.filter_filter, Bool.and_comm]
    rw [split]
    obtain ⟨one, some, none, fields⟩ := valid.outstanding_iff
    exact ⟨one, some, none, fields, valid.increasing, valid.newest⟩
  · intro lease dead es w' path call result w'' presents step
    have later : w'.Kept R limits ∧ w'.Refreshed ∧ w'.store.registry.Dead lease := by
      refine path.invariant (I := fun w => w.Kept R limits ∧ w.Refreshed ∧
        w.store.registry.Dead lease) ?_ ⟨inv.1, inv.2, dead⟩
      rintro u e v ⟨kept, refreshed, dead⟩ step
      exact ⟨step.1.kept kept, step.refreshed kept refreshed,
        dead.of_advances refreshed.docketed (step.advances kept refreshed)⟩
    rcases step.cases_registry with ⟨error, rfl, same, -⟩ | ⟨reply, s, t, rfl, ran⟩
    · exact ⟨⟨error, rfl⟩, same⟩
    · obtain ⟨context, job, mem, leased⟩ := ran.leased presents
      exact (later.2.2.not_leased later.2.1.docketed mem leased).elim

end Protocol

theorem refresh_protocol_sample :
    Installation.enabled.store.registry.Dead Installation.refreshLease ∧
      ∀ es w, Path (WholeTransition Sample.platform Installation.registryPlatform .default)
        Installation.enabled es w → ∀ result w',
          Transition Sample.platform Installation.registryPlatform .default w
            (.registry (.renew Installation.admin Installation.refreshLease 1) result) w' →
          w'.store = w.store := by
  have dead : Installation.enabled.store.registry.Dead Installation.refreshLease :=
    ⟨⟨8, 1, 2, 3, 4, 1, 0, .succeeded, none, 1, none⟩, by decide +kernel, rfl, .inl rfl⟩
  refine ⟨dead, fun es w path result w' step => ?_⟩
  exact ((refresh_protocol Installation.enabled_operated).2 _ dead es w path _ result w' rfl
    step).2

/-! ## Publications -/

section Publications
variable {P : Platform} {R : RegistryPlatform} {limits : ExecutionLimits} {w : World}

/-- A pending version is allocated only while it is verified, and else the verified version
is. -/
theorem Docket.Valid.allocated {d : Docket} {c : ServerConnection} (h : d.Valid c)
    (allocated : c.allocatedControlEpoch ≠ none ∨ c.allocatedTargetVersionId ≠ none) :
    (c.pendingVersionId ≠ none → c.lifecycle = .verifying) ∧
      (c.pendingVersionId = none → c.verifiedVersionId = c.allocatedTargetVersionId) := by
  cases h.allocation with
  | free epoch target => simp [epoch, target] at allocated
  | held _ allocated target _ verifying =>
    refine ⟨verifying, fun none => ?_⟩
    rw [ServerConnection.target, none, Option.none_or] at target
    rw [target, allocated]

/-- Once a publication has found its job and its connection, no transition guard of the tools or
of the connection turns it away. -/
theorem publication_runs_through (h : w.Operated P R limits) :
    (∀ c ∈ w.store.registry.connections,
      c.allocatedControlEpoch ≠ none ∨ c.allocatedTargetVersionId ≠ none →
        (c.pendingVersionId ≠ none → c.lifecycle = .verifying) ∧
        (c.pendingVersionId = none → c.verifiedVersionId = c.allocatedTargetVersionId)) ∧
      ∀ (ticks : List Nat) (others : List Uuid) (context : WorkspaceContext) (lease : RefreshLease)
        (result : DiscoveryResult) (draws : PublicationDraws) (job : DiscoveryRefreshJob)
        (c : ServerConnection) (s₀ s₁ s₂ : Session),
        let call := RegistryCall.publishSuccess context lease result draws
        let s := Session.begin w.store w.clock ticks others []
        (∀ id ∈ call.draws, id ∉ w.drawn) → call.draws.Nodup →
        (∀ tool ∈ result.tools, R.validateMetadata tool result.protocolRevision = .ok ()) →
        requireCurrentRole context [.admin, .operator] true s = .ok () s₀ →
        lockedActiveJob context lease s₀ = .ok job s₁ →
        lockEligibleConnection context lease.connectionId lease.connectionVersionId
          lease.controlEpoch lease.generation s₁ = .ok c s₂ →
        (∃ snapshot t, DiscoveryPublicationService.publishSuccess R context lease result draws s =
          .ok snapshot t) ∨
        ∃ t, DiscoveryPublicationService.publishSuccess R context lease result draws s =
            .error (.invalidConnectionTransition "discovery digest collision rejected") t ∧
          ∃ payload ∈ w.store.registry.payloads, payload.workspaceId = context.workspaceId ∧
            payload.canonicalDigest = result.canonicalDigest ∧
            (payload.byteCount ≠ result.byteCount ∨
              R.jsonEqual payload.normalizedPayload result.normalizedPayload = false) := by
  obtain ⟨kept, refreshed⟩ := h.invariant
  constructor
  · intro c mem
    exact (refreshed.docketed.of_mem mem).allocated
  · intro ticks others context lease result draws job c s₀ s₁ s₂ call s fresh distinct metadata
      role held locked
    have settled : s.Settled := ⟨rfl, rfl⟩
    obtain ⟨-, rfl⟩ := (requireCurrentRole_eq_ok settled).mp role
    have part := RegistryCall.drawnFor_sublist context lease result draws
    obtain ⟨read, -, -⟩ := lockedJobForLease_ok settled held
    obtain ⟨⟨found, -, -, allocated⟩, rfl⟩ := lockEligibleConnection_eq_ok.mp locked
    rw [read.registry] at found
    have valid := refreshed.docketed.of_mem (Registry.located_of_find found).mem
    have verifying := (valid.allocated (.inl (by simp [allocated.2.2.1]))).1
    have unused := RegistryCall.unused kept.registry.named fresh
    rcases DiscoveryPublicationService.publishSuccess_returns settled kept.registry.catalogued
      unused (distinct.sublist part) role held locked verifying metadata with returned | raised
    · exact .inl returned
    · obtain ⟨e, t, stopped, raised⟩ := raised
      obtain ⟨rfl, collides⟩ := publishPayload_error stopped
      rw [read.registry] at collides
      exact .inr ⟨t, raised, collides⟩

end Publications

theorem publication_runs_through_sample :
    let s := Session.begin Installation.leased.store Installation.leased.clock [] [] []
    (∃ snapshot t, DiscoveryPublicationService.publishSuccess Installation.registryPlatform
      Installation.admin Installation.refreshLease Installation.discovery Installation.draws s =
        .ok snapshot t) ∨
      ∃ payload, payload ∈ Installation.leased.store.registry.payloads := by
  intro s
  have role : requireCurrentRole Installation.admin [.admin, .operator] true s = .ok () s := by
    rw [requireCurrentRole_eq_ok ⟨rfl, rfl⟩]
    exact ⟨⟨by decide, by decide +kernel, _, rfl, by decide⟩, rfl⟩
  have passes : (match lockedActiveJob Installation.admin Installation.refreshLease s with
      | .ok _ s₁ => match lockEligibleConnection Installation.admin 3 4 0 1 s₁ with
        | .ok _ _ => true
        | .error _ _ => false
      | .error _ _ => false) = true := by decide +kernel
  have fresh : (Installation.publish.draws ++ Installation.leased.drawn).Nodup := by
    decide +kernel
  obtain ⟨distinct, -, disjoint⟩ := List.nodup_append.mp fresh
  have metadata : ∀ tool ∈ Installation.discovery.tools, Installation.registryPlatform.validateMetadata
      tool Installation.discovery.protocolRevision = .ok () := by
    intro tool mem
    rw [List.mem_singleton.mp mem]
    decide +kernel
  cases held : lockedActiveJob Installation.admin Installation.refreshLease s with
  | error =>
    rw [held] at passes
    cases passes
  | ok job s₁ =>
    rw [held] at passes
    cases locked : lockEligibleConnection Installation.admin 3 4 0 1 s₁ with
    | error =>
      dsimp only at passes
      rw [locked] at passes
      cases passes
    | ok c s₂ =>
      rcases (publication_runs_through Installation.leased_operated).2 [] [] Installation.admin
        Installation.refreshLease Installation.discovery Installation.draws job c s s₁ s₂
        (fun id new known => disjoint id new id known rfl) distinct metadata role held locked
        with returned | ⟨t, -, payload, mem, -⟩
      · exact .inl returned
      · exact .inr ⟨payload, mem⟩

end Modall
