import Modall.Execution.Safety

/-!
# Leases and epochs over whole executions

A lease is handed out by `claim_job` and renewed by `heartbeat`. Two counters only ever grow,
the lease epoch of a job and the execution epoch of the system, so a lease that has gone stale
stays stale, and one that is older than a restore quarantine completes nothing any more.
-/
namespace Modall
open Library

/-! ## Refusals write nothing -/

/-- On an installation with its system row, the session has written nothing. -/
def Session.Leaves (s t : Session) : Prop :=
  s.Settled → s.rows.system.isSome = true → t.Settled ∧ t.rows = s.rows

theorem Session.Leaves.refl (s : Session) : s.Leaves s := fun settled _ => ⟨settled, rfl⟩

theorem Session.Leaves.trans {s t u : Session} (h : s.Leaves t) (g : t.Leaves u) :
    s.Leaves u := by
  intro settled row
  obtain ⟨settled', hrows⟩ := h settled row
  obtain ⟨settled'', hrows'⟩ := g settled' (hrows ▸ row)
  exact ⟨settled'', hrows'.trans hrows⟩

/-- A program that writes nothing on such an installation. -/
abbrev Spares {α : Type} (x : Tx α) : Prop := Keeps Session.Leaves x

section Spares
variable {α β : Type} {s t : Session}

theorem Reads.spares {x : Tx α} (h : Reads x) : Spares x := by
  have waits {s t : Session} (h : s.Waits t) : s.Leaves t := by
    intro settled _
    obtain ⟨hr, -, hc, -⟩ := h.quiet settled.alone
    exact ⟨⟨h.flushed settled.flushed, hc⟩, hr⟩
  exact fun s => ⟨fun a t hx => waits (h.ok hx), fun e t hx => waits (h.error hx)⟩

theorem Spares.bind {x : Tx α} {f : α → Tx β} (hx : Spares x) (hf : ∀ a, Spares (f a)) :
    Spares (x >>= f) :=
  Keeps.bind (R := Session.Leaves) (fun _ _ _ h g => h.trans g) hx hf

theorem Spares.executionState : Spares executionState := by
  intro s
  cases hs : s.rows.system with
  | none => exact ⟨fun _ _ _ _ row => by simp [hs] at row, fun _ _ _ _ row => by simp [hs] at row⟩
  | some state =>
    have heq : Modall.executionState s = .ok state s := by
      unfold Modall.executionState
      rw [bind_of_ok (query_apply _ _), hs]
      rfl
    rw [heq]
    refine ⟨fun a t h => ?_, fun e t h => by cases h⟩
    injection h with _ ht
    rw [← ht]
    exact .refl s

theorem Reads.lockRun (p : Run → Bool) : Reads (lockRun p) :=
  .bind .othersCommit fun _ => .scalar _ _ _

theorem Reads.lockedJob (lease : JobLease) : Reads (lockedJob lease) := by
  refine .bind (.scalar _ _ _) fun job => ?_
  cases job with
  | none => exact .throw _
  | some job => exact .bind (.raiseIf _ _) fun _ => .pure _

theorem Reads.lockedLeaseLineage (lease : JobLease) : Reads (lockedLeaseLineage lease) := by
  refine .bind (.selectRow _ _) fun _ => .bind (.raiseIf _ _) fun _ => .bind (.lockRun _) fun run => ?_
  cases run with
  | none => exact .throw _
  | some run => exact .bind (.lockedJob lease) fun _ => .pure _

theorem Spares.fenceGuard (lease : JobLease) (expected : RunStatus) :
    Spares (fenceGuard lease expected) := by
  refine .bind .executionState fun state => Reads.spares (.bind (.selectRow _ _) fun _ => ?_)
  refine .bind (.raiseIf _ _) fun _ => .bind (.lockedLeaseLineage lease) fun locked => ?_
  refine .bind (.query _) fun _ => .bind (.query _) fun attempt => .bind .durableNow fun _ => ?_
  refine .bind (.raiseIf _ _) fun _ => ?_
  cases attempt with
  | none => exact .throw _
  | some attempt => exact .bind (.raiseIf _ _) fun _ => .pure _

theorem Spares.heartbeatGuard (lease : JobLease) (leaseDuration : Int) :
    Spares (heartbeatGuard lease leaseDuration) := by
  refine .bind (Reads.raiseIf _ _).spares fun _ => .bind .executionState fun _ => Reads.spares ?_
  exact .bind (.lockedLeaseLineage lease) fun _ => .bind .durableNow fun _ =>
    .bind (.raiseIf _ _) fun _ => .bind (.raiseIf _ _) fun _ => .pure _

theorem Spares.completionGuard (lease : JobLease) (status : RunStatus)
    (code : Option RunFailureCode) : Spares (completionGuard lease status code) := by
  refine .bind (Reads.raiseIf _ _).spares fun _ => .bind (Reads.raiseIf _ _).spares fun _ => ?_
  refine .bind .executionState fun _ => Reads.spares (.bind (.lockedLeaseLineage lease) fun _ => ?_)
  exact .bind .durableNow fun _ => .bind (.raiseIf _ _) fun _ => .bind (.raiseIf _ _) fun _ =>
    .pure _

/-- A program whose guard cannot be passed raises, and leaves what the guard leaves. -/
theorem raises_of_guard {x : Tx α} {f : α → Tx β} (hx : Spares x)
    (never : ∀ a u, x s ≠ .ok a u) : ∃ e t, (x >>= f) s = .error e t ∧ s.Leaves t := by
  cases h : x s with
  | ok a u => exact (never a u h).elim
  | error e t => exact ⟨e, t, bind_eq_error.mpr (.inl h), hx.error h⟩

end Spares

/-! ## Stale leases -/

/-- The job of the lease is missing, is not leased, has another lease epoch, or the system has
another execution epoch. -/
def Store.Stale (store : Store) (lease : JobLease) : Prop :=
  (∀ job ∈ store.jobs, job.id = lease.jobId →
    job.status ≠ .leased ∨ job.leaseEpoch ≠ lease.leaseEpoch) ∨
  store.executionEpoch ≠ lease.executionEpoch

instance (store : Store) (lease : JobLease) : Decidable (store.Stale lease) :=
  inferInstanceAs (Decidable ((∀ job ∈ store.jobs, job.id = lease.jobId → _) ∨ _))

theorem Store.Stale.not_honours {store : Store} {lease : JobLease} (h : store.Stale lease) :
    ¬ store.Honours lease := by
  rintro ⟨⟨job, mem, hid, -, leased, epoch⟩, execution⟩
  rcases h with h | h
  · rcases h job mem hid with h | h
    · exact h leased
    · exact h epoch
  · exact h execution

/-- The lease that a call presents. -/
def Call.lease : Call → Option JobLease
  | .fenceSession lease | .fenceDispatch lease | .heartbeat lease _ | .completeLease lease _ _
  | .completeInvocationSuccess lease _ => some lease
  | _ => none

section Stale
variable {limits : ExecutionLimits} {lease : JobLease} {s : Session}

theorem Store.Stale.fence_raises (settled : s.Settled) (sound : s.rows.Sound limits s.clock)
    (stale : s.rows.Stale lease) (expected target : RunStatus) (eventType : RunEventType)
    (attempting : expected.attempting = true) :
    ∃ e t, fenceAttempt lease expected target eventType s = .error e t ∧ s.Leaves t := by
  refine raises_of_guard (.fenceGuard lease expected) fun locked u hu => ?_
  obtain ⟨job, holds⟩ := fenceGuard_ok settled sound attempting hu
  exact stale.not_honours holds.honours

theorem Store.Stale.completion_raises (settled : s.Settled) (sound : s.rows.Sound limits s.clock)
    (stale : s.rows.Stale lease) (status : RunStatus) (code : Option RunFailureCode) :
    ∃ e t, completeLease lease status code s = .error e t ∧ s.Leaves t := by
  refine raises_of_guard (.completionGuard lease status code) fun locked u hu => ?_
  exact stale.not_honours (completionGuard_ok settled sound hu).2.1

/-- Every call with a stale lease raises before it has written anything. -/
theorem Store.Stale.raises (settled : s.Settled) (sound : s.rows.Sound limits s.clock)
    (stale : s.rows.Stale lease) (service : ExecutionService) (P : Platform) {call : Call} (presents : call.lease = some lease) :
    ∃ e t, call.run service P s = .error e t ∧ s.Leaves t := by
  cases call with
  | fenceSession presented =>
    injection presents with presents
    subst presents
    obtain ⟨e, t, h, leaves⟩ := stale.fence_raises settled sound .preparing .sessionFenced
      .sessionFenced rfl
    exact ⟨e, t, bind_eq_error.mpr (.inl h), leaves⟩
  | fenceDispatch presented =>
    injection presents with presents
    subst presents
    obtain ⟨e, t, h, leaves⟩ := stale.fence_raises settled sound .sessionFenced .dispatchFenced
      .dispatchFenced rfl
    exact ⟨e, t, bind_eq_error.mpr (.inl h), leaves⟩
  | heartbeat presented leaseDuration =>
    injection presents with presents
    subst presents
    obtain ⟨e, t, h, leaves⟩ := raises_of_guard (s := s)
      (.heartbeatGuard presented leaseDuration) fun _ _ hu =>
        stale.not_honours (heartbeatGuard_ok settled sound hu).2.2.1
    exact ⟨e, t, bind_eq_error.mpr (.inl h), leaves⟩
  | completeLease presented status code =>
    injection presents with presents
    subst presents
    obtain ⟨e, t, h, leaves⟩ := stale.completion_raises settled sound status code
    exact ⟨e, t, bind_eq_error.mpr (.inl h), leaves⟩
  | completeInvocationSuccess presented result =>
    injection presents with presents
    subst presents
    obtain ⟨e, t, h, leaves⟩ := stale.completion_raises settled sound .succeeded none
    -- the screen of the result comes before the lease is looked at
    by_cases screened : P.acceptsResult service.limits result = false
    · have raised : (raiseIf (P.acceptsResult service.limits result = false)
          (.execution .invalidArguments) : Tx Unit) s = .error (.execution .invalidArguments) s := by
        rw [raiseIf_apply, if_pos screened]
      exact ⟨_, s, bind_eq_error.mpr (.inl (bind_eq_error.mpr (.inl raised))), .refl s⟩
    · have passed : (raiseIf (P.acceptsResult service.limits result = false)
          (.execution .invalidArguments) : Tx Unit) s = .ok () s := raiseIf_eq_ok.mpr ⟨screened, rfl⟩
      exact ⟨e, t, bind_eq_error.mpr (.inl (bind_eq_error.mpr (.inr
        ⟨(), s, passed, bind_eq_error.mpr (.inl h)⟩))), leaves⟩
  | _ => cases presents

end Stale

/-! ## Leases handed out -/

/-- The lease that `claim_job` returned in this step. -/
def Label.claimed : Label → Option JobLease
  | .call _ _ (.ok (.claim lease _)) => lease
  | _ => none

/-- The lease that was handed out in this step, by `claim_job` or by `heartbeat`. -/
def Label.granted : Label → Option JobLease
  | .call _ _ (.ok (.claim lease _)) => lease
  | .call _ _ (.ok (.lease renewed)) => some renewed
  | _ => none

theorem Label.granted_of_claimed {l : Label} {lease : JobLease} (h : l.claimed = some lease) :
    l.granted = some lease := by
  unfold Label.claimed at h
  split at h
  · exact h
  · cases h

section Replies
variable {P : Platform} {service : ExecutionService} {call : Call} {s t : Session}

theorem Call.of_claim {lease : Option JobLease} {reconciled : List ReconciledJob}
    (h : call.run service P s = .ok (.claim lease reconciled) t) :
    ∃ workerId leaseDuration, call = .claimJob workerId leaseDuration ∧
      service.claimJob workerId leaseDuration s = .ok (lease, reconciled) t := by
  cases call with
  | claimJob workerId leaseDuration =>
    obtain ⟨claimed, u, hu, hr⟩ := bind_eq_ok.mp h
    injection hr with hr ht
    injection hr with hl hc
    subst hl hc ht
    exact ⟨workerId, leaseDuration, rfl, hu⟩
  | _ =>
    obtain ⟨_, _, _, hr⟩ := bind_eq_ok.mp h
    injection hr with hr _
    cases hr

theorem Call.of_lease {renewed : JobLease} (h : call.run service P s = .ok (.lease renewed) t) :
    ∃ lease leaseDuration, call = .heartbeat lease leaseDuration ∧
      Modall.heartbeat lease leaseDuration s = .ok renewed t := by
  cases call with
  | heartbeat lease leaseDuration =>
    obtain ⟨result, u, hu, hr⟩ := bind_eq_ok.mp h
    injection hr with hr ht
    injection hr with hr
    subst hr ht
    exact ⟨lease, leaseDuration, rfl, hu⟩
  | _ =>
    obtain ⟨_, _, _, hr⟩ := bind_eq_ok.mp h
    injection hr with hr _
    cases hr

end Replies

/-- What remains true of a lease once it has been handed out: its job has no earlier lease
epoch, and the system no earlier execution epoch. -/
structure World.Knows (limits : ExecutionLimits) (w : World) (lease : JobLease) : Prop where
  drawn : lease.jobId ∈ w.drawn
  leaseEpoch : ∀ {r run job}, (w.store.lineage r).Valid limits run job → job.id = lease.jobId →
    lease.leaseEpoch ≤ job.leaseEpoch
  executionEpoch : lease.executionEpoch ≤ w.store.executionEpoch

section Leases
variable {P : Platform} {limits : ExecutionLimits} {w w' : World} {l : Label} {ls : List Label}
  {lease : JobLease}

theorem World.Knows.later (h : w.Knows limits lease) (follows : w.Follows limits w') :
    w'.Knows limits lease where
  drawn := follows.drawn _ h.drawn
  leaseEpoch := by
    intro r run' job' valid' hid
    rcases follows.run valid' with ⟨run, job, valid, continues⟩ | ⟨-, fresh⟩
    · have old := h.leaseEpoch valid ((Job.id_of_pinned continues.pinnedJob).symm.trans hid)
      exact old.trans continues.epoch
    · exact (fresh (hid ▸ h.drawn)).elim
  executionEpoch := h.executionEpoch.trans follows.epoch

/-- A lease that is stale when it is known stays stale. -/
theorem Store.Stale.later (stale : w.store.Stale lease) (known : w.Knows limits lease)
    (inv' : w'.Invariant limits) (follows : w.Follows limits w') : w'.store.Stale lease := by
  rcases stale with stale | stale
  · left
    intro job' mem' hid
    obtain ⟨run', valid', -⟩ := inv'.sound.of_mem_jobs mem'
    rcases follows.run valid' with ⟨run, job, valid, continues⟩ | ⟨-, fresh⟩
    · have hid' : job.id = lease.jobId := (Job.id_of_pinned continues.pinnedJob).symm.trans hid
      have mem : job ∈ (w.store.lineage job'.runId).jobs := by simp [valid.jobs]
      have old := known.leaseEpoch valid hid'
      have grown := continues.epoch
      by_contra fresh
      rw [not_or, not_not, not_not] at fresh
      -- the epoch has not moved, so the job would have been leased before
      have same : job.leaseEpoch = lease.leaseEpoch := by omega
      have leased := continues.lease (fresh.2.trans same.symm) fresh.1
      rcases stale job (Store.mem_lineage_jobs.mp mem).1 hid' with h | h
      · exact h leased
      · exact h same
    · exact (fresh (hid ▸ known.drawn)).elim
  · right
    have old := known.executionEpoch
    have grown := follows.epoch
    omega

/-- What a lease granted by a claim has to do with the worlds before and after it. -/
theorem Step.claimed (h : Step P limits w l w') (inv : w.Invariant limits)
    (claims : l.claimed = some lease) : w.store.quarantined = false ∧
      lease.executionEpoch = w.store.executionEpoch ∧ ∃ r run job run' job',
        (w.store.lineage r).Valid limits run job ∧ job.id = lease.jobId ∧
        job.leaseEpoch < lease.leaseEpoch ∧ (w'.store.lineage r).Valid limits run' job' ∧
        job'.id = lease.jobId ∧ job'.leaseEpoch = lease.leaseEpoch := by
  cases l with
  | registry _ => cases claims
  | call service call result =>
    cases result with
    | error e => cases claims
    | ok reply =>
      cases reply with
      | claim granted reconciled =>
        cases granted with
        | none => cases claims
        | some granted =>
          obtain rfl : granted = lease := Option.some.inj claims
          obtain ⟨s, t, ran⟩ := h.ran
          obtain ⟨workerId, leaseDuration, -, hc⟩ := Call.of_claim ran.ran
          have sound := ran.sound inv
          obtain ⟨advanced, released, all⟩ := claimJob_ok ran.settled sound hc
          obtain ⟨u, run, job, grants⟩ := all granted rfl
          have hstore : t.rows = w'.store := by rw [ran.store, advanced.settled.flushed]
          rw [ran.rows] at released sound grants
          rw [hstore] at grants
          obtain ⟨job', hjobs, hid', hepoch', -⟩ := grants.leases.leased
          obtain ⟨run₀, job₀, valid₀, continues⟩ :=
            grants.before.continues sound grants.leases.valid
          have later := grants.before.sound sound
          have sound' := grants.after.sound later
          have valid' : ∃ run', (w'.store.lineage run.id).Valid limits run' job' := by
            rcases sound' run.id with he | ⟨run', job'', valid', -⟩
            · rw [he] at hjobs
              cases hjobs
            · obtain rfl := valid'.eq_job hjobs
              exact ⟨run', valid'⟩
          obtain ⟨run', valid'⟩ := valid'
          refine ⟨released, grants.leases.executionEpoch.trans grants.epoch, run.id, run₀, job₀,
            run', job', valid₀, ?_, ?_, valid', hid'.trans grants.leases.jobId.symm, hepoch'⟩
          · rw [← Job.id_of_pinned continues.pinnedJob, grants.leases.jobId]
          · rw [grants.leases.leaseEpoch]
            exact Nat.lt_succ_of_le continues.epoch
      | _ => cases claims

/-- What a successful heartbeat has to do with the world before it. -/
theorem Ran.heartbeat {service : ExecutionService} {call : Call} {renewed : JobLease}
    {s t : Session} (ran : Ran P limits w service call (.lease renewed) w' s t)
    (inv : w.Invariant limits) : w.store.quarantined = false ∧ w.store.Honours renewed := by
  obtain ⟨lease, leaseDuration, -, hb⟩ := Call.of_lease ran.ran
  obtain ⟨-, released, honours, heq⟩ := heartbeat_ok ran.settled (ran.sound inv) hb
  rw [ran.rows] at released honours
  rw [heq]
  exact ⟨released, honours⟩

theorem Store.Honours.knows (inv : w.Invariant limits) (h : w.store.Honours lease) :
    w.Knows limits lease := by
  obtain ⟨⟨job, mem, hid, -, -, hepoch⟩, execution⟩ := h
  obtain ⟨run, valid, -⟩ := inv.sound.of_mem_jobs mem
  refine ⟨hid ▸ (inv.drawn valid).2, ?_, execution.ge⟩
  intro r run' job' valid' hid'
  obtain rfl := inv.unique valid valid' (hid.trans hid'.symm)
  obtain rfl := valid'.eq_job valid.jobs
  exact hepoch.ge

theorem Step.knows (h : Step P limits w l w') (inv : w.Invariant limits)
    (grants : l.granted = some lease) : w'.Knows limits lease := by
  have inv' := h.invariant inv
  have follows := h.follows inv
  cases l with
  | registry _ => cases grants
  | call service call result =>
    cases result with
    | error e => cases grants
    | ok reply =>
      cases reply with
      | claim granted reconciled =>
        cases granted with
        | none => cases grants
        | some granted =>
          obtain ⟨-, execution, r, _, _, run', job', -, -, -, valid', hid, hepoch⟩ :=
            h.claimed inv grants
          refine ⟨hid ▸ (inv'.drawn valid').2, ?_, execution.le.trans follows.epoch⟩
          intro q run'' job'' valid'' hid''
          obtain rfl := inv'.unique valid' valid'' (hid.trans hid''.symm)
          obtain rfl := valid''.eq_job valid'.jobs
          exact hepoch.ge
      | lease renewed =>
        obtain rfl : renewed = lease := Option.some.inj grants
        obtain ⟨s, t, ran⟩ := h.ran
        exact ((ran.heartbeat inv).2.knows inv).later follows
      | _ => cases grants

/-- A lease handed out anywhere in an execution is known at its end. -/
theorem knows_of_path {w₀ : World} (path : Path (Step P limits) w₀ ls w)
    (inv : w₀.Invariant limits) (granted : ∃ l ∈ ls, l.granted = some lease) : w.Knows limits lease := by
  induction path with
  | nil => simp at granted
  | snoc first last ih =>
    have inv' := first.invariant (fun _ _ _ inv step => Step.invariant step inv) inv
    obtain ⟨l, mem, grants⟩ := granted
    rcases List.mem_append.mp mem with mem | mem
    · exact (ih ⟨l, mem, grants⟩).later (last.follows inv')
    · rw [List.mem_singleton] at mem
      exact last.knows inv' (mem ▸ grants)

/-- No two claims of an execution return the same lease of the same job. -/
theorem claims_distinct {w₀ : World} (path : Path (Step P limits) w₀ ls w)
    (inv : w₀.Invariant limits) : ls.Pairwise fun a b => ∀ first second, a.claimed = some first →
      b.claimed = some second → (first.jobId, first.leaseEpoch) ≠ (second.jobId, second.leaseEpoch) := by
  induction path with
  | nil => exact .nil
  | snoc before last ih =>
    have inv' := before.invariant (fun _ _ _ inv step => Step.invariant step inv) inv
    refine List.pairwise_append.mpr ⟨ih, List.pairwise_singleton _ _, ?_⟩
    intro a ha b hb first second claimed claims heq
    rw [List.mem_singleton] at hb
    subst hb
    obtain ⟨hjob, hepoch⟩ := Prod.mk.inj heq
    have known := knows_of_path before inv ⟨a, ha, Label.granted_of_claimed claimed⟩
    obtain ⟨-, -, r, run, job, -, -, valid, hid, smaller, -⟩ := last.claimed inv' claims
    have := known.leaseEpoch valid (hid.trans hjob.symm)
    omega

/-- A lease that has gone stale is inert for ever: whatever is done with it raises, before
anything has been written. And no two claims return the same lease of a job. -/
theorem stale_lease_inert {w₀ : World} (initial : w₀.Initial)
    (path : Path (Step P limits) w₀ ls w) :
    (∀ lease, (∃ l ∈ ls, l.granted = some lease) → w.store.Stale lease → w.store.system.isSome = true →
      ∀ ms w', Path (Step P limits) w ms w' → ∀ (service : ExecutionService) (call : Call),
        call.lease = some lease → ∀ ticks held, ∃ e t,
          call.run service P (.begin w'.store w'.clock ticks held []) = .error e t ∧
            t.rows = w'.store ∧ t.objects = w'.store) ∧
      ls.Pairwise fun a b => ∀ first second, a.claimed = some first →
        b.claimed = some second → (first.jobId, first.leaseEpoch) ≠ (second.jobId, second.leaseEpoch) := by
  have inv₀ : w₀.Invariant limits := initial.invariant
  have inv := path.invariant (fun _ _ _ inv step => Step.invariant step inv) inv₀
  refine ⟨?_, claims_distinct path inv₀⟩
  intro lease granted stale system ms w' onward service call presents ticks held
  have inv' := onward.invariant (fun _ _ _ inv step => Step.invariant step inv) inv
  have stale' := stale.later (knows_of_path path inv₀ granted) inv' (follows_of_path onward inv)
  obtain ⟨e, t, raised, leaves⟩ := stale'.raises
    (s := .begin w'.store w'.clock ticks held []) ⟨rfl, rfl⟩ inv'.sound service P presents
  obtain ⟨settled, hrows⟩ := leaves ⟨rfl, rfl⟩
    ((follows_of_path onward inv).system system)
  exact ⟨e, t, raised, hrows, settled.flushed.trans hrows⟩

theorem Sample.grants : (Sample.admitted.label Sample.platform Sample.service []
    (.claimJob "worker" 1000000)).granted = some Sample.lease := by decide +kernel

theorem stale_lease_inert_sample :
    Sample.completed.store.Stale Sample.lease ∧ ∀ (service : ExecutionService) ticks held, ∃ e t,
      (Call.fenceDispatch Sample.lease).run service Sample.platform
          (.begin Sample.completed.store Sample.completed.clock ticks held []) = .error e t ∧
        t.rows = Sample.completed.store ∧ t.objects = Sample.completed.store := by
  have stale : Sample.completed.store.Stale Sample.lease := by decide +kernel
  refine ⟨stale, fun service ticks held => ?_⟩
  exact (stale_lease_inert Sample.installed_initial
    (.snoc Sample.dispatches Sample.completes)).1 Sample.lease
    ⟨_, List.mem_append_left _ (List.mem_cons_of_mem _ List.mem_cons_self), Sample.grants⟩ stale
    (by decide +kernel) [] _ (.nil _)
    service (.fenceDispatch Sample.lease) rfl ticks held

/-! ## Restore quarantine -/

/-- A heartbeat, a session fence or a dispatch fence succeeded in this step. -/
def Label.fences : Label → Bool
  | .call _ (.heartbeat _ _) (.ok _) | .call _ (.fenceSession _) (.ok _)
  | .call _ (.fenceDispatch _) (.ok _) => true
  | _ => false

/-- The lease that a run was completed with in this step. -/
def Label.completed : Label → Option JobLease
  | .call _ (.completeLease lease _ _) (.ok _)
  | .call _ (.completeInvocationSuccess lease _) (.ok _) => some lease
  | _ => none

theorem Step.enters (h : Step P limits w l w') (enters : l.enters = true) :
    w'.store.executionEpoch = w.store.executionEpoch + 1 ∧ w'.store.quarantined = true := by
  unfold Label.enters at enters
  split at enters
  · obtain ⟨s, t, ran⟩ := h.ran
    obtain ⟨epoch, u, hu, hr⟩ := bind_eq_ok.mp ran.ran
    injection hr with _ ht
    subst ht
    obtain ⟨now, set⟩ := enterRestoreQuarantine_ok ran.settled hu
    obtain ⟨-, -, system⟩ := ran.systemSet set
    rw [Store.executionEpoch_of_system system, Store.quarantined_of_system system, ran.rows]
    exact ⟨rfl, rfl⟩
  · cases enters

theorem Step.idle_of_clears (h : Step P limits w l w') (clears : l.clears = true) :
    ∀ run ∈ w.store.runs, run.status.active = false := by
  unfold Label.clears at clears
  split at clears
  · obtain ⟨s, t, ran⟩ := h.ran
    obtain ⟨epoch, u, hu, hr⟩ := bind_eq_ok.mp ran.ran
    injection hr with _ ht
    subst ht
    rw [← ran.rows]
    exact (clearRestoreQuarantine_ok ran.settled hu).2.1
  · cases clears

theorem Step.quarantined (h : Step P limits w l w') (inv : w.Invariant limits)
    (quarantined : w.store.quarantined = true) (kept : l.clears = false) :
    w'.store.quarantined = true := by
  cases h.effect inv with
  | evolve evolves => rw [evolves.system.quarantined, quarantined]
  | replay _ consumes => rw [consumes.system.quarantined, quarantined]
  | admission _ _ _ _ _ admitted => rw [admitted.system.quarantined, quarantined]
  | enter _ _ hsystem _ hq => rw [Store.quarantined_of_system hsystem, hq]
  | clear clears => simp [kept] at clears
  | deletion _ hstore => rw [hstore]; exact quarantined
  | registry _ hsystem => rw [Store.quarantined, hsystem]; exact quarantined

/-- Under quarantine no run appears. -/
theorem Step.no_new_run (h : Step P limits w l w') (inv : w.Invariant limits)
    (quarantined : w.store.quarantined = true) {run' : Run} (mem : run' ∈ w'.store.runs) :
    ∃ run ∈ w.store.runs, run.id = run'.id := by
  obtain ⟨job', valid', -⟩ := (h.invariant inv).sound.of_mem_runs mem
  have old : ∃ run job, (w.store.lineage run'.id).Valid limits run job := by
    cases h.effect inv with
    | evolve evolves =>
      obtain ⟨run, job, valid, -⟩ := evolves.continues inv.sound valid'
      exact ⟨run, job, valid⟩
    | replay _ consumes =>
      obtain ⟨run, job, valid, -⟩ := consumes.continues valid'
      exact ⟨run, job, valid⟩
    | admission _ _ _ _ _ admitted =>
      have := admitted.released
      simp [quarantined] at this
    | enter _ lineage | clear _ _ lineage | registry lineage =>
      rw [lineage] at valid'
      exact ⟨run', job', valid'⟩
    | deletion _ hstore =>
      rw [hstore] at valid'
      obtain ⟨run, job, valid, -⟩ := Store.continues_of_deleteRuns valid'
      exact ⟨run, job, valid⟩
  obtain ⟨run, job, valid⟩ := old
  have mine : run ∈ (w.store.lineage run'.id).runs := by simp [valid.runs]
  exact ⟨run, Store.mem_lineage_runs.mp mine⟩

theorem Step.released_of_grants (h : Step P limits w l w') (inv : w.Invariant limits)
    (grants : l.granted = some lease) : w.store.quarantined = false := by
  unfold Label.granted at grants
  split at grants
  · exact (h.claimed inv grants).1
  · obtain ⟨s, t, ran⟩ := h.ran
    exact (ran.heartbeat inv).1
  · cases grants

theorem Step.released_of_fences (h : Step P limits w l w') (inv : w.Invariant limits)
    (fences : l.fences = true) : w.store.quarantined = false := by
  unfold Label.fences at fences
  split at fences
  · obtain ⟨s, t, ran⟩ := h.ran
    obtain ⟨_, u, hu, -⟩ := bind_eq_ok.mp ran.ran
    exact ran.rows ▸ (heartbeat_ok ran.settled (ran.sound inv) hu).2.1
  · obtain ⟨s, t, ran⟩ := h.ran
    obtain ⟨_, u, hu, -⟩ := bind_eq_ok.mp ran.ran
    obtain ⟨-, _, _, _, _, _, holds⟩ := fenceSession_ok ran.settled (ran.sound inv) hu
    exact ran.rows ▸ holds.released
  · obtain ⟨s, t, ran⟩ := h.ran
    obtain ⟨_, u, hu, -⟩ := bind_eq_ok.mp ran.ran
    obtain ⟨-, _, _, _, _, _, holds⟩ := fenceDispatch_ok ran.settled (ran.sound inv) hu
    exact ran.rows ▸ holds.released
  · cases fences

theorem Step.honours_of_completes (h : Step P limits w l w') (inv : w.Invariant limits)
    (completes : l.completed = some lease) : w.store.Honours lease := by
  unfold Label.completed at completes
  split at completes
  · obtain rfl := Option.some.inj completes
    obtain ⟨s, t, ran⟩ := h.ran
    obtain ⟨_, u, hu, -⟩ := bind_eq_ok.mp ran.ran
    exact ran.rows ▸ (completeLease_ok ran.settled (ran.sound inv) hu).2.1
  · obtain rfl := Option.some.inj completes
    obtain ⟨s, t, ran⟩ := h.ran
    obtain ⟨_, u, hu, -⟩ := bind_eq_ok.mp ran.ran
    exact ran.rows ▸ (completeInvocationSuccess_ok ran.settled (ran.sound inv) hu).2
  · cases completes

theorem quarantined_of_path (path : Path (Step P limits) w ls w') (inv : w.Invariant limits)
    (quarantined : w.store.quarantined = true) (kept : ∀ l ∈ ls, l.clears = false) :
    w'.store.quarantined = true := by
  induction path with
  | nil => exact quarantined
  | snoc first last ih =>
    have inv' := first.invariant (fun _ _ _ inv step => Step.invariant step inv) inv
    refine last.quarantined inv' (ih fun l mem => ?_) (kept _ (by simp))
    exact kept l (by simp [mem])

/-- The restore quarantine is a barrier. The execution epoch never decreases and grows at every
entry; until the next clear nothing is created, leased, renewed or fenced; a lease from before
completes nothing, not even after the clear; a clear needs every run to have ended; and outside
a quarantine every active run is in the current epoch. -/
theorem quarantine_is_barrier {w₀ : World} (initial : w₀.Initial)
    (path : Path (Step P limits) w₀ ls w) :
    (w.store.quarantined = false → ∀ run ∈ w.store.runs, run.status.active = true →
      ∀ job ∈ w.store.jobs, job.runId = run.id → job.executionEpoch = w.store.executionEpoch) ∧
    ∀ l w', Step P limits w l w' → w.store.executionEpoch ≤ w'.store.executionEpoch ∧
      (l.clears = true → ∀ run ∈ w.store.runs, run.status.active = false) ∧
      (l.enters = true → w.store.executionEpoch < w'.store.executionEpoch ∧
        ∀ ms w₁ m w₂, Path (Step P limits) w' ms w₁ → Step P limits w₁ m w₂ →
          (∀ lease, (∃ l ∈ ls, l.granted = some lease) → m.completed ≠ some lease) ∧
          ((∀ m' ∈ ms, m'.clears = false) → m.granted = none ∧ m.fences = false ∧
            ∀ run ∈ w₂.store.runs, ∃ old ∈ w₁.store.runs, old.id = run.id)) := by
  have inv₀ : w₀.Invariant limits := initial.invariant
  have inv := path.invariant (fun _ _ _ inv step => Step.invariant step inv) inv₀
  refine ⟨fun released run mem active job hjob hrun => ?_, fun l w' step => ⟨?_, ?_, ?_⟩⟩
  · obtain ⟨job', valid, -⟩ := inv.sound.of_mem_runs mem
    have mine := Store.mem_lineage_jobs.mpr ⟨hjob, hrun⟩
    rw [valid.jobs, List.mem_singleton] at mine
    rw [mine]
    exact (inv.epoch valid).2 released (by simpa using active)
  · exact (step.follows inv).epoch
  · exact step.idle_of_clears
  · intro enters
    obtain ⟨hepoch, quarantined⟩ := step.enters enters
    refine ⟨by omega, fun ms w₁ m w₂ onward next => ?_⟩
    have inv' := step.invariant inv
    have inv₁ := onward.invariant (fun _ _ _ inv step => Step.invariant step inv) inv'
    refine ⟨fun lease granted completes => ?_, fun kept => ?_⟩
    · have old := (knows_of_path path inv₀ granted).executionEpoch
      have grown := (follows_of_path onward inv').epoch
      have honours := (next.honours_of_completes inv₁ completes).2
      omega
    · have held := quarantined_of_path onward inv' quarantined kept
      refine ⟨?_, ?_, fun run mem => next.no_new_run inv₁ held mem⟩
      · by_contra some
        obtain ⟨lease, grants⟩ := Option.ne_none_iff_exists'.mp some
        have := next.released_of_grants inv₁ grants
        simp [held] at this
      · by_contra fences
        have := next.released_of_fences inv₁ (by simpa using fences)
        simp [held] at this

/-- The sample installation with a quarantine entered while its run is out. -/
def Sample.quarantined : World :=
  Sample.dispatched.after Sample.platform Sample.service [] .enterRestoreQuarantine

theorem Sample.quarantines : Step Sample.platform .default Sample.dispatched
    (Sample.dispatched.label Sample.platform Sample.service [] .enterRestoreQuarantine)
    Sample.quarantined :=
  World.step_after Sample.platform Sample.service [] .enterRestoreQuarantine Sample.dispatched
    nofun nofun

theorem quarantine_is_barrier_sample :
    Sample.dispatched.store.executionEpoch < Sample.quarantined.store.executionEpoch ∧
      ∀ m w₂, Step Sample.platform .default Sample.quarantined m w₂ →
        m.completed ≠ some Sample.lease ∧ m.granted = none := by
  obtain ⟨-, all⟩ := quarantine_is_barrier Sample.installed_initial Sample.dispatches
  obtain ⟨-, -, entered⟩ := all _ _ Sample.quarantines
  obtain ⟨grown, barrier⟩ := entered (by decide +kernel)
  refine ⟨grown, fun m w₂ step => ?_⟩
  obtain ⟨old, closed⟩ := barrier [] Sample.quarantined m w₂ (.nil _) step
  exact ⟨old Sample.lease ⟨_, List.mem_cons_of_mem _ List.mem_cons_self, Sample.grants⟩,
    (closed (by simp)).1⟩

end Leases

end Modall
