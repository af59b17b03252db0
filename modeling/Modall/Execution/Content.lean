import Modall.Execution.Leases

/-!
# What the ledger retains

Arguments are kept while a run is active, results only for runs that succeeded, and the rows of a
run only until everything they hold has expired. What happens to the content of one run is part of
its life (`Lineage.Content`); that a result is what the worker was accepted with is a fact about each
row, kept by every program that adds no results of its own.
-/
namespace Modall
open Library

/-! ## Rows of the results table -/

/-- Every result row, flushed or not, satisfies `G`, and no other transaction is about. -/
def Session.Results (G : RunResult → Prop) (s : Session) : Prop :=
  s.commits = [] ∧ (∀ x ∈ s.rows.results, G x) ∧ ∀ x ∈ s.objects.results, G x

/-- A program that adds no result without the property. -/
abbrev Yields {α : Type} (G : RunResult → Prop) (x : Tx α) : Prop :=
  Keeps (fun s t : Session => s.Results G → t.Results G) x

section Yields
variable {α β : Type} {G : RunResult → Prop}

theorem Yields.bind {x : Tx α} {f : α → Tx β} (hx : Yields G x) (hf : ∀ a, Yields G (f a)) :
    Yields G (x >>= f) :=
  Keeps.bind (R := fun s t : Session => s.Results G → t.Results G) (fun _ _ _ h g hs => g (h hs)) hx hf

theorem Reads.yields {x : Tx α} (h : Reads x) : Yields G x := by
  have waits {s t : Session} (h : s.Waits t) (hs : s.Results G) : t.Results G := by
    obtain ⟨rows, objects, commits, -⟩ := h.quiet hs.1
    exact ⟨commits, rows ▸ hs.2.1, objects ▸ hs.2.2⟩
  exact fun s => ⟨fun a t hx => waits (h.ok hx), fun e t hx => waits (h.error hx)⟩

theorem Yields.pure (a : α) : Yields G (pure a : Tx α) := (Reads.pure a).yields

theorem Yields.assign {f : Store → Store}
    (h : ∀ store, (∀ x ∈ store.results, G x) → ∀ x ∈ (f store).results, G x) :
    Yields G (assign f) := Keeps.change _ fun _ hs => ⟨hs.1, hs.2.1, h _ hs.2.2⟩

/-- Assignments to the other tables. -/
theorem Yields.elsewhere {f : Store → Store} (h : ∀ store, (f store).results = store.results) :
    Yields G (Modall.assign f) := .assign fun store hs => by rw [h store]; exact hs

theorem Yields.flush : Yields G flush := Keeps.change _ fun _ hs => ⟨hs.1, hs.2.2, hs.2.2⟩

/-- A statement that deletes results at most. -/
theorem Yields.execute {f : Store → Store} (h : ∀ store, (f store).results.Sublist store.results) :
    Yields G (execute f) :=
  Keeps.change _ fun _ hs => ⟨hs.1, fun x hx => hs.2.1 x ((h _).subset hx),
    fun x hx => hs.2.2 x ((h _).subset hx)⟩

theorem Yields.runSome {f : α → Tx Unit} (hf : ∀ a, Yields G (f a)) (a : Option α) :
    Yields G (runSome a f) := by
  cases a with
  | none => exact .pure ()
  | some a => exact hf a

theorem Yields.runIf {x : Tx Unit} (c : Prop) [Decidable c] (hx : Yields G x) :
    Yields G (runIf c x) := Keeps.runIf (fun _ hs => hs) c hx

theorem Yields.forM {f : α → Tx Unit} (hf : ∀ a, Yields G (f a)) (as : List α) :
    Yields G (forM as f) := by
  induction as with
  | nil => exact .pure ()
  | cons a as ih => exact .bind (hf a) fun _ => ih

end Yields

/-! ## The programs of the ledger -/

section programs
variable {G : RunResult → Prop}

theorem Yields.executionState : Yields G executionState := by
  refine .bind (Reads.query _).yields fun state => ?_
  cases state with
  | some state => exact .pure state
  | none =>
    exact .bind Reads.durableNow.yields fun _ => .bind (.elsewhere fun _ => rfl) fun _ =>
      .bind .flush fun _ => .pure _

theorem Yields.appendNextEvent (run : Run) (eventType : RunEventType) (status : RunStatus)
    (code : Option RunFailureCode) (now : Time) :
    Yields G (appendNextEvent run eventType status code now) :=
  .bind (Reads.query _).yields fun _ => .elsewhere fun _ => rfl

theorem Yields.terminalizeJob (status : RunStatus) (now : Time) (job : Job) :
    Yields G (terminalizeJob status now job) := by
  refine .bind (Reads.yields ?_) fun _ => .elsewhere fun _ => rfl
  unfold jobStatusOf
  split
  · exact .pure _
  · exact .throw _

theorem Yields.terminalizeRun (run : Run) (status : RunStatus) (now : Time) (code : RunFailureCode)
    (eventType : RunEventType) : Yields G (terminalizeRun run status now code eventType) := by
  refine .bind (.elsewhere fun _ => rfl) fun _ => .bind (Reads.scalar _ _ _).yields fun _ => ?_
  refine .bind (.runSome (.terminalizeJob _ _) _) fun _ => .bind (Reads.query _).yields fun _ => ?_
  refine .bind (.runSome (fun attempt => ?_) _) fun _ => .appendNextEvent _ _ _ _ _
  exact .elsewhere fun _ => rfl

theorem Reads.lockRunJobs (p : Run → Job → Bool) (before : Job → Job → Prop) [DecidableRel before]
    (limit : Nat) : Reads (lockRunJobs p before limit) :=
  .bind (.query _) fun _ => .bind .othersCommit fun _ => .query _

theorem Reads.lockRuns (p : Run → Bool) (before : Run → Run → Prop) [DecidableRel before]
    (limit : Nat) : Reads (lockRuns p before limit) :=
  .bind (.query _) fun _ => .bind .othersCommit fun _ => .query _

theorem Yields.endClaim (run : Run) (job : Job) (status : RunStatus) (now : Time)
    (code : RunFailureCode) (reconciled : List ReconciledJob) :
    Yields G (endClaim run job status now code reconciled) :=
  .bind (.terminalizeRun _ _ _ _ _) fun _ => .bind .flush fun _ => .pure _

theorem Yields.reclaim (run : Run) (job : Job) (now : Time) : Yields G (reclaim run job now) := by
  refine .runIf _ (.bind (Reads.query _).yields fun _ => .runSome (fun previous => ?_) _)
  exact .bind (.elsewhere fun _ => rfl) fun _ => .bind (.appendNextEvent _ _ _ _ _) fun _ => .flush

theorem Yields.grantLease (run : Run) (job : Job) (workerId : String) (leaseDuration : Int)
    (now : Time) : Yields G (grantLease run job workerId leaseDuration now) := by
  refine .bind (.elsewhere fun _ => rfl) fun _ => .bind (Reads.query _).yields fun _ => ?_
  refine .bind (.elsewhere fun _ => rfl) fun _ => .bind (.elsewhere fun _ => rfl) fun _ => ?_
  exact .bind (.appendNextEvent _ _ _ _ _) fun _ => .bind .flush fun _ => .pure _

theorem Yields.claimLocked (run : Run) (job : Job) (workerId : String) (leaseDuration : Int)
    (reconciled : List ReconciledJob) :
    Yields G (claimLocked run job workerId leaseDuration reconciled) := by
  refine .bind Reads.durableNow.yields fun now => ?_
  split
  · exact .endClaim _ _ _ _ _ _
  · refine .bind (Reads.query _).yields fun current => .bind Reads.durableNow.yields fun now' => ?_
    split
    · exact .endClaim _ _ _ _ _ _
    · split
      · exact .endClaim _ _ _ _ _ _
      · exact .bind (.reclaim _ _ _) fun _ => .bind (.grantLease _ _ _ _ _) fun _ => .pure _

theorem Yields.claimJob (service : ExecutionService) (workerId : String) (leaseDuration : Int) :
    Yields G (service.claimJob workerId leaseDuration) := by
  have opening : Yields G (openClaim workerId leaseDuration) :=
    .bind (Reads.raiseIf _ _).yields fun _ => .bind Reads.durableNow.yields fun _ =>
      .bind .executionState fun _ => .bind (Reads.raiseIf _ _).yields fun _ => .pure _
  have expired (now : Time) : Yields G (service.terminalizeExpiredJobs now) :=
    .bind (Reads.lockRunJobs _ _ _).yields fun _ =>
      .bind (.forM (fun _ => .terminalizeRun _ _ _ _ _) _) fun _ => .pure _
  have abandoned (now : Time) : Yields G (service.terminalizeAbandonedDispatches now) :=
    .bind (Reads.lockRunJobs _ _ _).yields fun _ =>
      .bind (.forM (fun _ => .terminalizeRun _ _ _ _ _) _) fun _ => .bind .flush fun _ => .pure _
  have claiming (state : SystemExecutionState) (now : Time) : Reads (lockClaimable state now) := by
    refine .bind (.lockRunJobs _ _ _) fun rows => ?_
    split
    · exact .pure _
    · exact .bind (.scalar _ _ _) fun _ => .pure _
  have sweeping : Yields G (service.sweep workerId leaseDuration) :=
    .bind (.bind opening fun _ => .bind (expired _) fun _ => .bind .flush fun _ => .pure _)
      fun _ => .bind (abandoned _) fun _ => .pure _
  refine .bind sweeping fun swept => .bind (claiming _ _).yields fun claimed => ?_
  split
  · exact .pure _
  · exact .claimLocked _ _ _ _ _

theorem Yields.fenceAttempt (lease : JobLease) (expected target : RunStatus)
    (eventType : RunEventType) : Yields G (fenceAttempt lease expected target eventType) := by
  have guard : Yields G (fenceGuard lease expected) := by
    refine .bind .executionState fun state => Reads.yields (.bind (.selectRow _ _) fun _ => ?_)
    refine .bind (.raiseIf _ _) fun _ => .bind (.lockedLeaseLineage lease) fun locked => ?_
    refine .bind (.query _) fun _ => .bind (.query _) fun attempt => .bind .durableNow fun _ => ?_
    refine .bind (.raiseIf _ _) fun _ => ?_
    cases attempt with
    | none => exact .throw _
    | some attempt => exact .bind (.raiseIf _ _) fun _ => .pure _
  refine .bind guard fun _ => .bind (.elsewhere fun _ => rfl) fun _ => ?_
  exact .bind (.elsewhere fun _ => rfl) fun _ => .bind (.appendNextEvent _ _ _ _ _) fun _ =>
    .bind .flush fun _ => .pure _

theorem Yields.heartbeat (lease : JobLease) (leaseDuration : Int) :
    Yields G (heartbeat lease leaseDuration) := by
  have guard : Yields G (heartbeatGuard lease leaseDuration) := by
    refine .bind (Reads.raiseIf _ _).yields fun _ => .bind .executionState fun _ => Reads.yields ?_
    exact .bind (.lockedLeaseLineage lease) fun _ => .bind .durableNow fun _ =>
      .bind (.raiseIf _ _) fun _ => .bind (.raiseIf _ _) fun _ => .pure _
  exact .bind guard fun _ => .bind (.elsewhere fun _ => rfl) fun _ => .bind .flush fun _ => .pure _

theorem Yields.completeLease (lease : JobLease) (status : RunStatus)
    (code : Option RunFailureCode) : Yields G (completeLease lease status code) := by
  have guard : Yields G (completionGuard lease status code) := by
    refine .bind (Reads.raiseIf _ _).yields fun _ => .bind (Reads.raiseIf _ _).yields fun _ => ?_
    refine .bind .executionState fun _ => Reads.yields (.bind (.lockedLeaseLineage lease) fun _ => ?_)
    exact .bind .durableNow fun _ => .bind (.raiseIf _ _) fun _ => .bind (.raiseIf _ _) fun _ =>
      .pure _
  refine .bind guard fun ⟨run, job, now⟩ => ?_
  dsimp only
  split
  · exact .bind (.terminalizeRun _ _ _ _ _) fun _ => .bind .flush fun _ => .pure _
  · refine .bind (Reads.raiseIf _ _).yields fun _ => .bind (Reads.query _).yields fun attempt => ?_
    cases attempt with
    | none => exact (Reads.throw _).yields
    | some attempt =>
      refine .bind (Reads.raiseIf _ _).yields fun _ => .bind (Reads.raiseIf _ _).yields fun _ => ?_
      refine .bind (.elsewhere fun _ => rfl) fun _ => .bind (.elsewhere fun _ => rfl) fun _ => ?_
      exact .bind (.terminalizeJob _ _ _) fun _ => .bind (.appendNextEvent _ _ _ _ _) fun _ =>
        .bind .flush fun _ => .pure _

theorem Yields.cancelRun (context : WorkspaceContext) (runId correlationId : Uuid) :
    Yields G (cancelRun context runId correlationId) := by
  refine .bind (Reads.requireCurrentRole _ _ _).yields fun _ => .bind (Reads.yields ?_) fun run => ?_
  · refine .bind (.lockRun _) fun run => ?_
    cases run with
    | none => exact .throw _
    | some run => exact .pure _
  · refine .bind (Reads.requireCurrentRole _ _ _).yields fun _ => ?_
    split
    · exact .pure _
    · refine .bind Reads.durableNow.yields fun now => .bind (.elsewhere fun _ => rfl) fun _ => ?_
      refine .bind ?_ fun _ => .bind (Reads.query _).yields fun _ =>
        .bind (.elsewhere fun _ => rfl) fun _ => .bind .flush fun _ => .pure _
      unfold cancelActive
      split
      · exact .terminalizeRun _ _ _ _ _
      · split
        · exact .terminalizeRun _ _ _ _ _
        · exact .bind (.elsewhere fun _ => rfl) fun _ => .appendNextEvent _ _ _ _ _

theorem Yields.expireRetainedContent (batchSize : Int) :
    Yields G (expireRetainedContent batchSize) := by
  refine .bind (Reads.raiseIf _ _).yields fun _ => .bind Reads.durableNow.yields fun now => ?_
  refine .bind (Reads.lockRuns _ _ _).yields fun _ => .bind (.forM (fun run => ?_) _) fun _ =>
    .bind .flush fun _ => .pure _
  refine .bind ?_ fun _ => .elsewhere fun _ => rfl
  unfold endContent
  split
  · exact .terminalizeRun _ _ _ _ _
  · exact .appendNextEvent _ _ _ _ _

theorem Yields.expireRetainedResults (batchSize : Int) :
    Yields G (expireRetainedResults batchSize) :=
  .bind (Reads.raiseIf _ _).yields fun _ => .bind Reads.durableNow.yields fun _ =>
    .bind (Reads.query _).yields fun _ => .bind (.execute fun _ => List.filter_sublist) fun _ =>
      .pure _

theorem Yields.createRun (service : ExecutionService) (P : Platform) (request : RunRequest) :
    Yields G (service.createRun P request) := by
  have history : Reads (service.requireConfirmationKeyHistory P) :=
    .bind (.query _) fun _ => .bind (.raiseIf _ _) fun _ => .bind (.query _) fun _ => .raiseIf _ _
  have history' : Reads (service.requireIdempotencyKeyHistory P) :=
    .bind (.query _) fun _ => .raiseIf _ _
  have present : Yields G (service.presentRun P request) := by
    refine .bind .executionState fun _ => Reads.yields (.bind (.requireCurrentRole _ _ _) fun _ => ?_)
    refine .bind (.lift _) fun _ => .bind history fun _ => .bind history' fun _ => ?_
    refine .bind (.lift _) fun _ => .bind .durableNow fun _ => .bind (.raiseIf _ _) fun _ => ?_
    exact .bind (.lift _) fun _ => .bind (.raiseIf _ _) fun _ => .pure _
  have replay (presented : Presented) (record : IdempotencyRecord) :
      Yields G (service.replayPresented P request presented record) := by
    unfold ExecutionService.replayPresented ExecutionService.replayExistingRun
    split
    · exact (Reads.throw _).yields
    · refine .bind (Reads.raiseIf _ _).yields fun _ => .bind (Reads.lockRun _).yields fun run => ?_
      cases run with
      | none => exact (Reads.throw _).yields
      | some run =>
        refine .bind (Reads.selectRow _ _).yields fun _ => .bind (Reads.raiseIf _ _).yields fun _ => ?_
        refine .bind (Reads.requireCurrentRole _ _ _).yields fun _ => ?_
        refine .bind (Reads.raiseIf _ _).yields fun _ => .bind (Reads.selectRow _ _).yields fun used => ?_
        refine .bind Reads.durableNow.yields fun _ => ?_
        cases used with
        | some nonce => exact .bind (Reads.raiseIf _ _).yields fun _ => .pure _
        | none => exact .bind (.elsewhere fun _ => rfl) fun _ => .bind .flush fun _ => .pure _
  have insert (presented : Presented) (target : AdmissionTarget) (deadline now : Time) :
      Yields G (service.insertRun P request presented target deadline now) := by
    refine .bind (.elsewhere fun _ => rfl) fun _ => .bind .flush fun _ => ?_
    refine .bind (.elsewhere fun _ => rfl) fun _ => .bind (.elsewhere fun _ => rfl) fun _ => ?_
    refine .bind (.elsewhere fun _ => rfl) fun _ => .bind (.elsewhere fun _ => rfl) fun _ => ?_
    exact .bind (.elsewhere fun _ => rfl) fun _ => .bind .flush fun _ => .pure _
  have admitted (presented : Presented) (now : Time) :
      Yields G (service.admitRun P request presented now) := by
    refine .bind (Reads.selectRow _ _).yields fun _ => .bind (Reads.raiseIf _ _).yields fun _ => ?_
    refine .bind (Reads.raiseIf _ _).yields fun _ => .bind (Reads.lift _).yields fun _ => ?_
    refine .bind (Reads.loadAdmissionTarget _ _).yields fun _ => ?_
    refine .bind (Reads.raiseIf _ _).yields fun _ => .bind (Reads.lift _).yields fun _ => ?_
    refine .bind Reads.durableNow.yields fun _ => .bind (Reads.raiseIf _ _).yields fun _ => ?_
    refine .bind (Reads.lift _).yields fun _ => .bind (Reads.raiseIf _ _).yields fun _ => ?_
    exact .bind (Reads.query _).yields fun _ => .bind (Reads.raiseIf _ _).yields fun _ =>
      insert _ _ _ _
  refine .bind present fun presented => .bind (Reads.selectRow _ _).yields fun record => ?_
  cases record with
  | some record => exact replay presented record
  | none =>
    refine .bind (Reads.requireCurrentRole _ _ _).yields fun _ => ?_
    refine .bind Reads.durableNow.yields fun now => .bind history.yields fun _ => ?_
    refine .bind history'.yields fun _ => .bind (Reads.selectRow _ _).yields fun record => ?_
    cases record with
    | some record => exact replay presented record
    | none => exact admitted presented now

end programs

/-- A result row is the content that the worker was accepted with. -/
structure RunResult.Accepted (P : Platform) (limits : ExecutionLimits) (r : RunResult) : Prop where
  content : ∃ canonical, P.canonicalJson r.payload = some canonical ∧
    P.sha256 canonical = r.canonicalDigest ∧ (canonical.utf8ByteSize : Int) = r.byteCount
  expires : r.expiresAt = r.capturedAt + days limits.resultRetentionDays

theorem Platform.content_of_acceptsResult {P : Platform} {limits : ExecutionLimits}
    {result : AcceptedToolResult} (h : P.acceptsResult limits result = true) :
    ∃ canonical, P.canonicalJson result.payload = some canonical ∧
      P.sha256 canonical = result.canonicalDigest ∧
      (canonical.utf8ByteSize : Int) = result.byteCount := by
  unfold Platform.acceptsResult at h
  cases hc : P.canonicalJson result.payload with
  | none => simp [hc] at h
  | some canonical =>
    simp only [hc, Bool.and_eq_true, beq_iff_eq] at h
    exact ⟨canonical, rfl, h.2.1.2, h.2.1.1.2⟩

section calls
variable {P : Platform} {service : ExecutionService}

theorem Yields.completeInvocationSuccess (lease : JobLease) (result : AcceptedToolResult) :
    Yields (RunResult.Accepted P service.limits)
      (service.completeInvocationSuccess P lease result) := by
  refine Keeps.raiseIf_bind (fun _ hs => hs) fun screened => ?_
  have content := Platform.content_of_acceptsResult (by simpa using screened)
  refine Yields.bind (.completeLease _ _ _) fun run => ?_
  split
  · exact .pure _
  · refine .bind (Reads.yields ?_) fun capturedAt => .bind (.assign fun store hs x hx => ?_)
      fun _ => .bind .flush fun _ => .pure _
    · unfold captureTime
      split
      · exact .pure _
      · exact .durableNow
    · rcases List.mem_append.mp hx with hx | hx
      · exact hs x hx
      · rw [List.mem_singleton.mp hx]
        exact ⟨content, rfl⟩

/-- Whatever is called, the results that are there afterwards are accepted ones. -/
theorem Yields.run (call : Call) :
    Yields (RunResult.Accepted P service.limits) (call.run service P) := by
  cases call with
  | preflight _ _ _ _ => exact .bind (Reads.preflight _ _ _ _ _ _).yields fun _ => .pure _
  | createRun request => exact .bind (.createRun _ _ _) fun _ => .pure _
  | claimJob _ _ => exact .bind (.claimJob _ _ _) fun _ => .pure _
  | fenceSession _ | fenceDispatch _ => exact .bind (.fenceAttempt _ _ _ _) fun _ => .pure _
  | heartbeat _ _ => exact .bind (.heartbeat _ _) fun _ => .pure _
  | completeLease _ _ _ => exact .bind (.completeLease _ _ _) fun _ => .pure _
  | completeInvocationSuccess _ _ => exact .bind (.completeInvocationSuccess _ _) fun _ => .pure _
  | cancelRun _ _ _ => exact .bind (.cancelRun _ _ _) fun _ => .pure _
  | enterRestoreQuarantine =>
    refine .bind (.bind (Reads.raiseIf _ _).yields fun _ => ?_) fun _ => .pure _
    exact .bind Reads.durableNow.yields fun _ => .bind .executionState fun _ =>
      .bind (.elsewhere fun _ => rfl) fun _ => .bind .flush fun _ => .pure _
  | reconcileRestoreQuarantine _ =>
    refine .bind (.bind (Reads.raiseIf _ _).yields fun _ => ?_) fun _ => .pure _
    refine .bind (Reads.raiseIf _ _).yields fun _ => .bind .executionState fun _ => ?_
    refine .bind (Reads.raiseIf _ _).yields fun _ => .bind Reads.durableNow.yields fun _ => ?_
    exact .bind (Reads.lockRuns _ _ _).yields fun _ =>
      .bind (.forM (fun _ => .terminalizeRun _ _ _ _ _) _) fun _ => .bind .flush fun _ => .pure _
  | clearRestoreQuarantine =>
    refine .bind (.bind (Reads.raiseIf _ _).yields fun _ => ?_) fun _ => .pure _
    refine .bind .executionState fun _ => .bind (Reads.query _).yields fun _ => ?_
    exact .bind (Reads.raiseIf _ _).yields fun _ => .bind Reads.durableNow.yields fun _ =>
      .bind (.elsewhere fun _ => rfl) fun _ => .bind .flush fun _ => .pure _
  | expireRetainedContent _ => exact .bind (.expireRetainedContent _) fun _ => .pure _
  | expireRetainedResults _ => exact .bind (.expireRetainedResults _) fun _ => .pure _
  | deleteExpiredRunMetadata _ =>
    refine .bind (.bind (Reads.raiseIf _ _).yields fun _ => ?_) fun _ => .pure _
    exact .bind Reads.durableNow.yields fun _ => .bind (Reads.lockRuns _ _ _).yields fun _ =>
      .bind (.execute fun _ => List.filter_sublist) fun _ => .pure _

end calls

/-! ## Retention over whole executions -/

section Retention
variable {P : Platform} {limits : ExecutionLimits} {w w' : World} {l : Label}

/-- What is fixed at admission stays. -/
theorem Lineage.Kept.continues {m m' : Lineage} {run run' : Run} {job job' : Job}
    (h : m.Kept limits run) (continues : m.Continues run job m' run' job') :
    m'.Kept limits run' := by
  have created := Run.createdAt_of_pinned continues.pinnedRun
  have expires : run'.argumentsExpiresAt = run.argumentsExpiresAt :=
    (congrArg Run.argumentsExpiresAt continues.pinnedRun :)
  refine ⟨by rw [expires, created, h.arguments], fun record mem => ?_⟩
  rw [continues.records] at mem
  rw [created, h.record record mem]

/-- What the ledger promises about the content it holds. -/
structure World.Retains (P : Platform) (limits : ExecutionLimits) (w : World) : Prop where
  invariant : w.Invariant limits
  content : ∀ {r run job}, (w.store.lineage r).Valid limits run job →
    (w.store.lineage r).Content run ∧ (w.store.lineage r).Kept limits run
  accepted : ∀ x ∈ w.store.results, x.Accepted P limits

theorem Effect.content (effect : Effect limits w l w') (h : w.Retains P limits) {r : Uuid}
    {run' : Run} {job' : Job} (valid' : (w'.store.lineage r).Valid limits run' job') :
    (w'.store.lineage r).Content run' ∧ (w'.store.lineage r).Kept limits run' := by
  have unchanged (same : w'.store.lineage r = w.store.lineage r) :
      (w'.store.lineage r).Content run' ∧ (w'.store.lineage r).Kept limits run' := by
    rw [same] at valid' ⊢
    exact h.content valid'
  cases effect with
  | evolve evolves =>
    obtain ⟨run, job, valid, continues⟩ := evolves.continues h.invariant.sound valid'
    obtain ⟨content, kept⟩ := h.content valid
    exact ⟨(evolves.steps r).content valid content valid'.runs, kept.continues continues⟩
  | replay _ consumes =>
    rcases consumes.lineage r with same | ⟨-, nonce, added⟩
    · exact unchanged same
    · rw [added] at valid' ⊢
      obtain ⟨content, kept⟩ := h.content (show (w.store.lineage r).Valid limits run' job' from
        { valid' with })
      exact ⟨{ content with }, { kept with }⟩
  | @admission service request run job _ _ _ _ _ admitted =>
    by_cases hr : r = request.runId
    · subst hr
      obtain rfl := valid'.eq_run admitted.valid.runs
      exact ⟨admitted.content, admitted.kept⟩
    · exact unchanged (admitted.other r hr)
  | enter _ lineage | clear _ _ lineage | registry lineage => exact unchanged (lineage r)
  | @deletion ids _ hstore _ =>
    have there := Store.lineage_deleteRuns w.store ids r
    rw [← hstore] at there
    split_ifs at there
    · exact (valid'.ne_empty there).elim
    · exact unchanged there

theorem Step.accepted (step : Step P limits w l w') (h : ∀ x ∈ w.store.results, x.Accepted P limits) :
    ∀ x ∈ w'.store.results, x.Accepted P limits := by
  cases l with
  | call service call result =>
    rcases step.cases_call with ⟨e, -, hstore⟩ | ⟨reply, s, t, rfl, ran⟩
    · rw [hstore]
      exact h
    · have before : s.Results (RunResult.Accepted P service.limits) := by
        rw [Session.Results, ran.settled.flushed, ran.rows, ran.same]
        exact ⟨ran.settled.alone, h, h⟩
      have after := (Yields.run call).ok ran.ran before
      rw [ran.store, ← ran.same]
      exact after.2.2
  | registry registry =>
    cases step
    exact h

theorem Step.retains (step : Step P limits w l w') (h : w.Retains P limits) :
    w'.Retains P limits where
  invariant := step.invariant h.invariant
  content := (step.effect h.invariant).content h
  accepted := step.accepted h.accepted

theorem World.Initial.retains (h : w.Initial) : w.Retains P limits where
  invariant := h.invariant
  content valid := (valid.ne_empty (h _)).elim
  accepted x hx := by
    have mine := Store.mem_lineage_results.mpr ⟨hx, rfl⟩
    rw [h x.runId] at mine
    cases mine

theorem World.Reached.retains (h : w.Reached P limits) : w.Retains P limits :=
  Reachable.invariant (fun _ hw => hw.retains) (fun _ _ _ hw step => step.retains hw) h

/-- What starts no later and lasts no longer is over no later. -/
theorem add_days_le {start finish now period longer : Int} (started : start ≤ finish)
    (shorter : period ≤ longer) (passed : finish + days longer ≤ now) :
    start + days period ≤ now := by
  unfold days at *
  omega

/-- A run that ended a retention period ago holds nothing that has not expired. -/
theorem World.Retains.expired (h : w.Retains P limits) {r : Uuid} {run : Run} {job : Job}
    (valid : (w.store.lineage r).Valid limits run job) {terminalAt now : Time}
    (ended : run.terminalAt = some terminalAt)
    (old : terminalAt + days limits.runRetentionDays ≤ now) :
    run.status.terminal = true ∧ run.argumentsExpiresAt ≤ now ∧
      (∀ x ∈ (w.store.lineage r).results, x.expiresAt ≤ now) ∧
      ∀ record ∈ (w.store.lineage r).records, record.expiresAt ≤ now := by
  obtain ⟨content, kept⟩ := h.content valid
  have created := valid.endedAfter terminalAt ended
  refine ⟨by rw [valid.ended, ended]; rfl, ?_, fun x hx => ?_, fun record hrecord => ?_⟩
  · rw [kept.arguments]
    exact add_days_le created limits.argumentRetention_le_run old
  · rcases content.results with none | ⟨result, only, -, captured⟩
    · rw [none] at hx
      cases hx
    · rw [only, List.mem_singleton] at hx
      subst hx
      have mine : x ∈ (w.store.lineage r).results := by simp [only]
      rw [ended, Option.some.injEq] at captured
      rw [(h.accepted x (Store.mem_lineage_results.mp mine).1).expires, ← captured]
      exact add_days_le (le_refl _) limits.resultRetention_le_run old
  · rw [kept.record record hrecord]
    exact add_days_le created (le_refl _) old

/-- Content is neither stranded nor deleted too early: active runs have their arguments, a result is
the one accepted content of a run that succeeded, the expiry of a run's content is reported once at
most, and the rows of a run are deleted only when it has ended and everything it holds has expired. -/
theorem retention_keeps_content (reached : w.Reached P limits) :
    (∀ run ∈ w.store.runs, run.status.active = true →
      run.arguments ≠ none ∧ run.argumentDigest ≠ none) ∧
    (∀ run ∈ w.store.runs, (w.store.results.filter fun x => x.runId == run.id).length ≤ 1) ∧
    (∀ x ∈ w.store.results,
      (∃ run ∈ w.store.runs, run.id = x.runId ∧ run.status = .succeeded) ∧
      ∃ canonical, P.canonicalJson x.payload = some canonical ∧
        P.sha256 canonical = x.canonicalDigest ∧ (canonical.utf8ByteSize : Int) = x.byteCount) ∧
    (∀ run ∈ w.store.runs, (w.store.events.filter fun e =>
      e.runId == run.id && e.eventType == .contentExpired).length ≤ 1) ∧
    ∀ (service : ExecutionService) (ticks : List Nat) (held : List Uuid) (batchSize : Int),
      service.limits = limits →
      let outcome := transact (service.deleteExpiredRunMetadata batchSize)
        (.begin w.store w.clock ticks held [])
      ∀ run ∈ w.store.runs, (∀ row ∈ outcome.store.runs, row.id ≠ run.id) →
        run.status.terminal = true ∧ run.argumentsExpiresAt ≤ outcome.clock ∧
        (∀ x ∈ w.store.results, x.runId = run.id → x.expiresAt ≤ outcome.clock) ∧
        ∀ record ∈ w.store.records, record.resourceId = run.id →
          record.expiresAt ≤ outcome.clock := by
  have h := reached.retains
  have content {run : Run} (mem : run ∈ w.store.runs) : (w.store.lineage run.id).Content run := by
    obtain ⟨job, valid, -⟩ := h.invariant.sound.of_mem_runs mem
    exact (h.content valid).1
  refine ⟨fun run mem active => ?_, fun run mem => ?_, fun x hx => ⟨?_, (h.accepted x hx).content⟩,
    fun run mem => ?_, ?_⟩
  · obtain ⟨arguments, digest⟩ := (content mem).held (by simpa using active)
    exact ⟨Option.isSome_iff_ne_none.mp arguments, Option.isSome_iff_ne_none.mp digest⟩
  · change (w.store.lineage run.id).results.length ≤ 1
    rcases (content mem).results with none | ⟨result, only, -⟩
    · simp [none]
    · simp [only]
  · have mine := Store.mem_lineage_results.mpr ⟨hx, rfl⟩
    rcases h.invariant.sound x.runId with none | ⟨run, job, valid, -⟩
    · rw [none] at mine
      cases mine
    · have mem : run ∈ (w.store.lineage x.runId).runs := by simp [valid.runs]
      obtain ⟨mem, same⟩ := Store.mem_lineage_runs.mp mem
      refine ⟨run, mem, same, ?_⟩
      rcases (h.content valid).1.results with none | ⟨result, -, succeeded, -⟩
      · rw [none] at mine
        cases mine
      · exact succeeded
  · have once := (content mem).expiries
    rw [List.countP_eq_length_filter] at once
    have split : (w.store.events.filter fun e =>
        e.runId == run.id && e.eventType == .contentExpired) =
          (w.store.lineage run.id).events.filter Lineage.isExpiry := by
      simp only [Store.lineage, List.filter_filter, Lineage.isExpiry, Bool.and_comm]
    rw [split]
    exact once.trans (by split_ifs <;> simp)
  · intro service ticks held batchSize same outcome run mem gone
    have settled : (Session.begin w.store w.clock ticks held []).Settled := ⟨rfl, rfl⟩
    cases ran : service.deleteExpiredRunMetadata batchSize
        (.begin w.store w.clock ticks held []) with
    | error e t =>
      have kept : outcome.store = w.store := by
        simp only [outcome, transact, ran]
        rfl
      exact (gone run (kept ▸ mem) rfl).elim
    | ok count t =>
      obtain ⟨settled', -, ids, rows, each⟩ :=
        deleteExpiredRunMetadata_ok settled h.invariant.sound ran
      have store : outcome.store = w.store.deleteRuns ids := by
        simp only [outcome, transact, ran, settled'.flushed, rows]
        rfl
      have clock : outcome.clock = t.clock := by simp only [outcome, transact, ran]
      have deleted : run.id ∈ ids := by
        by_contra kept
        refine gone run ?_ rfl
        rw [store]
        exact List.mem_filter.mpr ⟨mem, by simpa using kept⟩
      obtain ⟨run', job, terminalAt, valid, ended, old⟩ := each run.id deleted
      change (w.store.lineage run.id).Valid limits run' job at valid
      have mine := Store.mem_lineage_runs.mpr ⟨mem, rfl⟩
      rw [valid.runs, List.mem_singleton] at mine
      subst mine
      rw [same, ← clock] at old
      obtain ⟨terminal, arguments, results, records⟩ := h.expired valid ended old
      exact ⟨terminal, arguments,
        fun x hx mine => results x (Store.mem_lineage_results.mpr ⟨hx, mine⟩),
        fun record hr mine => records record (Store.mem_lineage_records.mpr ⟨hr, mine⟩)⟩

end Retention

namespace Sample

def accepted : AcceptedToolResult := ⟨.obj [], "x", 1⟩

/-- The sample run, completed with a result. -/
def answered : World :=
  dispatched.after platform service [] (.completeInvocationSuccess lease accepted)

theorem answered_reached : answered.Reached platform .default :=
  dispatched_reached.extend (.single (World.step_after platform service [] _ dispatched nofun nofun))

/-- The deletion of expired metadata ninety-one days later. -/
def deletion : Outcome Nat :=
  transact (service.deleteExpiredRunMetadata 10)
    (.begin answered.store answered.clock [7862400000000] [] [])

end Sample

/-- The run with its result is deleted when the result and everything else has expired. -/
theorem retention_keeps_content_deleted :
    (∃ x ∈ Sample.answered.store.results, x.runId = 100) ∧ Sample.deletion.store.runs.length = 0 ∧
      ∀ x ∈ Sample.answered.store.results, x.expiresAt ≤ Sample.deletion.clock := by
  refine ⟨by decide +kernel, by decide +kernel, fun x hx => ?_⟩
  have kept := retention_keeps_content Sample.answered_reached
  obtain ⟨run, mem, same, -⟩ := (kept.2.2.1 x hx).1
  refine (kept.2.2.2.2 Sample.service [7862400000000] [] 10 rfl run mem ?_).2.2.1 x hx same.symm
  have none : Sample.deletion.store.runs.length = 0 := by decide +kernel
  intro row hrow
  have gone : row ∈ Sample.deletion.store.runs := hrow
  rw [List.length_eq_zero_iff.mp none] at gone
  cases gone

end Modall
