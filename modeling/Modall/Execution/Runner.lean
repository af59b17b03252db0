import Modall.McpAdapter.Client
import Modall.Execution.Safety

/-!
# The invocation runner

`InvocationRunner.run` of `modall/execution/runner.py`. The runner loads what the run pins,
calls the adapter with the two durable fences as callbacks and turns what comes back into one
completion of the lease. `Submission` is what it hands to `_complete_failure` or to
`complete_invocation_success`; each of these renews the lease first, which the ledger may
refuse. An exception the runner does not catch leaves the lease to expire.
-/
namespace Modall
open Library

/-- `_InvocationTarget`. -/
structure InvocationTarget where
  endpoint : String
  policyVersion : String
  toolName : String
  arguments : Json
  outputSchema : Option Json
  secretBindingId : Option Uuid

/-- `_load_target`; `none` is the `ValueError` or `SecretProviderError` it raises. -/
def loadTarget (store : Store) (lease : JobLease) : Option InvocationTarget := do
  let run ← store.runs.find? fun r =>
    r.id == lease.runId && r.workspaceId == lease.workspaceId && r.arguments.isSome
  let arguments ← run.arguments
  let version ← store.registry.capabilityVersions.find? fun v =>
    v.id == run.capabilityVersionId && v.workspaceId == lease.workspaceId
  let binding ← store.registry.bindings.find? fun b =>
    b.capabilityVersionId == run.capabilityVersionId &&
      b.connectionVersionId == run.connectionVersionId && b.workspaceId == lease.workspaceId
  let connection ← store.registry.connectionVersions.find? fun c =>
    c.id == run.connectionVersionId && c.workspaceId == lease.workspaceId
  guard (connection.secretBindingId.all fun secret =>
    store.registry.secretBindings.contains (secret, lease.workspaceId))
  return ⟨connection.endpointUrl, connection.policyVersion, binding.toolName, arguments,
    version.outputSchema, connection.secretBindingId⟩

/-- How the adapter factory or the secret provider answers. -/
inductive Setup where
  | ready
  /-- `KeyError`, `ValueError` or `SecretProviderError`. -/
  | unavailable
  /-- Any other exception. -/
  | fails
deriving DecidableEq

inductive Submission where
  | failure (status : RunStatus) (code : RunFailureCode)
  | success (result : AcceptedToolResult)

def Submission.status : Submission → RunStatus
  | .failure status _ => status
  | .success _ => .succeeded

def Submission.code : Submission → Option RunFailureCode
  | .failure _ code => some code
  | .success _ => none

/-- `except InvocationError as error`. -/
def runFailureCode (error : InvocationError) : RunFailureCode :=
  if error.code = .preparationFailed then .preparationFailed
  else if error.dispatched = false ∨ error.code = .sessionInitializationFailed then
    .sessionInitializationFailed
  else match error.code with
    | .toolCallFailed => .toolCallFailed
    | .unsupportedResultContent => .unsupportedToolResult
    | .sensitiveResult => .sensitiveToolResult
    | _ => .invalidToolResult

/-- The exception clauses of `run`. -/
def submitFailure : Raised → List Submission
  | .invocation error =>
    match error.kind with
    | .fenceRejected => []
    | .indeterminate => [.failure .indeterminate .upstreamOutcomeUnknown]
    | .error => [.failure .failed (runFailureCode error)]
  | _ => []

/-- The completion of a returned result, and the failure submitted when the ledger refuses
its content. -/
def submitResult (accepts : AcceptedToolResult → Except ExecutionFailureCode RunStatus)
    (result : InvocationResult) : List Submission :=
  let accepted : AcceptedToolResult :=
    ⟨result.payload, result.canonicalDigest, result.byteCount⟩
  match accepts accepted with
  | .error .invalidArguments => [.success accepted, .failure .failed .invalidToolResult]
  | _ => [.success accepted]

section Run
variable (P : Platform) (maxResultBytes : Nat) (adapterFactory : String → Setup)
  (retrieve : Uuid → Setup) (accepts : AcceptedToolResult → Except ExecutionFailureCode RunStatus)

/-- The adapter factory and, for a bound secret, the provider. -/
def setUp (target : InvocationTarget) : Setup :=
  match adapterFactory target.policyVersion with
  | .ready => (target.secretBindingId.map retrieve).getD .ready
  | answer => answer

/-- `InvocationRunner.run`: how far the execution came and what was submitted. -/
def InvocationRunner.run (store : Store) (lease : JobLease) (u : Upstream) :
    Progress × List Submission :=
  match loadTarget store lease with
  | none => ({}, [.failure .failed .preparationFailed])
  | some target =>
    match setUp adapterFactory retrieve target with
    | .unavailable => ({}, [.failure .failed .preparationFailed])
    | .fails => ({}, [])
    | .ready =>
      match u.invoke P maxResultBytes target.outputSchema {} with
      | .ok result progress => (progress, submitResult accepts result)
      | .error e progress => (progress, submitFailure e)

end Run

/-- The status the fences have left the run in. -/
def Progress.runStatus (p : Progress) : RunStatus :=
  if p.dispatched then .dispatchFenced else if p.sessionFenced then .sessionFenced else .preparing

/-- The ledger's table has the submission at the status the fences have left. -/
def Progress.Accepts (p : Progress) (submission : Submission) : Prop :=
  ∀ run attempt, run.status = p.runStatus → attempt.status = run.status →
    validWorkerCompletion run attempt submission.status submission.code = true

/-- What an execution that has come so far may submit. -/
structure Progress.Agrees (p : Progress) (completed : Bool) (submissions : List Submission) :
    Prop where
  definite : ∀ code, .failure .failed code ∈ submissions → code.afterDispatch = true →
    p.dispatched = true ∧ (p.received = true ∨ completed = true)
  unknown : p.dispatched = true → p.received = false → completed = false →
    submissions = [.failure .indeterminate .upstreamOutcomeUnknown]
  undispatched : p.dispatched = false → submissions = [] ∨
    submissions = [.failure .failed .preparationFailed] ∧ p.sessionFenced = false ∨
    submissions = [.failure .failed .sessionInitializationFailed] ∧ p.sessionFenced = true
  accepted : ∀ submission ∈ submissions, p.Accepts submission

theorem Progress.Accepts.preparation : ({} : Progress).Accepts (.failure .failed .preparationFailed) := by
  intro run attempt status same
  simp [validWorkerCompletion, Submission.status, Submission.code, same, status, Progress.runStatus]

theorem Progress.Accepts.session {p : Progress} (fenced : p.sessionFenced = true)
    (undispatched : p.dispatched = false) :
    p.Accepts (.failure .failed .sessionInitializationFailed) := by
  intro run attempt status same
  simp [validWorkerCompletion, Submission.status, Submission.code, same, status, Progress.runStatus,
    fenced, undispatched]

theorem Progress.Accepts.definite {p : Progress} {code : RunFailureCode}
    (dispatched : p.dispatched = true) (after : code.afterDispatch = true) :
    p.Accepts (.failure .failed code) := by
  intro run attempt status same
  cases code <;> simp_all [validWorkerCompletion, Submission.status, Submission.code,
    Progress.runStatus, RunFailureCode.afterDispatch]

theorem Progress.Accepts.unknown {p : Progress} (dispatched : p.dispatched = true) :
    p.Accepts (.failure .indeterminate .upstreamOutcomeUnknown) := by
  intro run attempt status same
  simp [validWorkerCompletion, Submission.status, Submission.code, same, status, Progress.runStatus,
    dispatched]

theorem Progress.Accepts.success {p : Progress} (dispatched : p.dispatched = true)
    (result : AcceptedToolResult) : p.Accepts (.success result) := by
  intro run attempt status same
  simp [validWorkerCompletion, Submission.status, Submission.code, same, status, Progress.runStatus,
    dispatched]

/-- The runner's table sends an answer's error to an answer's code. -/
theorem afterDispatch_runFailureCode {error : InvocationError} (late : error.Late) :
    (runFailureCode error).afterDispatch = true := by
  obtain ⟨-, dispatched, notPreparation, notSession⟩ := late
  unfold runFailureCode
  cases code : error.code <;> simp_all [RunFailureCode.afterDispatch]

section Agrees
variable {p : Progress} {completed : Bool}

theorem Progress.Agrees.nothing (undispatched : p.dispatched = false) :
    p.Agrees completed [] where
  definite := nofun
  unknown dispatched := by simp [undispatched] at dispatched
  undispatched _ := .inl rfl
  accepted := nofun

theorem Progress.Agrees.preparation :
    ({} : Progress).Agrees completed [.failure .failed .preparationFailed] where
  definite code mem after := by
    cases List.mem_singleton.mp mem
    cases after
  unknown := nofun
  undispatched _ := .inr (.inl ⟨rfl, rfl⟩)
  accepted submission mem := by
    cases List.mem_singleton.mp mem
    exact .preparation

theorem Progress.Agrees.session (fenced : p.sessionFenced = true)
    (undispatched : p.dispatched = false) :
    p.Agrees completed [.failure .failed .sessionInitializationFailed] where
  definite code mem after := by
    cases List.mem_singleton.mp mem
    cases after
  unknown dispatched := by simp [undispatched] at dispatched
  undispatched _ := .inr (.inr ⟨rfl, fenced⟩)
  accepted submission mem := by
    cases List.mem_singleton.mp mem
    exact .session fenced undispatched

theorem Progress.Agrees.definiteAnswer {code : RunFailureCode} (dispatched : p.dispatched = true)
    (answer : p.received = true ∨ completed = true) (after : code.afterDispatch = true) :
    p.Agrees completed [.failure .failed code] where
  definite _ _ _ := ⟨dispatched, answer⟩
  unknown _ unreceived incomplete := by simp [unreceived, incomplete] at answer
  undispatched none := by simp [dispatched] at none
  accepted submission mem := by
    cases List.mem_singleton.mp mem
    exact .definite dispatched after

/-- A verdict of the adapter becomes a submission that fits the point it was reached at. -/
theorem agrees_of_verdict {u : Upstream} {error : InvocationError}
    (verdict : Upstream.Verdict u error p) :
    p.Agrees u.flags.toolCallResponseCompleted (submitFailure (.invocation error)) := by
  cases verdict with
  | unfenced h =>
    rcases h with kind | ⟨kind, code⟩
    · simp only [submitFailure, kind]
      exact .nothing rfl
    · simp only [submitFailure, kind, runFailureCode, code, if_true]
      exact .preparation
  | early place h =>
    have undispatched : p.dispatched = false := by rcases place with rfl | rfl <;> rfl
    have fenced : p.sessionFenced = true := by rcases place with rfl | rfl <;> rfl
    rcases h with kind | ⟨kind, code, undone⟩
    · simp only [submitFailure, kind]
      exact .nothing undispatched
    · simp only [submitFailure, kind, runFailureCode, code, undone, if_false, true_or, if_true]
      exact .session fenced undispatched
  | unknown incomplete kind =>
    simp only [submitFailure, kind]
    refine ⟨?_, fun _ _ _ => rfl, (fun h => by cases h), ?_⟩
    · intro code mem
      cases List.mem_singleton.mp mem
    · intro submission mem
      cases List.mem_singleton.mp mem
      exact .unknown rfl
  | completed done late =>
    simp only [submitFailure, late.1]
    exact .definiteAnswer rfl (.inr done) (afterDispatch_runFailureCode late)
  | late late =>
    simp only [submitFailure, late.1]
    exact .definiteAnswer rfl (.inl rfl) (afterDispatch_runFailureCode late)

theorem agrees_of_result (accepts : AcceptedToolResult → Except ExecutionFailureCode RunStatus)
    (result : InvocationResult) :
    Upstream.answered.Agrees completed (submitResult accepts result) := by
  have accepted : ∀ submission ∈ submitResult accepts result,
      Upstream.answered.Accepts submission := by
    intro submission mem
    unfold submitResult at mem
    dsimp only at mem
    split at mem
    · simp only [List.mem_cons, List.not_mem_nil, or_false] at mem
      rcases mem with rfl | rfl
      · exact .success rfl _
      · exact .definite rfl rfl
    · cases List.mem_singleton.mp mem
      exact .success rfl _
  exact ⟨fun _ _ _ => ⟨rfl, .inl rfl⟩, nofun, nofun, accepted⟩

end Agrees

/-- Whatever the endpoint policy, the SDK and the transport do, the runner submits a definite
failure of the tool only after a dispatch and an answer, an unknown outcome whenever a dispatch
had no answer, and nothing that says more than a failed preparation or session before it; and
the ledger's table has every submission at the status the fences have left. -/
theorem runner_agrees_on_dispatch {P : Platform} {maxResultBytes : Nat}
    {adapterFactory : String → Setup} {retrieve : Uuid → Setup}
    {accepts : AcceptedToolResult → Except ExecutionFailureCode RunStatus} {store : Store}
    {lease : JobLease} {u : Upstream} (well : u.WellBehaved) {p : Progress}
    {submissions : List Submission}
    (ran : InvocationRunner.run P maxResultBytes adapterFactory retrieve accepts store lease u =
      (p, submissions)) :
    p.Agrees u.flags.toolCallResponseCompleted submissions := by
  unfold InvocationRunner.run at ran
  split at ran
  · cases ran
    exact .preparation
  · next target _ =>
    split at ran
    · cases ran
      exact .preparation
    · cases ran
      exact .nothing rfl
    · obtain ⟨returned, raised⟩ := Upstream.invoke_ends (P := P) well
      split at ran
      · next result progress run =>
        cases ran
        rw [returned _ _ run]
        exact agrees_of_result accepts result
      · next e progress run =>
        cases ran
        obtain ⟨error, rfl, verdict⟩ := raised _ _ run
        exact agrees_of_verdict verdict

namespace Sample

/-- An upstream that times out after the dispatch, through context managers that wrap every
exception in a group. -/
def silent : Upstream where
  credentialAccepted := true
  beforeSession := .passes
  validateEndpoint := .returns ()
  openClient := .returns ()
  enterSession := .returns ()
  negotiate := .returns qualifiedProtocolRevision
  notifyInitialized := .returns ()
  beforeDispatch := .passes
  callTool := .raises .cancelled
  leaves e := some (if e.isException then .group [e] else .cancelled)
  sensitiveAfterCall := false
  echoesCredential _ := false
  scanOutput _ _ := .returns .valid
  flags := ⟨false, false, false⟩

theorem silent_wellBehaved : silent.WellBehaved where
  validateEndpoint := nofun
  openClient := nofun
  enterSession := nofun
  negotiate := nofun
  notifyInitialized := nofun
  callTool := by
    intro e raised
    cases raised
    exact ⟨.inl rfl, nofun⟩
  scanOutput _ _ := nofun
  leaves e := by
    refine ⟨_, rfl, ?_⟩
    by_cases h : e.isException = true
    · rw [if_pos h]
      refine ⟨.inr (by simp [Raised.isException, Raised.areExceptions, h]), ?_⟩
      rintro error (_ | ⟨mem, carries⟩)
      rwa [List.mem_singleton.mp mem] at carries
    · rw [if_neg h]
      exact ⟨.inl rfl, nofun⟩

end Sample

theorem runner_agrees_on_dispatch_sample :
    InvocationRunner.run Sample.platform 262144 (fun _ => .ready) (fun _ => .ready)
        (fun _ => .ok .succeeded) Sample.claimed.store Sample.lease Sample.silent =
        (Upstream.dispatching, [.failure .indeterminate .upstreamOutcomeUnknown]) ∧
      Upstream.dispatching.Agrees false [.failure .indeterminate .upstreamOutcomeUnknown] := by
  have ran : InvocationRunner.run Sample.platform 262144 (fun _ => .ready) (fun _ => .ready)
      (fun _ => .ok .succeeded) Sample.claimed.store Sample.lease Sample.silent =
      (Upstream.dispatching, [.failure .indeterminate .upstreamOutcomeUnknown]) := rfl
  exact ⟨ran, runner_agrees_on_dispatch Sample.silent_wellBehaved ran⟩

end Modall
