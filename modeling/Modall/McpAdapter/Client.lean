import Modall.Execution.Leasing

/-!
# Invocation through the MCP adapter

`McpClientAdapter.invoke` of `modall/mcp_adapter/client.py`. The endpoint policy, the SDK and
the transport are what an `Upstream` says they do: every await of theirs returns, raises some
exception, or is cut off by `asyncio.timeout`, which raises `CancelledError` there. The two
fence callbacks return or raise `InvocationFenceRejected`.

`Progress` is what has happened so far: which fences have returned, whether a `CallToolResult`
has come, and the function's own flags.
-/
namespace Modall
open Library

inductive InvocationFailureCode where
  | preparationFailed | sessionInitializationFailed | toolCallFailed
  | unsupportedResultContent | sensitiveResult | invalidUpstreamOutput
deriving DecidableEq

/-- `InvocationError` and its two subclasses. -/
inductive InvocationErrorKind where
  | error | indeterminate | fenceRejected
deriving DecidableEq

structure InvocationError where
  kind : InvocationErrorKind
  code : InvocationFailureCode
  dispatched : Bool := false
deriving DecidableEq

/-- The exceptions `invoke` tells apart. -/
inductive Raised where
  | invocation (error : InvocationError)
  | mcpError
  /-- Any other `Exception`, `TimeoutError` among them. -/
  | other
  /-- `asyncio.CancelledError`. -/
  | cancelled
  | group (members : List Raised)

namespace Raised

mutual
/-- `isinstance(error, Exception)`: a group is one when all its members are. -/
def isException : Raised → Bool
  | .cancelled => false
  | .group members => areExceptions members
  | _ => true
def areExceptions : List Raised → Bool
  | [] => true
  | e :: es => e.isException && areExceptions es
end

def isInvocation : Raised → Bool
  | .invocation _ => true
  | _ => false

def isMcpError : Raised → Bool
  | .mcpError => true
  | _ => false

mutual
/-- `_find_exception`. -/
def findException (kind : Raised → Bool) (e : Raised) : Option Raised :=
  if kind e then some e
  else match e with
    | .group members => findAmong kind members
    | _ => none
def findAmong (kind : Raised → Bool) : List Raised → Option Raised
  | [] => none
  | child :: rest =>
    match findException kind child with
    | some found => some found
    | none => findAmong kind rest
end

/-- The error is the exception itself or lies inside it as a group. -/
inductive Carries : Raised → InvocationError → Prop where
  | self (error : InvocationError) : Carries (.invocation error) error
  | member {members : List Raised} {e : Raised} {error : InvocationError} :
      e ∈ members → Carries e error → Carries (.group members) error

end Raised

inductive Await (α : Type) where
  | returns (value : α)
  | raises (e : Raised)

inductive Fence where
  | passes | rejects
deriving DecidableEq

inductive ContentBlock where
  | text (text : String)
  | other

/-- `types.CallToolResult`. -/
structure CallToolResult where
  isError : Bool
  content : List ContentBlock
  structuredContent : Option Json

structure InvocationResult where
  payload : Json
  canonicalDigest : Digest
  byteCount : Nat

/-- What `LimitedTransport` has seen of the responses. -/
structure TransportFlags where
  sensitiveResponseDetected : Bool
  toolCallResponseCompleted : Bool
  toolCallFailureCompleted : Bool

/-- What the callbacks, the endpoint policy, the SDK and the transport do in one execution. -/
structure Upstream where
  /-- The bearer token, if there is one, passes the checks made before anything else. -/
  credentialAccepted : Bool
  beforeSession : Fence
  validateEndpoint : Await Unit
  /-- `PinnedHTTPTransport`, `LimitedTransport` and `httpx.AsyncClient`. -/
  openClient : Await Unit
  /-- Entering the three context managers. -/
  enterSession : Await Unit
  /-- The protocol version that the `initialize` request is answered with. -/
  negotiate : Await String
  notifyInitialized : Await Unit
  beforeDispatch : Fence
  callTool : Await CallToolResult
  /-- What leaves the context managers when an exception reaches them. -/
  leaves : Raised → Option Raised
  /-- `transport.sensitive_response_detected` right after the call. -/
  sensitiveAfterCall : Bool
  /-- `_contains_decoded_credential` with the bearer token, if there is one. -/
  echoesCredential : Json → Bool
  scanOutput : Json → Json → Await SchemaValidationResult
  /-- The flags when an exception is classified. -/
  flags : TransportFlags

structure Progress where
  sessionFenced : Bool := false
  /-- `transport is not None`. -/
  connected : Bool := false
  dispatched : Bool := false
  /-- `received is not None` in `_invoke`. -/
  received : Bool := false
  responseReceived : Bool := false
deriving DecidableEq

abbrev Adapter := EStateM Raised Progress

def await {α : Type} : Await α → Adapter α
  | .returns value => pure value
  | .raises e => throw e

def raiseInvocation {α : Type} (code : InvocationFailureCode) (dispatched : Bool := false) :
    Adapter α := throw (.invocation ⟨.error, code, dispatched⟩)

namespace Upstream

/-- The `async with` of `_invoke` up to the call's return. -/
def converse (u : Upstream) : Adapter CallToolResult := do
  await u.enterSession
  let protocolVersion ← await u.negotiate
  raiseIf (protocolVersion ≠ qualifiedProtocolRevision)
    (.invocation ⟨.error, .sessionInitializationFailed, false⟩)
  await u.notifyInitialized
  raiseIf (u.beforeDispatch = .rejects) (.invocation ⟨.fenceRejected, .toolCallFailed, false⟩)
  change fun p => { p with dispatched := true }
  let received ← await u.callTool
  change fun p => { p with received := true }
  return received

/-- `_invoke`. Once the result has come, whatever the context managers raise on the way out is
dropped; before that it goes on, and if they swallowed it the outcome is unknown. -/
def invokeTool (u : Upstream) : Adapter CallToolResult := fun p =>
  match u.converse p with
  | .ok received p' => .ok received p'
  | .error e p' =>
    match u.leaves e with
    | some e' => .error e' p'
    | none => .error (.invocation ⟨.indeterminate, .toolCallFailed, true⟩) p'

variable (P : Platform) (maxResultBytes : Nat) (outputSchema : Option Json)

def payload (result : CallToolResult) : Json :=
  .obj (("content", .arr (result.content.map fun
      | .text text => .obj [("type", .str "text"), ("text", .str text)]
      | .other => .null)) ::
    match result.structuredContent with
    | some structured => [("structuredContent", structured)]
    | none => [])

/-- The last part of `_normalize_invocation_result`. -/
def checkOutput (u : Upstream) (structured : Option Json) : Adapter Unit :=
  match outputSchema with
  | none => pure ()
  | some schema =>
    match structured with
    | none => raiseInvocation .invalidUpstreamOutput true
    | some structured => do
      let validation ← await (u.scanOutput structured schema)
      raiseIf (validation ≠ .valid) (.invocation ⟨.error, .invalidUpstreamOutput, true⟩)

/-- `_normalize_invocation_result`. -/
def normalizeInvocationResult (u : Upstream) (result : CallToolResult) :
    Adapter InvocationResult := do
  raiseIf (result.isError = true) (.invocation ⟨.error, .toolCallFailed, true⟩)
  raiseIf (result.content.any (fun | .text _ => false | .other => true) = true)
    (.invocation ⟨.error, .unsupportedResultContent, true⟩)
  raiseIf (result.structuredContent.any (fun json => !json.isObject) = true)
    (.invocation ⟨.error, .invalidUpstreamOutput, true⟩)
  raiseIf (P.validateBoundedJson (payload result) = false)
    (.invocation ⟨.error, .invalidUpstreamOutput, true⟩)
  match P.canonicalJson (payload result) with
  | none => raiseInvocation .invalidUpstreamOutput true
  | some canonical =>
    raiseIf (maxResultBytes < canonical.utf8ByteSize)
      (.invocation ⟨.error, .invalidUpstreamOutput, true⟩)
    match P.containsSensitiveJson (payload result) with
    | none => throw .other
    | some sensitive =>
      raiseIf (sensitive = true ∨ u.echoesCredential (payload result) = true)
        (.invocation ⟨.error, .sensitiveResult, true⟩)
      u.checkOutput outputSchema result.structuredContent
      return ⟨payload result, P.sha256 canonical, canonical.utf8ByteSize⟩

/-- The inner `try` around the normalization. -/
def normalize (u : Upstream) (result : CallToolResult) : Adapter InvocationResult := fun p =>
  match u.normalizeInvocationResult P maxResultBytes outputSchema result p with
  | .ok normalized p' => .ok normalized p'
  | .error e p' =>
    if e.isInvocation ∨ e.isException = false then .error e p'
    else .error (.invocation ⟨.error, .invalidUpstreamOutput, true⟩) p'

/-- `async with asyncio.timeout(...)`: the cancellation it caused becomes `TimeoutError`. -/
def timeout {α : Type} (body : Adapter α) : Adapter α := fun p =>
  match body p with
  | .error .cancelled p' => .error .other p'
  | outcome => outcome

/-- The body of the outer `try` of `invoke`. -/
def attempt (u : Upstream) : Adapter InvocationResult := do
  raiseIf (u.beforeSession = .rejects)
    (.invocation ⟨.fenceRejected, .sessionInitializationFailed, false⟩)
  change fun p => { p with sessionFenced := true }
  timeout do
    await u.validateEndpoint
    change fun p => { p with connected := true }
    await u.openClient
    let result ← u.invokeTool
    change fun p => { p with responseReceived := true }
    let dispatched ← query Progress.dispatched
    raiseIf (u.sensitiveAfterCall = true) (.invocation ⟨.error, .sensitiveResult, dispatched⟩)
    u.normalize P maxResultBytes outputSchema result

/-- The cascade of `except Exception as exc`. -/
def classify (u : Upstream) (e : Raised) (p : Progress) : Raised :=
  if p.connected ∧ u.flags.sensitiveResponseDetected then
    if p.dispatched ∧ ¬ p.responseReceived ∧ ¬ u.flags.toolCallResponseCompleted then
      .invocation ⟨.indeterminate, .sensitiveResult, true⟩
    else .invocation ⟨.error, .sensitiveResult, p.dispatched⟩
  else match e.findException Raised.isInvocation with
    | some nested => nested
    | none =>
      if p.dispatched ∧ p.connected ∧ u.flags.toolCallResponseCompleted ∧
          u.flags.toolCallFailureCompleted then
        .invocation ⟨.error, .toolCallFailed, true⟩
      else if p.dispatched ∧ p.connected ∧ u.flags.toolCallResponseCompleted ∧
          (e.findException Raised.isMcpError).isSome then
        .invocation ⟨.error, .invalidUpstreamOutput, true⟩
      else if p.dispatched then
        if p.responseReceived ∨ (p.connected ∧ u.flags.toolCallResponseCompleted) then
          .invocation ⟨.error, .invalidUpstreamOutput, true⟩
        else .invocation ⟨.indeterminate, .toolCallFailed, true⟩
      else .invocation ⟨.error, .sessionInitializationFailed, false⟩

/-- `McpClientAdapter.invoke`. -/
def invoke (u : Upstream) : Adapter InvocationResult := do
  raiseIf (u.credentialAccepted = false) (.invocation ⟨.error, .preparationFailed, false⟩)
  fun p =>
    match u.attempt P maxResultBytes outputSchema p with
    | .ok result p' => .ok result p'
    | .error e p' =>
      if e.isInvocation ∨ e.isException = false then .error e p'
      else .error (u.classify e p') p'

end Upstream

/-! ## What an invocation can raise -/

/-- An exception that Modall's own code has not raised, or a timeout. -/
def Raised.Foreign (e : Raised) : Prop :=
  (e = .cancelled ∨ e.isException = true) ∧ ∀ error, ¬ e.Carries error

def Await.Foreign {α : Type} (a : Await α) : Prop := ∀ e, a = .raises e → e.Foreign

/-- The policy, the SDK and the transport raise any exceptions of theirs or time out, and the
context managers may wrap or replace an exception but never swallow it. -/
structure Upstream.WellBehaved (u : Upstream) : Prop where
  validateEndpoint : u.validateEndpoint.Foreign
  openClient : u.openClient.Foreign
  enterSession : u.enterSession.Foreign
  negotiate : u.negotiate.Foreign
  notifyInitialized : u.notifyInitialized.Foreign
  callTool : u.callTool.Foreign
  scanOutput : ∀ value schema, (u.scanOutput value schema).Foreign
  leaves : ∀ e, ∃ e', u.leaves e = some e' ∧ (e' = .cancelled ∨ e'.isException = true) ∧
    ∀ error, e'.Carries error → e.Carries error

/-- An error that says nothing of a dispatch. -/
def InvocationError.Early (error : InvocationError) : Prop :=
  error.kind = .fenceRejected ∨
    error.kind = .error ∧ error.code = .sessionInitializationFailed ∧ error.dispatched = false

/-- An error that stands for a definite answer of the tool. -/
def InvocationError.Late (error : InvocationError) : Prop :=
  error.kind = .error ∧ error.dispatched = true ∧ error.code ≠ .preparationFailed ∧
    error.code ≠ .sessionInitializationFailed

namespace Raised

mutual
theorem carries_of_findException {e found : Raised}
    (h : e.findException isInvocation = some found) :
    ∃ error, found = .invocation error ∧ e.Carries error := by
  unfold findException at h
  cases e with
  | invocation error =>
    simp only [isInvocation, if_true, Option.some.injEq] at h
    exact ⟨error, h.symm, .self error⟩
  | group members =>
    simp only [isInvocation, Bool.false_eq_true, if_false] at h
    obtain ⟨e, mem, error, hf, hc⟩ := carries_of_findAmong h
    exact ⟨error, hf, .member mem hc⟩
  | mcpError => simp [isInvocation] at h
  | other => simp [isInvocation] at h
  | cancelled => simp [isInvocation] at h
theorem carries_of_findAmong {members : List Raised} {found : Raised}
    (h : findAmong isInvocation members = some found) :
    ∃ e ∈ members, ∃ error, found = .invocation error ∧ e.Carries error := by
  unfold findAmong at h
  cases members with
  | nil => cases h
  | cons child rest =>
    cases first : child.findException isInvocation with
    | some inner =>
      simp only [first, Option.some.injEq] at h
      obtain ⟨error, hf, hc⟩ := carries_of_findException first
      exact ⟨child, List.mem_cons_self, error, h ▸ hf, hc⟩
    | none =>
      simp only [first] at h
      obtain ⟨e, mem, error, hf, hc⟩ := carries_of_findAmong h
      exact ⟨e, List.mem_cons_of_mem child mem, error, hf, hc⟩
end

end Raised

theorem ends_await_bind {α β : Type} {a : Await β} {x : β → Adapter α} {p : Progress}
    {Q : α → Progress → Prop} {E : Raised → Progress → Prop} (foreign : a.Foreign)
    (raised : ∀ e, e.Foreign → E e p) (returned : ∀ value, Ends (x value) p Q E) :
    Ends (await a >>= x) p Q E := by
  cases a with
  | returns value =>
    refine .bind (M := fun b t => b = value ∧ t = p) (Ends.pure ⟨rfl, rfl⟩) ?_
    rintro _ _ ⟨rfl, rfl⟩
    exact returned _
  | raises e =>
    refine .bind (M := fun _ _ => False) (Ends.throw (raised e (foreign e rfl))) ?_
    exact fun _ _ => False.elim

/-- Before the dispatch fence has returned. -/
def Raised.BeforeDispatch (e : Raised) : Prop :=
  (e = .cancelled ∨ e.isException = true) ∧ ∀ error, e.Carries error → error.Early

/-- After the result has come. -/
def Raised.AfterResult (e : Raised) : Prop :=
  e.Foreign ∨ ∃ error, e = .invocation error ∧ error.Late

theorem Raised.Foreign.beforeDispatch {e : Raised} (h : e.Foreign) : e.BeforeDispatch :=
  ⟨h.1, fun error carries => absurd carries (h.2 error)⟩

theorem Raised.beforeDispatch_of_early {error : InvocationError} (h : error.Early) :
    (Raised.invocation error).BeforeDispatch := by
  refine ⟨.inr rfl, fun _ carries => ?_⟩
  cases carries
  exact h

namespace Upstream
variable {u : Upstream} {P : Platform} {maxResultBytes : Nat} {outputSchema : Option Json}

/-- Up to the dispatch fence nothing is dispatched; after it, only the SDK can raise. -/
theorem converse_ends (well : u.WellBehaved) (p : Progress) :
    Ends u.converse p (fun _ p' => p' = { p with dispatched := true, received := true })
      (fun e p' => p' = p ∧ e.BeforeDispatch ∨ p' = { p with dispatched := true } ∧ e.Foreign) := by
  unfold converse
  refine ends_await_bind well.enterSession (fun e h => .inl ⟨rfl, h.beforeDispatch⟩) fun _ => ?_
  refine ends_await_bind well.negotiate (fun e h => .inl ⟨rfl, h.beforeDispatch⟩) fun version => ?_
  refine .raiseIf_bind (fun _ => .inl ⟨rfl, ?_⟩) fun _ => ?_
  · exact Raised.beforeDispatch_of_early (.inr ⟨rfl, rfl, rfl⟩)
  refine ends_await_bind well.notifyInitialized (fun e h => .inl ⟨rfl, h.beforeDispatch⟩)
    fun _ => ?_
  refine .raiseIf_bind (fun _ => .inl ⟨rfl, ?_⟩) fun _ => .change_bind ?_
  · exact Raised.beforeDispatch_of_early (.inl rfl)
  refine ends_await_bind well.callTool (fun e h => .inr ⟨rfl, h⟩) fun received => ?_
  exact .change_bind (.pure rfl)

/-- The context managers hand on what reaches them. -/
theorem invokeTool_ends (well : u.WellBehaved) (p : Progress) :
    Ends u.invokeTool p (fun _ p' => p' = { p with dispatched := true, received := true })
      (fun e p' => p' = p ∧ e.BeforeDispatch ∨ p' = { p with dispatched := true } ∧ e.Foreign) := by
  obtain ⟨returned, raised⟩ := converse_ends well p
  constructor
  · intro received p' run
    unfold invokeTool at run
    split at run
    · cases run
      exact returned _ _ ‹_›
    · split at run <;> cases run
  · intro e p' run
    unfold invokeTool at run
    split at run
    · cases run
    · next e₀ p₀ inner =>
      obtain ⟨e₁, leaves, kind, carried⟩ := well.leaves e₀
      simp only [leaves] at run
      cases run
      refine (raised _ _ inner).imp (fun h => ⟨h.1, kind, ?_⟩) fun h => ⟨h.1, kind, ?_⟩
      · exact fun error carries => h.2.2 error (carried error carries)
      · exact fun error carries => h.2.2 error (carried error carries)

/-- Past the result, an exception is the adapter's verdict on it or a timeout. -/
theorem normalize_ends (well : u.WellBehaved) (result : CallToolResult) (p : Progress) :
    Ends (u.normalize P maxResultBytes outputSchema result) p (fun _ p' => p' = p)
      (fun e p' => p' = p ∧ e.AfterResult) := by
  have late : ∀ code, code ≠ .preparationFailed → code ≠ .sessionInitializationFailed →
      Raised.AfterResult (.invocation ⟨.error, code, true⟩) :=
    fun code hp hs => .inr ⟨_, rfl, rfl, rfl, hp, hs⟩
  have other : Raised.AfterResult .other := .inl ⟨.inr rfl, nofun⟩
  have inner : Ends (u.normalizeInvocationResult P maxResultBytes outputSchema result) p
      (fun _ p' => p' = p) (fun e p' => p' = p ∧ e.AfterResult) := by
    unfold normalizeInvocationResult
    refine .raiseIf_bind (fun _ => ⟨rfl, late _ nofun nofun⟩) fun _ => ?_
    refine .raiseIf_bind (fun _ => ⟨rfl, late _ nofun nofun⟩) fun _ => ?_
    refine .raiseIf_bind (fun _ => ⟨rfl, late _ nofun nofun⟩) fun _ => ?_
    refine .raiseIf_bind (fun _ => ⟨rfl, late _ nofun nofun⟩) fun _ => ?_
    split
    · exact .throw ⟨rfl, late _ nofun nofun⟩
    · refine .raiseIf_bind (fun _ => ⟨rfl, late _ nofun nofun⟩) fun _ => ?_
      split
      · exact .throw ⟨rfl, other⟩
      · refine .raiseIf_bind (fun _ => ⟨rfl, late _ nofun nofun⟩) fun _ => ?_
        refine .bind (M := fun _ p' => p' = p) ?_ fun _ _ same => .pure same
        unfold checkOutput
        split
        · exact .pure rfl
        · split
          · exact .throw ⟨rfl, late _ nofun nofun⟩
          · refine ends_await_bind (well.scanOutput _ _) (fun e h => ⟨rfl, .inl h⟩) fun _ => ?_
            exact .raiseIf (fun _ => ⟨rfl, late _ nofun nofun⟩) fun _ => rfl
  obtain ⟨returned, raised⟩ := inner
  constructor
  · intro normalized p' run
    unfold normalize at run
    split at run
    · cases run
      exact returned _ _ ‹_›
    · split_ifs at run
  · intro e p' run
    unfold normalize at run
    split at run
    · cases run
    · next e₀ p₀ failed =>
      split_ifs at run
      · cases run
        exact raised _ _ failed
      · cases run
        exact ⟨(raised _ _ failed).1, late _ nofun nofun⟩

/-- The five points an execution can have reached. -/
def fencedSession : Progress := { sessionFenced := true }
def connected : Progress := { sessionFenced := true, connected := true }
def dispatching : Progress := { sessionFenced := true, connected := true, dispatched := true }
def answered : Progress := ⟨true, true, true, true, true⟩

/-- What the body of the outer `try` can raise at each point. -/
inductive Fails : Raised → Progress → Prop where
  | rejected (error : InvocationError) : error.kind = .fenceRejected →
      Fails (.invocation error) {}
  | early {e : Raised} {p : Progress} : p = fencedSession ∨ p = connected →
      e.isException = true → (∀ error, e.Carries error → error.Early) → Fails e p
  | dispatched {e : Raised} : e.isException = true → (∀ error, ¬ e.Carries error) →
      Fails e dispatching
  | late {e : Raised} : e.isException = true →
      ((∀ error, ¬ e.Carries error) ∨ ∃ error, e = .invocation error ∧ error.Late) →
      Fails e answered

/-- A timeout counts as the `TimeoutError` it becomes. -/
def Cut (e : Raised) (p : Progress) : Prop := e = .cancelled ∧ Fails .other p ∨ Fails e p

theorem timeout_ends {α : Type} {body : Adapter α} {p : Progress} {Q : α → Progress → Prop}
    (h : Ends body p Q Cut) : Ends (timeout body) p Q Fails := by
  constructor
  · intro a p' run
    unfold timeout at run
    split at run
    · cases run
    · exact h.1 a p' run
  · intro e p' run
    unfold timeout at run
    split at run
    · next inner =>
      cases run
      rcases h.2 _ _ inner with ⟨-, fails⟩ | fails
      · exact fails
      · cases fails <;> contradiction
    · next different =>
      rcases h.2 e p' run with ⟨rfl, -⟩ | fails
      · exact absurd run (different p')
      · exact fails

theorem cut_of {e : Raised} {p : Progress} {C : InvocationError → Prop}
    (h : (e = .cancelled ∨ e.isException = true) ∧ ∀ error, e.Carries error → C error)
    (fails : ∀ e : Raised, e.isException = true → (∀ error, e.Carries error → C error) →
      Fails e p) : Cut e p := by
  obtain ⟨rfl | kind, carries⟩ := h
  · exact .inl ⟨rfl, fails .other rfl nofun⟩
  · exact .inr (fails e kind carries)

theorem attempt_ends (well : u.WellBehaved) :
    Ends (u.attempt P maxResultBytes outputSchema) {} (fun _ p => p = answered) Fails := by
  unfold attempt
  refine .raiseIf_bind (fun _ => .rejected _ rfl) fun _ => .change_bind (timeout_ends ?_)
  refine ends_await_bind well.validateEndpoint (fun e h => cut_of h fun e kind none =>
    .early (.inl rfl) kind fun error carries => (none error carries).elim) fun _ => ?_
  refine .change_bind (ends_await_bind well.openClient (fun e h => cut_of h fun e kind none =>
    .early (.inr rfl) kind fun error carries => (none error carries).elim) fun _ => ?_)
  refine .bind ((invokeTool_ends well _).mono (fun _ _ h => h) ?_) ?_
  · rintro e p (⟨rfl, h⟩ | ⟨rfl, h⟩)
    · exact cut_of h fun e kind early => .early (.inr rfl) kind early
    · exact cut_of h fun e kind none => .dispatched kind none
  rintro result _ rfl
  refine .change_bind (.query_bind (.raiseIf_bind (fun _ => .inr (.late rfl (.inr ?_))) fun _ => ?_))
  · exact ⟨_, rfl, rfl, rfl, nofun, nofun⟩
  refine (normalize_ends well result _).mono (fun _ _ h => h) ?_
  rintro e p ⟨rfl, foreign | ⟨error, rfl, late⟩⟩
  · exact cut_of foreign fun e kind none => .late kind (.inl none)
  · exact .inr (.late rfl (.inr ⟨error, rfl, late⟩))

/-- The error that leaves `invoke` at each point. -/
inductive Verdict (u : Upstream) : InvocationError → Progress → Prop where
  | unfenced {error : InvocationError} : error.kind = .fenceRejected ∨
      error.kind = .error ∧ error.code = .preparationFailed → Verdict u error {}
  | early {error : InvocationError} {p : Progress} : p = fencedSession ∨ p = connected →
      error.kind = .fenceRejected ∨
        error.kind = .error ∧ error.code ≠ .preparationFailed ∧ error.dispatched = false →
      Verdict u error p
  | unknown {error : InvocationError} : u.flags.toolCallResponseCompleted = false →
      error.kind = .indeterminate → Verdict u error dispatching
  | completed {error : InvocationError} : u.flags.toolCallResponseCompleted = true →
      error.Late → Verdict u error dispatching
  | late {error : InvocationError} : error.Late → Verdict u error answered

theorem findException_eq_none {e : Raised} (h : ∀ error, ¬ e.Carries error) :
    e.findException Raised.isInvocation = none := by
  cases found : e.findException Raised.isInvocation with
  | none => rfl
  | some inner =>
    obtain ⟨error, -, carries⟩ := Raised.carries_of_findException found
    exact absurd carries (h error)

/-- An error of Modall's own goes out as it is. -/
theorem verdict_of_invocation {error : InvocationError} {p : Progress}
    (fails : Fails (.invocation error) p) : Verdict u error p := by
  cases fails with
  | rejected _ kind => exact .unfenced (.inl kind)
  | early place _ carried =>
    refine .early place ((carried error (.self error)).imp id fun h => ⟨h.1, ?_, h.2.2⟩)
    rw [h.2.1]
    exact nofun
  | dispatched _ none => exact absurd (.self error) (none error)
  | late _ h =>
    rcases h with none | ⟨_, same, late⟩
    · exact absurd (.self error) (none error)
    · cases same
      exact .late late

/-- Every other exception is classified by how far the execution had come. -/
theorem classify_verdict {e : Raised} {p : Progress} (fails : Fails e p)
    (foreign : e.isInvocation = false) :
    ∃ error, u.classify e p = .invocation error ∧ Verdict u error p := by
  cases fails with
  | rejected error _ => cases foreign
  | early place _ carried =>
    have undispatched : p.dispatched = false := by rcases place with rfl | rfl <;> rfl
    unfold classify
    simp only [undispatched, Bool.false_eq_true, false_and, if_false]
    split_ifs
    · exact ⟨_, rfl, .early place (.inr ⟨rfl, nofun, rfl⟩)⟩
    · split
      next nested found =>
        obtain ⟨error, rfl, carries⟩ := Raised.carries_of_findException found
        refine ⟨error, rfl, .early place ((carried error carries).imp id fun h => ⟨h.1, ?_, h.2.2⟩)⟩
        rw [h.2.1]
        exact nofun
      next => exact ⟨_, rfl, .early place (.inr ⟨rfl, nofun, rfl⟩)⟩
  | dispatched _ none =>
    unfold classify
    simp only [findException_eq_none none, dispatching, true_and, Bool.false_eq_true, false_or,
      not_false_eq_true, if_true]
    cases completed : u.flags.toolCallResponseCompleted with
    | true =>
      have verdict : ∀ code, code ≠ .preparationFailed → code ≠ .sessionInitializationFailed →
          Verdict u ⟨.error, code, true⟩ dispatching :=
        fun code hp hs => .completed completed ⟨rfl, rfl, hp, hs⟩
      simp only [true_and, not_true_eq_false, if_false]
      split_ifs <;> exact ⟨_, rfl, verdict _ nofun nofun⟩
    | false =>
      simp only [Bool.false_eq_true, false_and, if_false, not_false_eq_true, if_true]
      split_ifs <;> exact ⟨_, rfl, .unknown completed rfl⟩
  | late _ h =>
    have none : e.findException Raised.isInvocation = none := by
      rcases h with none | ⟨error, rfl, -⟩
      · exact findException_eq_none none
      · cases foreign
    have verdict : ∀ code, code ≠ .preparationFailed → code ≠ .sessionInitializationFailed →
        Verdict u ⟨.error, code, true⟩ answered := fun code hp hs => .late ⟨rfl, rfl, hp, hs⟩
    unfold classify
    simp only [none, answered, true_and, not_true_eq_false, false_and, if_false, true_or, if_true]
    split_ifs <;> exact ⟨_, rfl, verdict _ nofun nofun⟩

/-- `invoke` returns after the result has come, or raises an `InvocationError` that fits the
point it had reached. -/
theorem invoke_ends (well : u.WellBehaved) :
    Ends (u.invoke P maxResultBytes outputSchema) {} (fun _ p => p = answered)
      (fun e p => ∃ error, e = .invocation error ∧ Verdict u error p) := by
  unfold invoke
  refine .raiseIf_bind (fun _ => ⟨_, rfl, .unfenced (.inr ⟨rfl, rfl⟩)⟩) fun _ => ?_
  obtain ⟨returned, raised⟩ := attempt_ends (P := P) well
  constructor
  · intro result p run
    dsimp only at run
    split at run
    · cases run
      exact returned _ _ ‹_›
    · split_ifs at run
  · intro e p run
    dsimp only at run
    split at run
    · cases run
    · next e₀ p₀ failed =>
      have fails := raised _ _ failed
      split_ifs at run with own
      · cases run
        cases e with
        | invocation error => exact ⟨error, rfl, verdict_of_invocation fails⟩
        | _ => cases fails <;> simp_all [Raised.isInvocation]
      · cases run
        simp only [not_or, Bool.not_eq_true] at own
        exact classify_verdict fails own.1

end Upstream

end Modall
