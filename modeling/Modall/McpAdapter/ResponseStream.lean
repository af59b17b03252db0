import Modall.Library.Matching
import Modall.McpAdapter.Escapes
import Modall.McpAdapter.Screens

/-!
# Screening a response while it arrives

The byte stream that stands between the transport and its reader. It charges every chunk to the
budget, searches the raw and the decoded bytes for forbidden values, and either hands each chunk of
an event stream on or keeps the whole body back until it has been screened.
-/
namespace Modall.McpAdapter

open Library Library.Regex Library.Matching Security

def carriageReturn : UInt8 := 0x0d
def lineFeed : UInt8 := 0x0a

/-- `\r\n|\r(?!\n)|(?<!\r)\n`. -/
def lineBreak : Pattern UInt8 :=
  let cr := .one (· == carriageReturn)
  let lf := .one (· == lineFeed)
  Pattern.oneOf [.seq cr lf, .seq cr (.notAhead lf), .seq (.notBehind (· == carriageReturn)) lf]

def eventBoundary : Pattern UInt8 := .seq lineBreak lineBreak

/-- What the stream is made with. -/
structure Response where
  interpreter : Interpreter
  forbiddenValues : List ByteString
  expectedId : Interpreter.ExpectedId
  /-- The media type is `text/event-stream`. -/
  eventStream : Bool
  statusCode : Nat

/-- The callbacks that have been called. -/
structure Marks where
  sensitive : Bool
  complete : Bool
  toolFailure : Bool
deriving DecidableEq

structure Stream where
  /-- What is left of the budget. -/
  remaining : Int
  marks : Marks
  responseMarked : Bool
  pendingSensitiveResponse : Bool
  forbiddenMatcher : Matcher UInt8
  decodedForbiddenMatcher : Matcher UInt8
  /-- The unfinished escape. -/
  pending : ByteString
  genericTail : ByteString
  structuredBuffer : ByteString
  sseScanFrom : Nat
  /-- The events screened so far, which no step reads. -/
  screened : List ByteString

inductive Raised where
  | responseLimitExceeded
  | sensitiveResponseBody
  | unhandled (e : Unhandled)
deriving DecidableEq

namespace Response

def bufferJsonDocument (r : Response) : Bool := !r.eventStream || r.statusCode != 200

def start (r : Response) (budget : Int) : Stream where
  remaining := budget
  marks := ⟨false, false, false⟩
  responseMarked := false
  pendingSensitiveResponse := false
  forbiddenMatcher := .start r.forbiddenValues
  decodedForbiddenMatcher := .start r.forbiddenValues
  pending := []
  genericTail := []
  structuredBuffer := []
  sseScanFrom := 0
  screened := []

end Response

namespace Stream

def markSensitive (s : Stream) : Stream := { s with marks.sensitive := true }

def markToolFailure (s : Stream) : Stream := { s with marks.toolFailure := true }

def markCompleteOnce (s : Stream) : Stream :=
  if s.responseMarked then s else { s with responseMarked := true, marks.complete := true }

/-- What an answer to the request marks. -/
def markResponse (s : Stream) (response : Bool × Bool) : Stream :=
  if response.1 then
    if response.2 then s.markCompleteOnce.markToolFailure else s.markCompleteOnce
  else s

/-- The chunk is set against the budget. -/
def charge (s : Stream) (chunk : ByteString) : Stream :=
  { s with remaining := s.remaining - chunk.length }

/-- The chunk with its escapes decoded. -/
def decoded (s : Stream) (chunk : ByteString) : ByteString := (decodeEscapes s.pending chunk).2

def genericWindow (s : Stream) (chunk : ByteString) : ByteString := s.genericTail ++ s.decoded chunk

/-- `value[-n:]`. -/
def tail (n : Nat) (value : ByteString) : ByteString := value.drop (value.length - n)

/-- The chunk goes through the decoder and into the buffers. -/
def keep (s : Stream) (chunk : ByteString) : Stream :=
  { s with
    pending := (decodeEscapes s.pending chunk).1
    genericTail := tail 256 (s.genericWindow chunk)
    structuredBuffer := s.structuredBuffer ++ chunk }

/-- The decoded bytes and the window that belong to them are searched. -/
def searchDecoded (s : Stream) (decoded window : ByteString) : Stream :=
  let (found, matcher) := s.decodedForbiddenMatcher.feed decoded
  let s := { s with decodedForbiddenMatcher := matcher }
  if found || containsObviousSecret (decodeIgnore window) then
    { s.markSensitive with pendingSensitiveResponse := true }
  else s

/-- The searches in one chunk; an occurrence in the raw bytes leaves out the others. -/
def searchChunk (s : Stream) (chunk decoded window : ByteString) : Stream :=
  let (found, matcher) := s.forbiddenMatcher.feed chunk
  let s := { s with forbiddenMatcher := matcher }
  if found then { s.markSensitive with pendingSensitiveResponse := true }
  else s.searchDecoded decoded window

/-- `_reject_sensitive_body`. -/
def rejectSensitiveBody (s : Stream) : Stream × Option Raised :=
  (s.markSensitive, some .sensitiveResponseBody)

/-- The next completed event: it starts `consumed` bytes into the buffer, and with it comes where
the boundary behind it ends. -/
def nextEvent (s : Stream) (consumed : Nat) : Option (ByteString × Nat) :=
  let buffer := s.structuredBuffer
  (search eventBoundary (buffer.take s.sseScanFrom).reverse (buffer.drop s.sseScanFrom)).map
    fun m => ((buffer.take (buffer.length - m.start.length)).drop consumed,
      buffer.length - m.rest.length)

end Stream

namespace Response
variable (r : Response)

/-- One completed event. -/
def screenEvent (s : Stream) (event : ByteString) : Stream × Option Raised :=
  match r.interpreter.sseJsonrpcResponse r.expectedId event with
  | .error e => (s, some (.unhandled e))
  | .ok response =>
    let s := { s.markResponse response with screened := s.screened ++ [event] }
    if s.pendingSensitiveResponse then s.rejectSensitiveBody
    else match r.interpreter.containsSensitiveSseEvent event with
      | .error e => (s, some (.unhandled e))
      | .ok true => s.rejectSensitiveBody
      | .ok false => (s, none)

/-- The loop of `_screen_completed_sse_events`; every boundary ends behind the one before it. -/
def screenEvents (s : Stream) (consumed : Nat) : Nat → Stream × Nat × Option Raised
  | 0 => (s, consumed, none)
  | fuel + 1 =>
    match s.nextEvent consumed with
    | none => (s, consumed, none)
    | some (event, consumed) =>
      match r.screenEvent { s with sseScanFrom := consumed } event with
      | (s, some e) => (s, consumed, some e)
      | (s, none) => screenEvents s consumed fuel

/-- `_screen_completed_sse_events`. -/
def screenCompletedSseEvents (s : Stream) : Stream × Option Raised :=
  match r.screenEvents s 0 s.structuredBuffer.length with
  | (s, _, some e) => (s, some e)
  | (s, consumed, none) =>
    let buffer := s.structuredBuffer.drop consumed
    ({ s with structuredBuffer := buffer, sseScanFrom := buffer.length - 3 }, none)

/-- The body of the loop of `__aiter__`: what it yields, if anything. -/
def receive (s : Stream) (chunk : ByteString) : Stream × Except Raised (Option ByteString) :=
  let charged := s.charge chunk
  if charged.remaining < 0 then (charged, .error .responseLimitExceeded)
  else if r.bufferJsonDocument then
    ((charged.keep chunk).searchChunk chunk (s.decoded chunk) (s.genericWindow chunk), .ok none)
  else match r.screenCompletedSseEvents (charged.keep chunk) with
    | (s', some e) => (s', .error e)
    | (s', none) =>
      (s'.searchChunk chunk (s.decoded chunk) (s.genericWindow chunk), .ok (some chunk))

/-- `__aiter__` behind the last chunk of a body that was kept back. -/
def finishDocument (s : Stream) : Stream × Except Raised (Option ByteString) :=
  let body := s.structuredBuffer
  match r.interpreter.jsonrpcResponse r.expectedId body with
  | .error e => (s, .error (.unhandled e))
  | .ok response =>
    let malformedSuccess := response.isNone && (r.statusCode == 200 || r.statusCode == 204)
    let clientRejection := decide (400 ≤ r.statusCode ∧ r.statusCode < 500)
    let s := s.markResponse (clientRejection || malformedSuccess || response.any (·.1),
      clientRejection || response.any (·.2))
    let reject := (s.markSensitive, .error .sensitiveResponseBody)
    if s.pendingSensitiveResponse then reject
    else match r.interpreter.containsSensitiveJsonDocument body with
      | .error e => (s, .error (.unhandled e))
      | .ok true => reject
      | .ok false => (s, .ok (if body.isEmpty then none else some body))

/-- `__aiter__` behind the last chunk of an event stream. -/
def finishEvents (s : Stream) : Stream × Except Raised (Option ByteString) :=
  let reject := (s.markSensitive, .error .sensitiveResponseBody)
  if s.pendingSensitiveResponse then reject
  else if s.structuredBuffer.isEmpty then (s, .ok none)
  else match r.interpreter.containsSensitiveSseEvent s.structuredBuffer with
    | .error e => (s, .error (.unhandled e))
    | .ok true => reject
    | .ok false => (s, .ok none)

def finish (s : Stream) : Stream × Except Raised (Option ByteString) :=
  let searched := { s with pending := [] }.searchDecoded s.pending (s.genericTail ++ s.pending)
  if r.bufferJsonDocument then r.finishDocument searched else r.finishEvents searched

/-- A whole iteration: what was yielded, with the marks at that moment, the stream at its end and
what it raised. -/
structure Transcript where
  yielded : List (ByteString × Marks)
  final : Stream
  raised : Option Raised

/-- What a step adds before the rest of the iteration. -/
def Transcript.before (step : Stream × Except Raised (Option ByteString))
    (rest : Stream → Transcript) : Transcript :=
  match step with
  | (s, .error e) => ⟨[], s, some e⟩
  | (s, .ok none) => rest s
  | (s, .ok (some chunk)) =>
    let t := rest s
    { t with yielded := (chunk, s.marks) :: t.yielded }

/-- `__aiter__`. -/
def iterate (s : Stream) : List ByteString → Transcript
  | [] => .before (r.finish s) fun s => ⟨[], s, none⟩
  | chunk :: chunks => .before (r.receive s chunk) fun s => iterate s chunks

end Response

end Modall.McpAdapter
