import Modall.McpAdapter.ByteMatcher
import Modall.McpAdapter.Credentials

/-!
# The screen of a buffered body, and the chunks it comes in

The matchers and the screen of the whole document see the same bytes however a body is cut. The
search for credential-shaped text does not: it sees each chunk with the 256 bytes before it, and a
value that a chunk cuts off may look opaque where the whole value does not. This is all that the
chunks can change, so the outcome is the same for every way of cutting exactly when the other
screens reject the body, or when these windows agree.
-/
namespace Modall.McpAdapter

open Library Library.Matching Security
open IncrementalByteMatcher (Occurs)

/-! ## Windows -/

/-- The bytes with their escapes decoded, without an unfinished one at the end. -/
def decodedBytes (text : ByteString) : ByteString := (decodeEscapes [] text).2

/-- What is searched for credential-shaped text when a chunk arrives behind `received`. -/
def chunkWindow (received chunk : ByteString) : ByteString :=
  (decodedBytes (received ++ chunk)).drop ((decodedBytes received).length - 256)

/-- What is searched at the end. -/
def lastWindow (body : ByteString) : ByteString :=
  Stream.tail 256 (decodedBytes body) ++ (decodeEscapes [] body).1

def looksSecret (window : ByteString) : Bool := containsObviousSecret (decodeIgnore window)

/-- The body can be cut into chunks none of which brings a window that looks like a secret. -/
inductive Quiet : ByteString → Prop
  | nil : Quiet []
  | chunk {received : ByteString} (chunk : ByteString) : Quiet received →
      looksSecret (chunkWindow received chunk) = false → Quiet (received ++ chunk)

/-- No chunk of the body brings a window that looks like a secret. -/
def Plain (body : ByteString) : Prop :=
  ∀ received chunk rest, body = received ++ chunk ++ rest →
    looksSecret (chunkWindow received chunk) = false

lemma decodedBytes_append (received chunk : ByteString) :
    decodedBytes (received ++ chunk) =
      decodedBytes received ++ (decodeEscapes (decodeEscapes [] received).1 chunk).2 := by
  rw [decodedBytes, decodeEscapes_append]
  rfl

lemma length_decodedBytes_le (received chunk : ByteString) :
    (decodedBytes received).length ≤ (decodedBytes (received ++ chunk)).length := by
  rw [decodedBytes_append, List.length_append]
  omega

/-- Some window looks like a secret while these chunks arrive. -/
def Alarms (received : ByteString) : List ByteString → Prop
  | [] => False
  | chunk :: chunks =>
    looksSecret (chunkWindow received chunk) = true ∨ Alarms (received ++ chunk) chunks

lemma not_alarms_of_plain {received : ByteString} {chunks : List ByteString}
    (h : Plain (received ++ chunks.flatten)) : ¬Alarms received chunks := by
  induction chunks generalizing received with
  | nil => exact not_false
  | cons chunk chunks ih =>
    rintro (halarm | halarm)
    · have hplain := h received chunk chunks.flatten (by simp)
      rw [hplain] at halarm
      cases halarm
    · exact ih (by simpa using h) halarm

lemma quiet_of_not_alarms {received : ByteString} {chunks : List ByteString}
    (h : Quiet received) (halarms : ¬Alarms received chunks) :
    Quiet (received ++ chunks.flatten) := by
  induction chunks generalizing received with
  | nil => simpa using h
  | cons chunk chunks ih =>
    rw [Alarms, not_or, Bool.not_eq_true] at halarms
    rw [List.flatten_cons, ← List.append_assoc]
    exact ih (.chunk chunk h halarms.1) halarms.2

lemma alarms_append {received : ByteString} {chunks more : List ByteString} :
    Alarms received (chunks ++ more) ↔
      Alarms received chunks ∨ Alarms (received ++ chunks.flatten) more := by
  induction chunks generalizing received with
  | nil => simp [Alarms]
  | cons chunk chunks ih => simp [Alarms, ih, or_assoc]

/-- Some chunks that raise no alarm. -/
lemma Quiet.chunks {body : ByteString} (h : Quiet body) :
    ∃ chunks, chunks.flatten = body ∧ ¬Alarms [] chunks := by
  induction h with
  | nil => exact ⟨[], rfl, not_false⟩
  | @chunk received chunk hquiet hwindow ih =>
    obtain ⟨chunks, rfl, halarms⟩ := ih
    refine ⟨chunks ++ [chunk], by simp, ?_⟩
    rw [alarms_append, not_or]
    refine ⟨halarms, ?_⟩
    simp [Alarms, hwindow]

/-! ## What a stream that keeps a body back has found -/

lemma Occurs.append {patterns : List ByteString} {text : ByteString}
    (h : Occurs patterns text) (more : ByteString) : Occurs patterns (text ++ more) := by
  obtain ⟨pattern, hmem, hne, hinside⟩ := h
  exact ⟨pattern, hmem, hne, hinside.trans (List.infix_append [] text more)⟩

/-- A matcher reports exactly what occurs. -/
lemma feed_eq_true_iff {m : Matcher UInt8} {patterns : List ByteString} {text : ByteString}
    (h : m.Read text) (hpatterns : m.map Automaton.pattern = patterns.filter (· ≠ []))
    (more : ByteString) : (m.feed more).1 = true ↔ Occurs patterns (text ++ more) := by
  constructor
  · intro hfound
    obtain ⟨pattern, hpattern, hinside⟩ := Matcher.feed_found h more hfound
    rw [hpatterns, List.mem_filter, decide_eq_true_eq] at hpattern
    exact ⟨pattern, hpattern.1, hpattern.2, hinside⟩
  · rintro ⟨pattern, hmem, hne, hinside⟩
    by_contra hfound
    have hread := Matcher.feed_read h more (Bool.not_eq_true _ ▸ hfound)
    refine hread.absent ?_ hinside
    rw [Matcher.feed_patterns, hpatterns, List.mem_filter, decide_eq_true_eq]
    exact ⟨hmem, hne⟩

namespace Stream
variable {s : Stream} {patterns : List ByteString}

/-- The search in decoded bytes flags the stream for exactly these reasons. -/
lemma searchDecoded_flag {read : ByteString} (h : s.decodedForbiddenMatcher.Read read)
    (hpatterns : s.decodedForbiddenMatcher.map Automaton.pattern = patterns.filter (· ≠ []))
    (hmarks : s.marks.sensitive = s.pendingSensitiveResponse) (decoded window : ByteString) :
    ((s.searchDecoded decoded window).pendingSensitiveResponse = true ↔
      s.pendingSensitiveResponse = true ∨ Occurs patterns (read ++ decoded) ∨
        looksSecret window = true) ∧
    (s.searchDecoded decoded window).marks.sensitive =
      (s.searchDecoded decoded window).pendingSensitiveResponse := by
  rw [← feed_eq_true_iff h hpatterns decoded, ← Bool.or_eq_true (Matcher.feed _ _).1, looksSecret]
  simp only [searchDecoded]
  split
  case isTrue hfound => simp [markSensitive, hfound]
  case isFalse hclean => simp [hclean, hmarks]

/-- A chunk flags the stream for exactly these reasons. -/
lemma searchChunk_flag {received read : ByteString} (hraw : s.forbiddenMatcher.Read received)
    (hrawPatterns : s.forbiddenMatcher.map Automaton.pattern = patterns.filter (· ≠ []))
    (h : s.decodedForbiddenMatcher.Read read)
    (hpatterns : s.decodedForbiddenMatcher.map Automaton.pattern = patterns.filter (· ≠ []))
    (hmarks : s.marks.sensitive = s.pendingSensitiveResponse)
    (chunk decoded window : ByteString) :
    ((s.searchChunk chunk decoded window).pendingSensitiveResponse = true ↔
      s.pendingSensitiveResponse = true ∨ Occurs patterns (received ++ chunk) ∨
        Occurs patterns (read ++ decoded) ∨ looksSecret window = true) ∧
    (s.searchChunk chunk decoded window).marks.sensitive =
      (s.searchChunk chunk decoded window).pendingSensitiveResponse := by
  have hfound := feed_eq_true_iff hraw hrawPatterns chunk
  simp only [searchChunk]
  split
  case isTrue hoccurs => simp [markSensitive, hfound.1 hoccurs]
  case isFalse hclean =>
    obtain ⟨hflag, hsame⟩ := searchDecoded_flag
      (s := { s with forbiddenMatcher := (s.forbiddenMatcher.feed chunk).2 }) h hpatterns hmarks
      decoded window
    refine ⟨?_, hsame⟩
    rw [hflag]
    have habsent := mt hfound.2 hclean
    tauto

end Stream

namespace Response
variable {r : Response} {s : Stream} {budget : Int} {received : ByteString}

/-- The stream has kept `received` back. -/
structure Kept (r : Response) (budget : Int) (received : ByteString) (s : Stream) : Prop where
  watches : s.Watches r.forbiddenValues received
  genericTail : s.genericTail = Stream.tail 256 (decodedBytes received)
  buffer : s.structuredBuffer = received
  marks : s.marks = ⟨s.pendingSensitiveResponse, false, false⟩
  marked : s.responseMarked = false
  remaining : s.remaining = budget - received.length

lemma kept_start (r : Response) (budget : Int) : Kept r budget [] (r.start budget) :=
  ⟨r.start_watches budget, rfl, rfl, rfl, rfl, by simp [Response.start]⟩

/-- A forbidden value occurs in the bytes, raw or decoded. -/
def Forbidden (r : Response) (text decoded : ByteString) : Prop :=
  Occurs r.forbiddenValues text ∨ Occurs r.forbiddenValues decoded

lemma Kept.not_forbidden (h : Kept r budget received s) (hflag : s.pendingSensitiveResponse = false) :
    s.forbiddenMatcher.Read received ∧ s.decodedForbiddenMatcher.Read (decodedBytes received) := by
  refine h.watches.searched.resolve_left fun hflagged => ?_
  rw [hflagged.2] at hflag
  cases hflag

lemma genericWindow_eq (h : Kept r budget received s) (chunk : ByteString) :
    s.genericWindow chunk = chunkWindow received chunk := by
  rw [Stream.genericWindow, Stream.decoded, h.genericTail, h.watches.pending, chunkWindow,
    decodedBytes_append, List.drop_append_of_le_length (Nat.sub_le _ _)]
  rfl

lemma tail_append (n : Nat) (value more : ByteString) :
    Stream.tail n (Stream.tail n value ++ more) = Stream.tail n (value ++ more) := by
  by_cases hle : value.length ≤ n
  · rw [Stream.tail, Stream.tail, Stream.tail, Nat.sub_eq_zero_of_le hle, List.drop_zero]
  · have hsub := Nat.sub_le value.length n
    rw [Stream.tail, Stream.tail, Stream.tail, ← List.drop_append_of_le_length hsub, List.drop_drop]
    congr 1
    simp only [List.length_drop, List.length_append]
    omega

/-- A chunk flags the stream for exactly these reasons. -/
lemma Kept.flag (h : Kept r budget received s) (chunk : ByteString) :
    let t := ((s.charge chunk).keep chunk).searchChunk chunk (s.decoded chunk)
      (s.genericWindow chunk)
    (t.pendingSensitiveResponse = true ↔ s.pendingSensitiveResponse = true ∨
      Forbidden r (received ++ chunk) (decodedBytes (received ++ chunk)) ∨
      looksSecret (chunkWindow received chunk) = true) ∧
    t.marks.sensitive = t.pendingSensitiveResponse := by
  have hmarks : s.marks.sensitive = s.pendingSensitiveResponse := by rw [h.marks]
  cases hquiet : s.pendingSensitiveResponse with
  | true =>
    obtain ⟨hsensitive, hpending⟩ := Stream.flagged_searchChunk (s := (s.charge chunk).keep chunk)
      ⟨hmarks.trans hquiet, hquiet⟩ chunk (s.decoded chunk) (s.genericWindow chunk)
    exact ⟨by simp [hpending], hsensitive.trans hpending.symm⟩
  | false =>
    obtain ⟨hraw, hdecoded⟩ := h.not_forbidden hquiet
    obtain ⟨hflag, hsame⟩ := Stream.searchChunk_flag (s := (s.charge chunk).keep chunk) hraw
      h.watches.raw hdecoded h.watches.decoded hmarks chunk (s.decoded chunk) (s.genericWindow chunk)
    have hstep : decodedBytes received ++ s.decoded chunk = decodedBytes (received ++ chunk) := by
      rw [decodedBytes_append, ← h.watches.pending]
      rfl
    refine ⟨hflag.trans ?_, hsame⟩
    have hidle : ((s.charge chunk).keep chunk).pendingSensitiveResponse = false := hquiet
    rw [hstep, genericWindow_eq h, hidle, Forbidden, or_assoc]

/-- One more chunk is kept back. -/
lemma Kept.receive (hbuffered : r.bufferJsonDocument = true) (h : Kept r budget received s)
    {chunk : ByteString} (hbudget : (received ++ chunk).length ≤ budget) :
    ∃ t, r.receive s chunk = (t, .ok none) ∧ Kept r budget (received ++ chunk) t ∧
      (t.pendingSensitiveResponse = true ↔ s.pendingSensitiveResponse = true ∨
        Forbidden r (received ++ chunk) (decodedBytes (received ++ chunk)) ∨
        looksSecret (chunkWindow received chunk) = true) := by
  have hremaining := h.remaining
  rw [List.length_append] at hbudget
  push_cast at hbudget
  have hcharged : ¬(s.charge chunk).remaining < 0 := by
    simp only [Stream.charge]
    omega
  have hwatches := h.watches.searchChunk (s.genericWindow chunk) (.refl ((s.charge chunk).keep chunk))
  obtain ⟨hflag, hsame⟩ := h.flag chunk
  refine ⟨_, by rw [Response.receive, if_neg hcharged, if_pos hbuffered], ?_, hflag⟩
  obtain ⟨sensitive, pendingSensitive, raw, matcher, hsearch⟩ :=
    ((s.charge chunk).keep chunk).searchChunk_eq chunk (s.decoded chunk) (s.genericWindow chunk)
  rw [hsearch] at hwatches hsame ⊢
  refine ⟨hwatches, ?_, ?_, ?_, h.marked, ?_⟩
  · have hwindow : s.genericWindow chunk =
        Stream.tail 256 (decodedBytes received) ++ s.decoded chunk := by
      rw [Stream.genericWindow, h.genericTail]
    have hstep : decodedBytes received ++ s.decoded chunk = decodedBytes (received ++ chunk) := by
      rw [decodedBytes_append, ← h.watches.pending]
      rfl
    have hsame : (s.charge chunk).genericWindow chunk = s.genericWindow chunk := rfl
    simp only [Stream.keep]
    rw [hsame, hwindow, tail_append, hstep]
  · exact congrArg (· ++ chunk) h.buffer
  · simp only [Stream.keep, Stream.charge, h.marks] at hsame ⊢
    rw [hsame]
  · simp only [Stream.keep, Stream.charge, h.remaining, List.length_append]
    push_cast
    omega

lemma Forbidden.append {text : ByteString} (h : Forbidden r text (decodedBytes text))
    (more : ByteString) : Forbidden r (text ++ more) (decodedBytes (text ++ more)) := by
  rw [decodedBytes_append]
  exact h.imp (Occurs.append · _) (Occurs.append · _)

lemma Kept.flag_of_forbidden (h : Kept r budget received s)
    (hforbidden : Forbidden r received (decodedBytes received)) :
    s.pendingSensitiveResponse = true := by
  by_contra hflag
  obtain ⟨hraw, hdecoded⟩ := h.not_forbidden (Bool.not_eq_true _ ▸ hflag)
  obtain ⟨pattern, hmem, hne, hinside⟩ | ⟨pattern, hmem, hne, hinside⟩ := hforbidden
  · refine hraw.absent ?_ hinside
    rw [h.watches.raw, List.mem_filter, decide_eq_true_eq]
    exact ⟨hmem, hne⟩
  · refine hdecoded.absent ?_ hinside
    rw [h.watches.decoded, List.mem_filter, decide_eq_true_eq]
    exact ⟨hmem, hne⟩

/-- All chunks are kept back. -/
lemma Kept.iterate (hbuffered : r.bufferJsonDocument = true) (h : Kept r budget received s)
    {chunks : List ByteString} (hbudget : (received ++ chunks.flatten).length ≤ budget) :
    ∃ t, r.iterate s chunks = r.iterate t [] ∧ Kept r budget (received ++ chunks.flatten) t ∧
      (t.pendingSensitiveResponse = true ↔ s.pendingSensitiveResponse = true ∨
        Forbidden r (received ++ chunks.flatten) (decodedBytes (received ++ chunks.flatten)) ∨
        Alarms received chunks) := by
  induction chunks generalizing s received with
  | nil =>
    rw [List.flatten_nil, List.append_nil]
    have hflag := h.flag_of_forbidden
    exact ⟨s, rfl, h, by simp only [Alarms]; tauto⟩
  | cons chunk chunks ih =>
    rw [List.flatten_cons, ← List.append_assoc] at hbudget ⊢
    have hchunk : ((received ++ chunk).length : Int) ≤ budget := by
      rw [List.length_append] at hbudget
      omega
    obtain ⟨u, hreceive, hkept, hflag⟩ := h.receive hbuffered hchunk
    obtain ⟨t, hiterate, hall, hflags⟩ := ih hkept hbudget
    refine ⟨t, ?_, hall, ?_⟩
    · rw [← hiterate, Response.iterate.eq_2, hreceive]
      rfl
    · rw [hflags, hflag, Alarms]
      constructor
      · rintro ((hs | hforbidden | halarm) | hforbidden | halarms)
        · exact .inl hs
        · exact .inr (.inl (hforbidden.append _))
        · exact .inr (.inr (.inl halarm))
        · exact .inr (.inl hforbidden)
        · exact .inr (.inr (.inr halarms))
      · rintro (hs | hforbidden | halarm | halarms)
        · exact .inl (.inl hs)
        · exact .inr (.inl hforbidden)
        · exact .inl (.inr (.inr halarm))
        · exact .inr (.inr halarms)

/-! ## The end of the body -/

/-- The marks at the end and what is raised, when the searches in the chunks and behind them have
flagged the stream or not. -/
def conclude (r : Response) (body : ByteString) (flag : Bool) : Marks × Option Raised :=
  match r.interpreter.jsonrpcResponse r.expectedId body with
  | .error e => (⟨flag, false, false⟩, some (.unhandled e))
  | .ok response =>
    let clientRejection := decide (400 ≤ r.statusCode ∧ r.statusCode < 500)
    let complete := clientRejection ||
      (response.isNone && (r.statusCode == 200 || r.statusCode == 204)) || response.any (·.1)
    let failure := complete && (clientRejection || response.any (·.2))
    if flag then (⟨true, complete, failure⟩, some .sensitiveResponseBody)
    else match r.interpreter.containsSensitiveJsonDocument body with
      | .error e => (⟨false, complete, failure⟩, some (.unhandled e))
      | .ok true => (⟨true, complete, failure⟩, some .sensitiveResponseBody)
      | .ok false => (⟨false, complete, failure⟩, none)

/-- The screen of the whole document comes to a verdict, and rejects it. -/
def RejectsDocument (r : Response) (body : ByteString) : Prop :=
  (∃ response, r.interpreter.jsonrpcResponse r.expectedId body = .ok response) ∧
    r.interpreter.containsSensitiveJsonDocument body = .ok true

/-- Whether the searches flagged the stream shows at the end, unless the document is rejected. -/
lemma conclude_flag {body : ByteString} :
    (RejectsDocument r body → conclude r body true = conclude r body false) ∧
    (¬RejectsDocument r body → ∀ flag, (conclude r body flag).1.sensitive = flag) := by
  simp only [RejectsDocument, conclude]
  cases r.interpreter.jsonrpcResponse r.expectedId body with
  | error e => simp
  | ok response =>
    cases r.interpreter.containsSensitiveJsonDocument body with
    | error e => simp
    | ok verdict =>
      cases verdict
      · simp
      · simp

lemma markResponse_marks {flag : Bool} (hmarks : s.marks = ⟨flag, false, false⟩)
    (hmarked : s.responseMarked = false) (response : Bool × Bool) :
    (s.markResponse response).marks = ⟨flag, response.1, response.1 && response.2⟩ := by
  obtain ⟨answers, fails⟩ := response
  cases answers <;> cases fails <;>
    simp [Stream.markResponse, Stream.markCompleteOnce, Stream.markToolFailure, hmarks, hmarked]

lemma finishDocument_eq {body : ByteString} {flag : Bool} (hbuffer : s.structuredBuffer = body)
    (hmarks : s.marks = ⟨flag, false, false⟩) (hflag : s.pendingSensitiveResponse = flag)
    (hmarked : s.responseMarked = false) :
    (r.finishDocument s).1.marks = (conclude r body flag).1 ∧
      ((conclude r body flag).2 = none →
        (r.finishDocument s).2 = .ok (if body.isEmpty then none else some body)) ∧
      ∀ e, (conclude r body flag).2 = some e → (r.finishDocument s).2 = .error e := by
  subst hbuffer
  simp only [finishDocument, conclude]
  cases r.interpreter.jsonrpcResponse r.expectedId s.structuredBuffer with
  | error e => simp [hmarks]
  | ok response =>
    simp only [(s.sameSearch_markResponse _).pendingSensitiveResponse, hflag]
    cases flag with
    | true => simp [Stream.markSensitive, markResponse_marks hmarks hmarked]
    | false =>
      simp only [Bool.false_eq_true, if_false]
      rcases r.interpreter.containsSensitiveJsonDocument s.structuredBuffer with e | _ | _
      · simp [markResponse_marks hmarks hmarked]
      · simp [markResponse_marks hmarks hmarked]
      · simp [Stream.markSensitive, markResponse_marks hmarks hmarked]

/-- The searches flag the stream by the end of the body. -/
def FlaggedBy (r : Response) (body : ByteString) (chunks : List ByteString) : Prop :=
  Occurs r.forbiddenValues body ∨
    Occurs r.forbiddenValues (decodedBytes body ++ (decodeEscapes [] body).1) ∨
    looksSecret (lastWindow body) = true ∨ Alarms [] chunks

/-- The search behind the last chunk. -/
lemma Kept.searchDecoded {body : ByteString} (h : Kept r budget body s) :
    ∃ t, { s with pending := [] }.searchDecoded s.pending (s.genericTail ++ s.pending) = t ∧
      t.structuredBuffer = body ∧ t.marks = ⟨t.pendingSensitiveResponse, false, false⟩ ∧
      t.responseMarked = false ∧
      (t.pendingSensitiveResponse = true ↔ s.pendingSensitiveResponse = true ∨
        Occurs r.forbiddenValues (decodedBytes body ++ (decodeEscapes [] body).1) ∨
        looksSecret (lastWindow body) = true) := by
  have hmarks : s.marks.sensitive = s.pendingSensitiveResponse := by rw [h.marks]
  have hflag : ∀ t, { s with pending := [] }.searchDecoded s.pending
      (s.genericTail ++ s.pending) = t → t.marks.sensitive = t.pendingSensitiveResponse ∧
      (t.pendingSensitiveResponse = true ↔ s.pendingSensitiveResponse = true ∨
        Occurs r.forbiddenValues (decodedBytes body ++ (decodeEscapes [] body).1) ∨
        looksSecret (lastWindow body) = true) := by
    rintro t rfl
    by_cases hquiet : s.pendingSensitiveResponse = true
    · obtain ⟨hsensitive, hpending⟩ := Stream.flagged_searchDecoded (s := { s with pending := [] })
        ⟨hmarks.trans hquiet, hquiet⟩ s.pending (s.genericTail ++ s.pending)
      exact ⟨hsensitive.trans hpending.symm, iff_of_true hpending (.inl hquiet)⟩
    · obtain ⟨-, hdecoded⟩ := h.not_forbidden (Bool.not_eq_true _ ▸ hquiet)
      obtain ⟨hflag, hsame⟩ := Stream.searchDecoded_flag (s := { s with pending := [] }) hdecoded
        h.watches.decoded hmarks s.pending (s.genericTail ++ s.pending)
      refine ⟨hsame, hflag.trans ?_⟩
      rw [h.genericTail, h.watches.pending, lastWindow]
  obtain ⟨sensitive, pendingSensitive, matcher, hsearch⟩ :=
    { s with pending := [] }.searchDecoded_eq s.pending (s.genericTail ++ s.pending)
  obtain ⟨hsame, hiff⟩ := hflag _ hsearch
  refine ⟨_, hsearch, h.buffer, ?_, h.marked, hiff⟩
  simp only [h.marks] at hsame ⊢
  rw [hsame]

/-- A whole iteration over the chunks of a body within the budget. -/
lemma iterate_concludes (hbuffered : r.bufferJsonDocument = true) {body : ByteString}
    (hbudget : body.length ≤ budget) {chunks : List ByteString} (hchunks : chunks.flatten = body) :
    ∃ flag : Bool, (flag = true ↔ FlaggedBy r body chunks) ∧
      (r.iterate (r.start budget) chunks).final.marks = (conclude r body flag).1 ∧
      (r.iterate (r.start budget) chunks).raised = (conclude r body flag).2 ∧
      ((conclude r body flag).2 = none →
        ((r.iterate (r.start budget) chunks).yielded.map Prod.fst).flatten = body) := by
  subst hchunks
  have hbudget' : ([] ++ chunks.flatten).length ≤ budget := by simpa using hbudget
  obtain ⟨u, hiterate, hkept, hflag⟩ := (kept_start r budget).iterate hbuffered hbudget'
  rw [List.nil_append] at hkept hflag
  obtain ⟨t, hsearch, hbuffer, hmarks, hmarked, hlast⟩ := hkept.searchDecoded
  obtain ⟨hfinal, hyields, hraises⟩ := finishDocument_eq (r := r) hbuffer hmarks rfl hmarked
  have hfinish : r.finish u = r.finishDocument t := by
    rw [finish, hsearch, if_pos hbuffered]
  refine ⟨t.pendingSensitiveResponse, ?_, ?_⟩
  · have hdecoded := fun h : Occurs r.forbiddenValues (decodedBytes chunks.flatten) =>
      Occurs.append h (decodeEscapes [] chunks.flatten).1
    have hidle : (r.start budget).pendingSensitiveResponse = false := rfl
    rw [hlast, hflag, FlaggedBy, Forbidden, hidle]
    simp only [Bool.false_eq_true, false_or]
    constructor
    · rintro (((hraw | hdecoded') | halarms) | hend | hsecret)
      · exact .inl hraw
      · exact .inr (.inl (hdecoded hdecoded'))
      · exact .inr (.inr (.inr halarms))
      · exact .inr (.inl hend)
      · exact .inr (.inr (.inl hsecret))
    · rintro (hraw | hend | hsecret | halarms)
      · exact .inl (.inl (.inl hraw))
      · exact .inr (.inl hend)
      · exact .inr (.inr hsecret)
      · exact .inl (.inr halarms)
  · rw [hiterate, iterate, hfinish]
    generalize r.finishDocument t = step at hfinal hyields hraises
    obtain ⟨t', result⟩ := step
    simp only at hfinal hyields hraises
    cases hconclude : (conclude r chunks.flatten t.pendingSensitiveResponse).2 with
    | none =>
      obtain rfl := hyields hconclude
      split
      case isTrue hempty => exact ⟨hfinal, rfl, fun _ => (List.isEmpty_iff.1 hempty).symm⟩
      case isFalse => exact ⟨hfinal, rfl, fun _ => List.flatten_singleton⟩
    | some e =>
      obtain rfl := hraises e hconclude
      exact ⟨hfinal, rfl, fun h => by cases h⟩

end Response

/-- The body is delivered. -/
def Response.Transcript.Delivers (t : Response.Transcript) (body : ByteString) : Prop :=
  t.raised = none ∧ (t.yielded.map Prod.fst).flatten = body

/-- Both iterations deliver the body, or both raise, and they leave the same marks. -/
def Response.Transcript.Agrees (body : ByteString) (t t' : Response.Transcript) : Prop :=
  (t.Delivers body ∧ t'.Delivers body ∨ t.raised ≠ none ∧ t'.raised ≠ none) ∧
    t.final.marks = t'.final.marks

/-- A body for which the chunks do not matter: a forbidden value occurs in it, its end looks like a
secret, the document is rejected as a whole, none of the windows that chunks can bring looks like a
secret, or it cannot be cut without bringing one that does. -/
def Response.Settles (r : Response) (body : ByteString) : Prop :=
  Occurs r.forbiddenValues body ∨
    Occurs r.forbiddenValues (decodedBytes body ++ (decodeEscapes [] body).1) ∨
    looksSecret (lastWindow body) = true ∨ r.RejectsDocument body ∨ Plain body ∨ ¬Quiet body

/-- A JSON document that is not an answer, with no forbidden values. -/
def plainDocument : Response := ⟨⟨id, 100⟩, [], fun _ => true, false, 200⟩

end Modall.McpAdapter
