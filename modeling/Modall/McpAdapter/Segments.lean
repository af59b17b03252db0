import Modall.McpAdapter.Boundaries
import Modall.McpAdapter.Credentials

/-!
# The events of a stream, however it is cut into chunks

The boundary pattern looks at the bytes around it, and a chunk may end in the middle of a boundary.
Between two chunks the stream may thus find a boundary early, and then begins the next event with
bytes of the boundary, or with an empty event. `Segmenter` reads the events one byte at a time, up
to such bytes, so what it reads cannot depend on the chunks. A chunk adds to the screened events
what the segmenter reads in it, which is the invariant of the loop.
-/
namespace Modall.McpAdapter

open Library Library.Regex Security

/-! ## Reading the events byte by byte -/

/-- An event without the line breaks it begins with. -/
def stripBreaks (event : ByteString) : ByteString := event.dropWhile isLineBreak

/-- The events without the empty ones. -/
def proper (events : List ByteString) : List ByteString := (events.map stripBreaks).filter (· ≠ [])

/-- The events that have ended, what has been read of the next one, and the line break behind
it. -/
@[ext]
structure Segmenter where
  events : List ByteString
  line : ByteString
  lineBreak : ByteString

namespace Segmenter

def start : Segmenter := ⟨[], [], []⟩

def feedOne (s : Segmenter) (b : UInt8) : Segmenter :=
  if isLineBreak b then
    if s.line = [] then s
    else if s.lineBreak = [] then { s with lineBreak := [b] }
    else if s.lineBreak = [carriageReturn] ∧ b = lineFeed then { s with lineBreak := s.lineBreak ++ [b] }
    else ⟨s.events ++ [s.line], [], []⟩
  else ⟨s.events, s.line ++ s.lineBreak ++ [b], []⟩

def feed (s : Segmenter) (text : ByteString) : Segmenter := text.foldl feedOne s

lemma feed_append (s : Segmenter) (text more : ByteString) :
    s.feed (text ++ more) = (s.feed text).feed more :=
  List.foldl_append

/-- The segmenter with more events before its own. -/
def behind (events : List ByteString) (s : Segmenter) : Segmenter :=
  { s with events := events ++ s.events }

lemma behind_behind (events more : List ByteString) (s : Segmenter) :
    (s.behind more).behind events = s.behind (events ++ more) := by
  simp [behind]

/-- The events that have ended are never looked at again. -/
lemma feed_behind (events : List ByteString) (s : Segmenter) (text : ByteString) :
    (s.behind events).feed text = (s.feed text).behind events := by
  induction text generalizing s with
  | nil => rfl
  | cons b rest ih =>
    have hone : (s.behind events).feedOne b = (s.feedOne b).behind events := by
      by_cases hb : isLineBreak b = true
      · by_cases hline : s.line = []
        · simp [feedOne, behind, hb, hline]
        · by_cases hfirst : s.lineBreak = []
          · simp [feedOne, behind, hb, hline, hfirst]
          · by_cases hcrlf : s.lineBreak = [carriageReturn] ∧ b = lineFeed
            · obtain ⟨hcr, rfl⟩ := hcrlf
              simp [feedOne, behind, hb, hline, hcr]
            · simp [feedOne, behind, hb, hline, hfirst, hcrlf]
      · simp [feedOne, behind, hb]
    simp only [feed, List.foldl_cons] at ih ⊢
    rw [hone, ih]

lemma feed_cons (s : Segmenter) (b : UInt8) (rest : ByteString) :
    s.feed (b :: rest) = (s.feedOne b).feed rest := rfl

section
variable (events : List ByteString) {line : ByteString}

/-- Line breaks in front of an event are left out. -/
lemma feed_breaks {read : ByteString} (h : ∀ b ∈ read, isLineBreak b = true) (rest : ByteString) :
    feed ⟨events, [], []⟩ (read ++ rest) = feed ⟨events, [], []⟩ rest := by
  induction read with
  | nil => rfl
  | cons b read ih =>
    obtain ⟨hb, hread⟩ := List.forall_mem_cons.1 h
    rw [List.cons_append, feed_cons, feedOne, if_pos hb, if_pos rfl]
    exact ih hread

/-- A byte of an event. -/
lemma feed_content {b : UInt8} (h : isLineBreak b = false) (line lineBreak rest : ByteString) :
    feed ⟨events, line, lineBreak⟩ (b :: rest) =
      feed ⟨events, line ++ lineBreak ++ [b], []⟩ rest := by
  rw [feed_cons, feedOne, if_neg (by simp [h])]

/-- The first line break behind the bytes of an event. -/
lemma feed_firstBreak (hline : line ≠ []) {text rest : ByteString}
    (h : behindBreak false text = some rest) :
    ∃ read, Broken text rest read ∧ (read = [carriageReturn] → rest.head? ≠ some lineFeed) ∧
      feed ⟨events, line, []⟩ text = feed ⟨events, line, read⟩ rest := by
  have hne : lineFeed ≠ carriageReturn := by decide
  obtain rfl | ⟨rfl, hwhole⟩ | ⟨rfl, -⟩ := behindBreak_cases h
  · refine ⟨[carriageReturn, lineFeed], ⟨rfl, by simp [isLineBreak], by simp, fun _ => by decide⟩, by simp, ?_⟩
    simp [feed_cons, feedOne, isLineBreak, hline]
  · refine ⟨[carriageReturn], ⟨rfl, by simp [isLineBreak], by simp, fun hlf => absurd hlf hwhole⟩,
      fun _ => hwhole, ?_⟩
    simp [feed_cons, feedOne, isLineBreak, hline]
  · refine ⟨[lineFeed], ⟨rfl, by simp [isLineBreak], by simp, fun _ => by decide⟩, by simp [hne], ?_⟩
    simp [feed_cons, feedOne, isLineBreak, hline]

/-- The second one ends the event. -/
lemma feed_secondBreak (hline : line ≠ []) {read : ByteString} (hread : read ≠ [])
    {text rest : ByteString} (h : behindBreak false text = some rest)
    (hwhole : read = [carriageReturn] → text.head? ≠ some lineFeed) :
    feed ⟨events, line, read⟩ text = feed ⟨events ++ [line], [], []⟩ rest := by
  have hne : carriageReturn ≠ lineFeed := by decide
  have hends : ∀ b, isLineBreak b = true → ¬(read = [carriageReturn] ∧ b = lineFeed) →
      feedOne ⟨events, line, read⟩ b = ⟨events ++ [line], [], []⟩ := by
    intro b hb hnot
    simp [feedOne, hb, hline, hread, hnot]
  obtain rfl | ⟨rfl, -⟩ | ⟨rfl, -⟩ := behindBreak_cases h
  · rw [List.cons_append, feed_cons, hends carriageReturn (by decide) (by simp [hne])]
    exact feed_breaks _ (by simp [isLineBreak]) rest
  · rw [List.cons_append, feed_cons, hends carriageReturn (by decide) (by simp [hne])]
    rfl
  · rw [List.cons_append, feed_cons, hends lineFeed (by decide) fun hnot => hwhole hnot.1 rfl]
    rfl

end

/-- The segmenter, of which `line` is the unfinished event, reads in the text what a search for a
boundary finds. -/
structure Reads (s : Segmenter) (line text : ByteString) : Prop where
  ended : ∀ before after, cut false text = some (before, after) →
    s.feed text = feed ⟨s.events ++ [line ++ before], [], []⟩ after
  unended : cut false text = none → ∃ line' lineBreak,
    s.feed text = ⟨s.events, line', lineBreak⟩ ∧ line' ++ lineBreak = line ++ text

/-- The event may first go on with `front`. -/
lemma Reads.front {s s' : Segmenter} {line front rest : ByteString}
    (h : s'.Reads (line ++ front) rest) (hevents : s'.events = s.events)
    (hfeed : s.feed (front ++ rest) = s'.feed rest)
    (hcut : cut false (front ++ rest) =
      (cut false rest).map fun (before, after) => (front ++ before, after)) :
    s.Reads line (front ++ rest) := by
  refine ⟨?_, ?_⟩
  · intro before after hsome
    rw [hcut] at hsome
    obtain ⟨⟨before', after'⟩, hrest, heq⟩ := Option.map_eq_some_iff.1 hsome
    cases heq
    rw [hfeed, h.ended before' after hrest, hevents, List.append_assoc]
  · intro hnone
    rw [hcut, Option.map_eq_none_iff] at hnone
    obtain ⟨line', lineBreak, hread, hline⟩ := h.unended hnone
    exact ⟨line', lineBreak, by rw [hfeed, hread, hevents], by rw [hline, List.append_assoc]⟩

/-- Behind the first bytes of an event; by induction on the bytes to come. -/
lemma reads_line (events : List ByteString) {line : ByteString} (hline : line ≠ [])
    (text : ByteString) : Reads ⟨events, line, []⟩ line text := by
  induction hn : text.length using Nat.strong_induction_on generalizing line text with
  | _ n ih =>
  subst hn
  cases text with
  | nil => exact ⟨(fun _ _ h => by cases h), fun _ => ⟨line, [], rfl, rfl⟩⟩
  | cons b rest =>
    cases hbreak : behindBreak false (b :: rest) with
    | none =>
      have hb := content_of_behindBreak hbreak
      have hline' : line ++ [b] ≠ [] := by simp
      have hrest := ih rest.length (by simp) hline' rest rfl
      refine hrest.front rfl ?_ (cut_content hb rest)
      rw [List.singleton_append, feed_content events hb, List.append_nil]
    | some behind =>
      obtain ⟨read, hread, hwhole, hfirst⟩ := feed_firstBreak events hline hbreak
      cases hsecond : behindBreak false behind with
      | some after =>
        have hcut : cut false (b :: rest) = some ([], after) := by
          rw [cut, behindBoundary, hbreak, Option.bind_some, hsecond]
        refine ⟨?_, fun hnone => by simp [hcut] at hnone⟩
        intro before after' hsome
        rw [hcut] at hsome
        cases hsome
        rw [hfirst, feed_secondBreak events hline hread.ne_nil hsecond hwhole, List.append_nil]
      | none =>
        cases behind with
        | nil =>
          have hcut : cut false (b :: rest) = none := by
            rw [cut_loneBreak hbreak hread.split hsecond]
            rfl
          refine ⟨fun _ _ h => by simp [hcut] at h, fun _ => ⟨line, read, hfirst, ?_⟩⟩
          rw [hread.split, List.append_nil]
        | cons d rest' =>
          have hd := content_of_behindBreak hsecond
          have hlength : rest'.length < (b :: rest).length := by
            rw [hread.split]
            simp
            omega
          have hline' : line ++ (read ++ [d]) ≠ [] := by simp
          have hrest := ih rest'.length hlength hline' rest' rfl
          have hsplit : b :: rest = (read ++ [d]) ++ rest' := by simp [hread.split]
          have hfeed := hfirst.trans (feed_content events hd line read rest')
          have hcut := cut_loneBreak hbreak hread.split hsecond
          rw [cut_content hd, Option.map_map] at hcut
          rw [hsplit] at hfeed hcut ⊢
          refine hrest.front rfl (by rw [hfeed, List.append_assoc]) ?_
          rw [hcut]
          simp [Function.comp_def]

/-- At the front of an event; by induction on the line breaks there. -/
lemma feed_cut (events : List ByteString) (cr : Bool) (text : ByteString) :
    (∀ before after, cut cr text = some (before, after) →
      feed ⟨events, [], []⟩ text = feed ⟨events ++ proper [before], [], []⟩ after) ∧
    (cut cr text = none → ∃ line lineBreak,
      feed ⟨events, [], []⟩ text = ⟨events, line, lineBreak⟩ ∧
        line ++ lineBreak = stripBreaks text) := by
  induction text generalizing cr with
  | nil => exact ⟨(fun _ _ h => by cases h), fun _ => ⟨[], [], rfl, rfl⟩⟩
  | cons b rest ih =>
    cases hb : isLineBreak b with
    | false =>
      have hline := reads_line events (List.cons_ne_nil b []) rest
      have hstrip : ∀ tail, stripBreaks (b :: tail) = b :: tail := by
        intro tail
        rw [stripBreaks, List.dropWhile_cons_of_neg (by simp [hb])]
      rw [cut_content hb, feed_content events hb, hstrip]
      refine ⟨?_, ?_⟩
      · intro before after hsome
        obtain ⟨⟨before', after'⟩, hrest, heq⟩ := Option.map_eq_some_iff.1 hsome
        cases heq
        have hended := hline.ended before' _ hrest
        simpa [proper, hstrip] using hended
      · intro hnone
        exact hline.unended (by simpa using hnone)
    | true =>
      have hskip : ∀ text, feed ⟨events, [], []⟩ (b :: text) = feed ⟨events, [], []⟩ text :=
        @feed_breaks events [b] (by simpa using hb)
      have hstrip : ∀ tail, stripBreaks (b :: tail) = stripBreaks tail := by
        intro tail
        rw [stripBreaks, List.dropWhile_cons_of_pos hb]
        rfl
      obtain ⟨hsome, hnone⟩ := ih (b == carriageReturn)
      cases hboundary : behindBoundary cr (b :: rest) with
      | some behind =>
        obtain ⟨read, hread⟩ := broken_of_behindBoundary hboundary
        rw [cut, hboundary]
        refine ⟨?_, fun h => by cases h⟩
        intro before after heq
        cases heq
        rw [hread.split, feed_breaks events hread.breaks]
        simp [proper, stripBreaks]
      | none =>
        rw [cut_cons hboundary, hskip, hstrip]
        refine ⟨?_, fun h => hnone (by simpa using h)⟩
        intro before after h
        obtain ⟨⟨before', after'⟩, hrest, heq⟩ := Option.map_eq_some_iff.1 h
        cases heq
        have hproper : proper [b :: before'] = proper [before'] := by simp [proper, hstrip]
        rw [hproper]
        exact hsome before' _ hrest

/-- The events of one buffer and what is left behind them, as the loop finds them. -/
def segments : Nat → ByteString → List ByteString × ByteString
  | 0, text => ([], text)
  | fuel + 1, text =>
    match cut false text with
    | none => ([], text)
    | some (before, after) => (before :: (segments fuel after).1, (segments fuel after).2)

lemma length_of_cut {cr : Bool} {text before after : ByteString}
    (h : cut cr text = some (before, after)) : after.length < text.length := by
  obtain ⟨read, hsplit, hread⟩ := broken_of_cut h
  have := List.length_pos_of_ne_nil hread.ne_nil
  rw [hsplit]
  simp
  omega

lemma proper_append (events more : List ByteString) :
    proper (events ++ more) = proper events ++ proper more := by
  rw [proper, List.map_append, List.filter_append]
  rfl

/-- The segmenter reads the events that the loop finds, and no boundary is left. -/
lemma feed_segments {fuel : Nat} {text : ByteString} (hfuel : text.length ≤ fuel) :
    start.feed text = (start.feed (segments fuel text).2).behind (proper (segments fuel text).1) ∧
      cut false (segments fuel text).2 = none := by
  induction fuel generalizing text with
  | zero =>
    obtain rfl := List.length_eq_zero_iff.1 (Nat.le_zero.1 hfuel)
    exact ⟨rfl, rfl⟩
  | succ fuel ih =>
    rw [segments]
    cases hcut : cut false text with
    | none => exact ⟨rfl, hcut⟩
    | some found =>
      obtain ⟨before, after⟩ := found
      have hlength := length_of_cut hcut
      have hfuel' : after.length ≤ fuel := by omega
      obtain ⟨hfeed, hnone⟩ := ih hfuel'
      refine ⟨?_, hnone⟩
      have hfirst : start.feed text = (start.behind (proper [before])).feed after := by
        refine ((feed_cut [] false text).1 before after hcut).trans ?_
        rw [behind, start, List.append_nil, List.nil_append]
      rw [hfirst, feed_behind, hfeed, behind_behind, ← proper_append, List.singleton_append]

end Segmenter

/-! ## What the screens make of line breaks in front of an event -/

namespace Interpreter
variable (I : Interpreter)

lemma toNat_of_isLineBreak {b : UInt8} (h : isLineBreak b = true) :
    b.toNat = 0x0a ∨ b.toNat = 0x0d := by
  rw [isLineBreak, Bool.or_eq_true, beq_iff_eq, beq_iff_eq] at h
  obtain rfl | rfl := h
  · exact .inr rfl
  · exact .inl rfl

lemma dataLines_empty (lines : List Text) : dataLines ([] :: lines) = dataLines lines := rfl

lemma containsSensitiveJsonText_empty : I.containsSensitiveJsonText [] = .ok false := by
  have hmembers : I.containsSensitiveMembers [] = .ok false := by
    obtain ⟨floatText, nesting⟩ := I
    cases nesting <;> rfl
  rw [containsSensitiveJsonText, hmembers]
  rfl

lemma containsSensitiveLines_empty (lines : List Text) :
    I.containsSensitiveLines ([] :: lines) = I.containsSensitiveLines lines := by
  simp only [containsSensitiveLines, List.map_cons, Screen.any, I.containsSensitiveJsonText_empty,
    dataLines_empty]
  rfl

lemma containsSensitiveSseEvent_cons {b : UInt8} (h : isLineBreak b = true) (event : ByteString) :
    I.containsSensitiveSseEvent (b :: event) = I.containsSensitiveSseEvent event := by
  have hchar := toNat_of_isLineBreak h
  rw [containsSensitiveSseEvent, containsSensitiveSseEvent, decodeStrict_cons (by omega)]
  cases decodeStrict event with
  | none => rfl
  | some text =>
    simp only [Option.map_some, containsObviousSecret_cons hchar]
    obtain hlines | hlines := Text.splitlines_cons hchar text
    · rw [hlines, containsSensitiveLines_empty]
    · rw [hlines]

lemma sseJsonrpcResponse_cons {b : UInt8} (h : isLineBreak b = true) (expected : ExpectedId)
    (event : ByteString) :
    I.sseJsonrpcResponse expected (b :: event) = I.sseJsonrpcResponse expected event := by
  have hchar := toNat_of_isLineBreak h
  rw [sseJsonrpcResponse, sseJsonrpcResponse, decodeIgnore_cons (by omega)]
  obtain hlines | hlines := Text.splitlines_cons hchar (decodeIgnore event)
  · rw [hlines, dataLines_empty]
  · rw [hlines]

lemma containsSensitiveSseEvent_stripBreaks (event : ByteString) :
    I.containsSensitiveSseEvent (stripBreaks event) = I.containsSensitiveSseEvent event := by
  induction event with
  | nil => rfl
  | cons b event ih =>
    rw [stripBreaks, List.dropWhile_cons]
    split
    case isTrue hb => rw [I.containsSensitiveSseEvent_cons hb, ← ih, stripBreaks]
    · rfl

lemma sseJsonrpcResponse_stripBreaks (expected : ExpectedId) (event : ByteString) :
    I.sseJsonrpcResponse expected (stripBreaks event) = I.sseJsonrpcResponse expected event := by
  induction event with
  | nil => rfl
  | cons b event ih =>
    rw [stripBreaks, List.dropWhile_cons]
    split
    case isTrue hb => rw [I.sseJsonrpcResponse_cons hb, ← ih, stripBreaks]
    · rfl

lemma containsSensitiveSseEvent_nil : I.containsSensitiveSseEvent [] = .ok false :=
  rfl

lemma sseJsonrpcResponse_nil (expected : ExpectedId) :
    I.sseJsonrpcResponse expected [] = .ok (false, false) := rfl

end Interpreter

/-! ## The loop over the events -/

namespace Response
variable (r : Response)

/-- What the event is as an answer to the request. -/
def answer (event : ByteString) : Bool × Bool :=
  match r.interpreter.sseJsonrpcResponse r.expectedId event with
  | .ok response => response
  | .error _ => (false, false)

/-- No screen rejects the event. -/
def Passes (event : ByteString) : Prop :=
  r.interpreter.sseJsonrpcResponse r.expectedId event = .ok (r.answer event) ∧
    r.interpreter.containsSensitiveSseEvent event = .ok false

lemma answer_stripBreaks (event : ByteString) : r.answer (stripBreaks event) = r.answer event := by
  rw [answer, answer, Interpreter.sseJsonrpcResponse_stripBreaks]

lemma passes_stripBreaks {event : ByteString} : r.Passes (stripBreaks event) ↔ r.Passes event := by
  rw [Passes, Passes, answer_stripBreaks, Interpreter.sseJsonrpcResponse_stripBreaks,
    Interpreter.containsSensitiveSseEvent_stripBreaks]

lemma passes_nil : r.Passes [] := ⟨rfl, rfl⟩

/-- An event passes if it does without the line breaks, of which an empty event is made. -/
lemma forall_passes_iff {events : List ByteString} :
    (∀ e ∈ events, r.Passes e) ↔ ∀ e ∈ proper events, r.Passes e := by
  refine ⟨fun h e he => ?_, fun h e he => ?_⟩
  · obtain ⟨e', he', rfl⟩ := List.mem_map.1 (List.mem_of_mem_filter he)
    exact r.passes_stripBreaks.2 (h e' he')
  · rw [← r.passes_stripBreaks]
    by_cases hempty : stripBreaks e = []
    · rw [hempty]
      exact r.passes_nil
    · exact h _ (List.mem_filter.2 ⟨List.mem_map_of_mem he, by simpa using hempty⟩)

/-- Empty events answer nothing. -/
lemma any_answer (test : Bool × Bool → Bool) (htest : test (false, false) = false)
    (events : List ByteString) :
    events.any (fun e => test (r.answer e)) =
      (proper events).any fun e => test (r.answer e) := by
  induction events with
  | nil => rfl
  | cons e events ih =>
    have hsplit : proper (e :: events) = proper [e] ++ proper events :=
      Segmenter.proper_append [e] events
    rw [List.any_cons, hsplit, List.any_append, ← ih]
    congr 1
    by_cases hempty : stripBreaks e = []
    · have hanswer : r.answer e = (false, false) := by
        rw [← r.answer_stripBreaks, hempty]
        rfl
      simp [proper, hempty, hanswer, htest]
    · simp [proper, hempty, r.answer_stripBreaks]

/-- What the marks of a stream say about the events it has screened. -/
structure Heard (s : Stream) : Prop where
  complete : s.marks.complete = s.screened.any fun e => (r.answer e).1
  toolFailure : s.marks.toolFailure = s.screened.any fun e => (r.answer e).1 && (r.answer e).2
  marked : s.responseMarked = s.marks.complete
  passes : ∀ e ∈ s.screened, r.Passes e

variable {r} {s t : Stream}

/-- An event goes through when it passes and no earlier chunk held something sensitive. -/
lemma screenEvent_eq_none {event : ByteString} (h : r.screenEvent s event = (t, none)) :
    r.Passes event ∧ s.pendingSensitiveResponse = false := by
  unfold screenEvent at h
  split at h
  · cases h
  case h_2 response hresponse =>
    dsimp only at h
    split at h
    · cases h
    case isFalse hpending =>
      split at h
      · cases h
      · cases h
      case h_3 hscreen =>
        have hmarked : (s.markResponse response).pendingSensitiveResponse =
            s.pendingSensitiveResponse := (s.sameSearch_markResponse response).pendingSensitiveResponse
        refine ⟨⟨?_, hscreen⟩, by simpa [hmarked] using hpending⟩
        rw [answer, hresponse]

lemma markResponse_kept (s : Stream) (response : Bool × Bool) :
    (s.markResponse response).structuredBuffer = s.structuredBuffer ∧
      (s.markResponse response).screened = s.screened ∧
      (s.markResponse response).remaining = s.remaining ∧
      (s.markResponse response).sseScanFrom = s.sseScanFrom := by
  unfold Stream.markResponse Stream.markToolFailure Stream.markCompleteOnce
  split_ifs <;> exact ⟨rfl, rfl, rfl, rfl⟩

/-- The stream with one more screened event. -/
def heard (r : Response) (s : Stream) (event : ByteString) : Stream :=
  { s.markResponse (r.answer event) with screened := s.screened ++ [event] }

lemma screenEvent_of_passes {event : ByteString} (h : r.Passes event)
    (hpending : s.pendingSensitiveResponse = false) :
    r.screenEvent s event = (r.heard s event, none) := by
  have hmarked : (s.markResponse (r.answer event)).pendingSensitiveResponse = false :=
    ((s.sameSearch_markResponse _).pendingSensitiveResponse).trans hpending
  have hscreened : (s.markResponse (r.answer event)).screened = s.screened :=
    (markResponse_kept s _).2.1
  rw [screenEvent, h.1]
  simp only [h.2, hmarked, hscreened, heard]
  rfl

lemma Heard.heard (h : r.Heard s) {event : ByteString} (hpass : r.Passes event) :
    r.Heard (r.heard s event) := by
  obtain ⟨hcomplete, htool, hmarked, hpasses⟩ := h
  have hevents : ∀ e ∈ s.screened ++ [event], r.Passes e := by
    intro e he
    obtain he | he := List.mem_append.1 he
    · exact hpasses e he
    · rwa [List.mem_singleton.1 he]
  refine ⟨?_, ?_, ?_, hevents⟩
  · simp only [Response.heard, List.any_append, ← hcomplete]
    unfold Stream.markResponse Stream.markToolFailure Stream.markCompleteOnce
    split_ifs <;> simp_all
  · simp only [Response.heard, List.any_append, ← htool]
    unfold Stream.markResponse Stream.markToolFailure Stream.markCompleteOnce
    split_ifs <;> simp_all
  · simp only [Response.heard]
    unfold Stream.markResponse Stream.markToolFailure Stream.markCompleteOnce
    split_ifs <;> simp_all

/-- The search for the next event comes to what a search from the end of the last one would. -/
def Synced (s : Stream) (consumed : Nat) : Prop :=
  s.nextEvent consumed = (cut false (s.structuredBuffer.drop consumed)).map
    fun (before, after) => (before, s.structuredBuffer.length - after.length)

/-- The next event, in terms of where the search for it starts. -/
lemma nextEvent_eq {consumed : Nat} (hle : consumed ≤ s.sseScanFrom)
    (hscan : s.sseScanFrom ≤ s.structuredBuffer.length) :
    s.nextEvent consumed =
      (cut (endsCr (s.structuredBuffer.take s.sseScanFrom).reverse)
        (s.structuredBuffer.drop s.sseScanFrom)).map fun (before, after) =>
          ((s.structuredBuffer.take s.sseScanFrom).drop consumed ++ before,
            s.structuredBuffer.length - after.length) := by
  simp only [Stream.nextEvent]
  generalize s.structuredBuffer = buffer at *
  generalize s.sseScanFrom = position at *
  rw [← search_eventBoundary, Option.map_map]
  cases hsearch : search eventBoundary (buffer.take position).reverse (buffer.drop position) with
  | none => rfl
  | some m =>
    have hlength := length_start_of_search hsearch
    rw [List.length_drop] at hlength
    have hsum : buffer.length - m.start.length =
        position + ((buffer.drop position).length - m.start.length) := by
      rw [List.length_drop]
      omega
    simp only [Option.map_some, Function.comp_apply, Option.some.injEq, Prod.mk.injEq, and_true]
    rw [hsum, List.take_add, List.drop_append_of_le_length]
    rw [List.length_take]
    omega

/-- Behind a boundary the search begins where the next event does. -/
lemma synced_of_whole (hscan : s.sseScanFrom ≤ s.structuredBuffer.length)
    (hwhole : (s.structuredBuffer.drop s.sseScanFrom).head? = some lineFeed →
      endsCr (s.structuredBuffer.take s.sseScanFrom).reverse = false) :
    Synced s s.sseScanFrom := by
  have hempty : (s.structuredBuffer.take s.sseScanFrom).drop s.sseScanFrom = [] := by
    apply List.drop_of_length_le
    rw [List.length_take]
    omega
  rw [Synced, nextEvent_eq le_rfl hscan, cut_of_whole hwhole, hempty]
  rfl

/-- With a chunk the search begins three bytes before it, and misses nothing. -/
lemma synced_of_chunk {buffer chunk : ByteString} (hbuffer : s.structuredBuffer = buffer ++ chunk)
    (hscan : s.sseScanFrom = buffer.length - 3) (hnone : cut false buffer = none) :
    Synced s 0 := by
  rw [Synced, nextEvent_eq (Nat.zero_le _) (by rw [hscan, hbuffer, List.length_append]; omega),
    hscan, hbuffer, List.drop_zero, List.drop_zero]
  by_cases hshort : buffer.length < 3
  · rw [Nat.sub_eq_zero_of_le hshort.le]
    rfl
  · have hsplit := List.take_append_drop (buffer.length - 3) buffer
    have hskip := @cut_skip [] (buffer.take (buffer.length - 3)) (buffer.drop (buffer.length - 3))
      (by rw [hsplit]; exact hnone) (by rw [List.length_drop]; omega) chunk
    rw [← List.append_assoc, hsplit, List.append_nil] at hskip
    rw [List.take_append_of_le_length (by omega), List.drop_append_of_le_length (by omega)]
    have hcontext : endsCr [] = false := rfl
    rw [hcontext] at hskip
    rw [hskip, Option.map_map]
    rfl

/-- Where the stream stands in its buffer behind a boundary. -/
lemma whole_of_cut {buffer before after : ByteString} {consumed : Nat}
    (h : cut false (buffer.drop consumed) = some (before, after)) :
    buffer.drop (buffer.length - after.length) = after ∧
      (after.head? = some lineFeed →
        endsCr (buffer.take (buffer.length - after.length)).reverse = false) := by
  obtain ⟨read, hsplit, hread⟩ := broken_of_cut h
  have hbuffer : buffer = (buffer.take consumed ++ before ++ read) ++ after := by
    conv_lhs => rw [← List.take_append_drop consumed buffer, hsplit]
    simp only [List.append_assoc]
  have hlength : buffer.length - after.length =
      (buffer.take consumed ++ before ++ read).length := by
    conv_lhs => rw [hbuffer]
    rw [List.length_append, Nat.add_sub_cancel]
  rw [hlength]
  generalize buffer.take consumed ++ before = front at hbuffer
  rw [hbuffer, List.drop_left, List.take_left]
  refine ⟨rfl, fun hlf => ?_⟩
  have hends := hread.whole hlf
  obtain ⟨init, last, rfl⟩ := (List.eq_nil_or_concat read).resolve_left hread.ne_nil
  simpa [endsCr] using hends

/-- The stream behind some more events that all went through. -/
structure Went (r : Response) (s t : Stream) (events : List ByteString) : Prop where
  heard : r.Heard t
  screened : t.screened = s.screened ++ events
  structuredBuffer : t.structuredBuffer = s.structuredBuffer
  remaining : t.remaining = s.remaining
  sameSearch : s.SameSearch t

/-- One round of the loop. -/
lemma went_heard {consumed : Nat} {before after : ByteString}
    (hcut : cut false (s.structuredBuffer.drop consumed) = some (before, after))
    (hheard : r.Heard s) (hpass : r.Passes before) {t : Stream}
    (ht : t = r.heard { s with sseScanFrom := s.structuredBuffer.length - after.length } before) :
    Went r s t [before] ∧ Synced t (s.structuredBuffer.length - after.length) ∧
      t.structuredBuffer.drop (s.structuredBuffer.length - after.length) = after := by
  obtain ⟨hbuffer, -, hremaining, hscan⟩ := markResponse_kept
    { s with sseScanFrom := s.structuredBuffer.length - after.length } (r.answer before)
  obtain ⟨hdrop, hwhole⟩ := whole_of_cut hcut
  have hmoved : r.Heard { s with sseScanFrom := s.structuredBuffer.length - after.length } :=
    ⟨hheard.1, hheard.2, hheard.3, hheard.4⟩
  have hsame : s.SameSearch
      { s with sseScanFrom := s.structuredBuffer.length - after.length } :=
    ⟨rfl, rfl, rfl, rfl, rfl, id⟩
  have hwent : Went r s t [before] := by
    rw [ht]
    exact ⟨hmoved.heard hpass, rfl, hbuffer, hremaining,
      (hsame.trans (Stream.sameSearch_markResponse _ _)).trans ⟨rfl, rfl, rfl, rfl, rfl, id⟩⟩
  have hscan' : t.sseScanFrom = s.structuredBuffer.length - after.length := by
    rw [ht]
    exact hscan
  refine ⟨hwent, ?_, by rw [hwent.structuredBuffer, hdrop]⟩
  rw [← hscan']
  apply synced_of_whole
  · rw [hscan', hwent.structuredBuffer]
    omega
  · rw [hscan', hwent.structuredBuffer, hdrop]
    exact hwhole

/-- The loop comes through when the events pass and nothing is pending; by induction on the
rounds. -/
lemma screenEvents_of_passes {fuel consumed : Nat} (hsynced : Synced s consumed)
    (hheard : r.Heard s)
    (hpass : ∀ e ∈ (Segmenter.segments fuel (s.structuredBuffer.drop consumed)).1, r.Passes e)
    (hpending : (Segmenter.segments fuel (s.structuredBuffer.drop consumed)).1 ≠ [] →
      s.pendingSensitiveResponse = false) :
    ∃ t consumed', r.screenEvents s consumed fuel = (t, consumed', none) ∧
      Went r s t (Segmenter.segments fuel (s.structuredBuffer.drop consumed)).1 ∧
      s.structuredBuffer.drop consumed' =
        (Segmenter.segments fuel (s.structuredBuffer.drop consumed)).2 := by
  induction fuel generalizing s consumed with
  | zero =>
    exact ⟨s, consumed, rfl, ⟨hheard, (List.append_nil _).symm, rfl, rfl, .refl s⟩, rfl⟩
  | succ fuel ih =>
    rw [Segmenter.segments] at hpass hpending ⊢
    rw [screenEvents, hsynced]
    cases hcut : cut false (s.structuredBuffer.drop consumed) with
    | none =>
      exact ⟨s, consumed, rfl, ⟨hheard, (List.append_nil _).symm, rfl, rfl, .refl s⟩, rfl⟩
    | some found =>
      obtain ⟨before, after⟩ := found
      simp only [hcut] at hpass hpending
      obtain ⟨hbefore, hafter⟩ := List.forall_mem_cons.1 hpass
      have hidle : s.pendingSensitiveResponse = false := hpending (by simp)
      simp only [Option.map_some]
      rw [screenEvent_of_passes hbefore (by exact hidle)]
      generalize hheard' : r.heard _ before = s'
      obtain ⟨hwent, hsynced', hdrop⟩ := went_heard hcut hheard hbefore hheard'.symm
      obtain ⟨t, consumed', hrun, hrest, hleft⟩ := ih hsynced' hwent.heard
        (by rwa [hdrop]) (fun _ => hwent.sameSearch.pendingSensitiveResponse.trans hidle)
      rw [hdrop] at hrest hleft
      rw [hwent.structuredBuffer] at hleft
      refine ⟨t, consumed', hrun, ⟨hrest.heard, ?_, ?_, ?_, ?_⟩, hleft⟩
      · rw [hrest.screened, hwent.screened, List.append_assoc]
        rfl
      · rw [hrest.structuredBuffer, hwent.structuredBuffer]
      · rw [hrest.remaining, hwent.remaining]
      · exact hwent.sameSearch.trans hrest.sameSearch

/-- The loop comes through only so. -/
lemma passes_of_screenEvents {fuel consumed consumed' : Nat} (hsynced : Synced s consumed)
    (hheard : r.Heard s) (h : r.screenEvents s consumed fuel = (t, consumed', none)) :
    (∀ e ∈ (Segmenter.segments fuel (s.structuredBuffer.drop consumed)).1, r.Passes e) ∧
      ((Segmenter.segments fuel (s.structuredBuffer.drop consumed)).1 ≠ [] →
        s.pendingSensitiveResponse = false) := by
  induction fuel generalizing s consumed with
  | zero => simp [Segmenter.segments]
  | succ fuel ih =>
    rw [screenEvents, hsynced] at h
    rw [Segmenter.segments]
    cases hcut : cut false (s.structuredBuffer.drop consumed) with
    | none => simp
    | some found =>
      obtain ⟨before, after⟩ := found
      simp only [hcut, Option.map_some] at h ⊢
      rcases hscreen : r.screenEvent
          { s with sseScanFrom := s.structuredBuffer.length - after.length } before with
        ⟨s', _ | e⟩
      case some =>
        rw [hscreen] at h
        cases h
      case none =>
        obtain ⟨hbefore, hidle⟩ := screenEvent_eq_none hscreen
        rw [hscreen] at h
        rw [screenEvent_of_passes hbefore hidle] at hscreen
        obtain ⟨hwent, hsynced', hdrop⟩ :=
          went_heard hcut hheard hbefore (Prod.mk.inj hscreen).1.symm
        obtain ⟨hrest, -⟩ := ih hsynced' hwent.heard h
        rw [hdrop] at hrest
        exact ⟨List.forall_mem_cons.2 ⟨hbefore, hrest⟩, fun _ => hidle⟩

/-! ## Chunks -/

/-- Receiving the chunks one after another. -/
def receiveAll (r : Response) (s : Stream) : List ByteString → Stream × Option Raised
  | [] => (s, none)
  | chunk :: chunks =>
    match r.receive s chunk with
    | (s, .error e) => (s, some e)
    | (s, .ok _) => receiveAll r s chunks

/-- An iteration that comes to the end of the chunks has received them all. -/
lemma final_iterate {chunks : List ByteString} (h : r.receiveAll s chunks = (t, none)) :
    (r.iterate s chunks).final = (r.finish t).1 := by
  induction chunks generalizing s with
  | nil =>
    obtain rfl : s = t := (Prod.mk.inj h).1
    rw [iterate]
    rcases r.finish s with ⟨_, _ | _ | _⟩ <;> rfl
  | cons chunk chunks ih =>
    rw [receiveAll] at h
    rw [iterate]
    rcases hstep : r.receive s chunk with ⟨s', e | _ | _⟩
    · rw [hstep] at h
      cases h
    · rw [hstep] at h
      exact ih h
    · rw [hstep] at h
      exact ih h

/-- What the stream has screened and what it keeps are what the segmenter reads. -/
structure Segmented (r : Response) (budget : Nat) (received : ByteString) (s : Stream) : Prop where
  heard : r.Heard s
  reads : Segmenter.start.feed received =
    (Segmenter.start.feed s.structuredBuffer).behind (proper s.screened)
  unended : cut false s.structuredBuffer = none
  scanFrom : s.sseScanFrom = s.structuredBuffer.length - 3
  remaining : s.remaining = budget - received.length
  charged : 0 ≤ s.remaining

lemma segmented_start (r : Response) (budget : Nat) : Segmented r budget [] (r.start budget) :=
  ⟨⟨rfl, rfl, rfl, nofun⟩, rfl, rfl, rfl, by simp [Response.start], by simp [Response.start]⟩

lemma Segmented.searchChunk {budget : Nat} {received : ByteString}
    (h : Segmented r budget received s) (chunk decoded window : ByteString) :
    Segmented r budget received (s.searchChunk chunk decoded window) ∧
      (s.searchChunk chunk decoded window).screened = s.screened := by
  obtain ⟨sensitive, pendingSensitive, raw, matcher, hsearch⟩ :=
    s.searchChunk_eq chunk decoded window
  obtain ⟨⟨hcomplete, htool, hmarked, hpasses⟩, hreads, hunended, hscan, hremaining, hcharged⟩ := h
  rw [hsearch]
  exact ⟨⟨⟨hcomplete, htool, hmarked, hpasses⟩, hreads, hunended, hscan, hremaining, hcharged⟩, rfl⟩

/-- The events that a chunk completes, and what is left behind them. -/
def completed (s : Stream) (chunk : ByteString) : List ByteString × ByteString :=
  Segmenter.segments (s.structuredBuffer ++ chunk).length (s.structuredBuffer ++ chunk)

section receive
variable {budget : Nat} {received chunk : ByteString}

lemma Segmented.synced (h : Segmented r budget received s) (chunk : ByteString) :
    Synced ((s.charge chunk).keep chunk) 0 ∧ r.Heard ((s.charge chunk).keep chunk) :=
  ⟨synced_of_chunk rfl h.scanFrom h.unended, h.heard.1, h.heard.2, h.heard.3, h.heard.4⟩

/-- The stream behind the loop. -/
def settled (s : Stream) (consumed : Nat) : Stream :=
  { s with
    structuredBuffer := s.structuredBuffer.drop consumed
    sseScanFrom := (s.structuredBuffer.drop consumed).length - 3 }

lemma screenCompletedSseEvents_eq {consumed : Nat}
    (h : r.screenEvents s 0 s.structuredBuffer.length = (t, consumed, none)) :
    r.screenCompletedSseEvents s = (settled t consumed, none) := by
  rw [screenCompletedSseEvents, h]
  rfl

/-- The loop over the events of a chunk leaves the stream where the segmenter stands. -/
lemma Segmented.settled (h : Segmented r budget received s)
    (hcharged : 0 ≤ s.remaining - chunk.length) {consumed : Nat}
    (hwent : Went r ((s.charge chunk).keep chunk) t (completed s chunk).1)
    (hleft : (s.structuredBuffer ++ chunk).drop consumed = (completed s chunk).2) :
    Segmented r budget (received ++ chunk) (settled t consumed) := by
  obtain ⟨hfeed, hunended⟩ := Segmenter.feed_segments
    (le_refl (s.structuredBuffer ++ chunk).length)
  have hbuffer : t.structuredBuffer.drop consumed = (completed s chunk).2 := by
    rw [hwent.structuredBuffer]
    exact hleft
  have hscreened : t.screened = s.screened ++ (completed s chunk).1 := hwent.screened
  have hremaining : t.remaining = s.remaining - chunk.length := hwent.remaining
  have hheard := hwent.heard
  refine ⟨⟨hheard.1, hheard.2, hheard.3, hheard.4⟩, ?_, ?_, rfl, ?_, ?_⟩
  · calc Segmenter.start.feed (received ++ chunk)
        = (Segmenter.start.feed (s.structuredBuffer ++ chunk)).behind (proper s.screened) := by
          rw [Segmenter.feed_append, h.reads, Segmenter.feed_behind, ← Segmenter.feed_append]
      _ = (Segmenter.start.feed (completed s chunk).2).behind
          (proper (s.screened ++ (completed s chunk).1)) := by
        rw [hfeed, Segmenter.behind_behind, ← Segmenter.proper_append]
        rfl
      _ = _ := by
        rw [← hbuffer, ← hscreened]
        rfl
  · rw [Response.settled, hbuffer]
    exact hunended
  · refine hremaining.trans ?_
    rw [h.remaining, List.length_append]
    push_cast
    omega
  · exact hremaining ▸ hcharged

/-- A chunk goes through when the events it completes do. -/
lemma Segmented.receive (h : Segmented r budget received s) (hstream : r.bufferJsonDocument = false)
    (hcharged : 0 ≤ s.remaining - chunk.length) (hpass : ∀ e ∈ (completed s chunk).1, r.Passes e)
    (hpending : (completed s chunk).1 ≠ [] → s.pendingSensitiveResponse = false) :
    ∃ t, r.receive s chunk = (t, .ok (some chunk)) ∧ Segmented r budget (received ++ chunk) t ∧
      t.screened = s.screened ++ (completed s chunk).1 := by
  obtain ⟨hsynced, hheard⟩ := h.synced chunk
  obtain ⟨u, consumed, hrun, hwent, hleft⟩ :=
    @screenEvents_of_passes _ _ (s.structuredBuffer ++ chunk).length _ hsynced hheard hpass hpending
  obtain ⟨hsegmented, hscreened⟩ := (h.settled hcharged hwent hleft).searchChunk chunk
    (s.decoded chunk) (s.genericWindow chunk)
  refine ⟨_, ?_, hsegmented, hscreened.trans hwent.screened⟩
  have hcharge : ¬(s.charge chunk).remaining < 0 := by
    simp only [Stream.charge]
    omega
  rw [Response.receive, if_neg hcharge, if_neg (by simp [hstream]),
    screenCompletedSseEvents_eq hrun]

/-- It goes through only then. -/
lemma Segmented.passes (h : Segmented r budget received s) (hstream : r.bufferJsonDocument = false)
    {yielded : Option ByteString} (hreceive : r.receive s chunk = (t, .ok yielded)) :
    0 ≤ s.remaining - chunk.length ∧ (∀ e ∈ (completed s chunk).1, r.Passes e) ∧
      ((completed s chunk).1 ≠ [] → s.pendingSensitiveResponse = false) := by
  obtain ⟨hsynced, hheard⟩ := h.synced chunk
  simp only [Response.receive, hstream, Bool.false_eq_true, if_false] at hreceive
  split at hreceive
  · cases hreceive
  case isFalse hcharged =>
    refine ⟨not_lt.1 hcharged, ?_⟩
    rw [screenCompletedSseEvents] at hreceive
    rcases hrun : r.screenEvents ((s.charge chunk).keep chunk) 0
        ((s.charge chunk).keep chunk).structuredBuffer.length with ⟨u, consumed, _ | e⟩
    · exact passes_of_screenEvents hsynced hheard hrun
    · rw [hrun] at hreceive
      cases hreceive

end receive

/-- The invariant of a run that no screen stops. -/
lemma segmented_receiveAll {budget : Nat} {received : ByteString} {chunks : List ByteString}
    (hstream : r.bufferJsonDocument = false) (h : Segmented r budget received s)
    (hrun : r.receiveAll s chunks = (t, none)) :
    Segmented r budget (received ++ chunks.flatten) t := by
  induction chunks generalizing s received with
  | nil =>
    obtain rfl := (Prod.mk.inj hrun).1
    simpa using h
  | cons chunk chunks ih =>
    rw [receiveAll] at hrun
    match hstep : r.receive s chunk with
    | (s', .error e) =>
      rw [hstep] at hrun
      cases hrun
    | (s', .ok yielded) =>
      rw [hstep] at hrun
      obtain ⟨hcharged, hpass, hpending⟩ := h.passes hstream hstep
      obtain ⟨u, hreceive, hsegmented, -⟩ := h.receive hstream hcharged hpass hpending
      rw [hstep] at hreceive
      obtain rfl := (Prod.mk.inj hreceive).1
      rw [List.flatten_cons, ← List.append_assoc]
      exact ih hsegmented hrun

/-- The whole of it as one chunk goes through when it does in chunks: the events are the same, and
nothing can be pending before the first chunk. -/
lemma receive_whole {budget : Nat} {received : ByteString} (hstream : r.bufferJsonDocument = false)
    (h : Segmented r budget received s) :
    ∃ t, r.receiveAll (r.start budget) [received] = (t, none) ∧ Segmented r budget received t := by
  have hstart := segmented_start r budget
  obtain ⟨hfeed, hunended⟩ := Segmenter.feed_segments (le_refl received.length)
  obtain ⟨line, lineBreak, hleft, -⟩ := (Segmenter.feed_cut [] false _).2 hunended
  obtain ⟨line', lineBreak', hleft', -⟩ := (Segmenter.feed_cut [] false _).2 h.unended
  have hevents : proper (completed (r.start budget) received).1 = proper s.screened := by
    have heq := congrArg Segmenter.events (hfeed.symm.trans h.reads)
    rw [Segmenter.start, hleft, hleft'] at heq
    have hwhole : completed (r.start budget) received =
      Segmenter.segments received.length received := rfl
    simpa [hwhole, Segmenter.behind] using heq
  have hpass : ∀ e ∈ (completed (r.start budget) received).1, r.Passes e := by
    rw [r.forall_passes_iff, hevents, ← r.forall_passes_iff]
    exact h.heard.passes
  have hcharged : 0 ≤ (r.start budget).remaining - received.length := h.remaining ▸ h.charged
  obtain ⟨t, hreceive, hsegmented, -⟩ := hstart.receive hstream hcharged hpass fun _ => rfl
  refine ⟨t, ?_, hsegmented⟩
  rw [receiveAll, hreceive]
  rfl

end Response

/-- However an event stream is cut into chunks: when no screen rejects it, none rejects it as one
chunk, and the events that were screened, the rest in the buffer and the marks of the answer are
the same, up to empty events and to line breaks in front of an event, to which no screen responds. -/
theorem segments_of_chunks (r : Response) (hstream : r.bufferJsonDocument = false) (budget : Nat)
    (chunks : List ByteString) (s : Stream)
    (hrun : r.receiveAll (r.start budget) chunks = (s, none)) :
    ∃ t, r.receiveAll (r.start budget) [chunks.flatten] = (t, none) ∧
      proper s.screened = proper t.screened ∧
      stripBreaks s.structuredBuffer = stripBreaks t.structuredBuffer ∧
      s.marks.complete = t.marks.complete ∧ s.marks.toolFailure = t.marks.toolFailure ∧
      ∀ event, r.interpreter.containsSensitiveSseEvent (stripBreaks event) =
        r.interpreter.containsSensitiveSseEvent event := by
  have hs := Response.segmented_receiveAll hstream (Response.segmented_start r budget) hrun
  rw [List.nil_append] at hs
  obtain ⟨t, hwhole, ht⟩ := Response.receive_whole hstream hs
  obtain ⟨line, lineBreak, hleft, hline⟩ := (Segmenter.feed_cut [] false _).2 hs.unended
  obtain ⟨line', lineBreak', hleft', hline'⟩ := (Segmenter.feed_cut [] false _).2 ht.unended
  have heq := hs.reads.symm.trans ht.reads
  rw [Segmenter.start, hleft, hleft', Segmenter.behind, Segmenter.behind, List.append_nil,
    List.append_nil] at heq
  obtain ⟨hevents, rfl, rfl⟩ := Segmenter.mk.inj heq
  refine ⟨t, hwhole, hevents, hline.symm.trans hline', ?_, ?_,
    r.interpreter.containsSensitiveSseEvent_stripBreaks⟩
  · rw [hs.heard.complete, ht.heard.complete, r.any_answer (·.1) rfl, hevents,
      ← r.any_answer (·.1) rfl]
  · rw [hs.heard.toolFailure, ht.heard.toolFailure, r.any_answer (fun a => a.1 && a.2) rfl, hevents,
      ← r.any_answer (fun a => a.1 && a.2) rfl]

/-- An event stream for a request whatever its identifier. -/
def plainStream : Response := ⟨⟨id, 100⟩, [], fun _ => true, true, 200⟩

/-- A chunk that ends inside the boundary finds a shorter one. -/
theorem segments_of_chunks_crlf :
    ∃ s t, plainStream.receiveAll (plainStream.start (100 : Nat))
        [ascii "data: 1\r\n\r", ascii "\ndata: 2\n"] = (s, none) ∧
      plainStream.receiveAll (plainStream.start (100 : Nat))
        [[ascii "data: 1\r\n\r", ascii "\ndata: 2\n"].flatten] = (t, none) ∧
      proper s.screened = proper t.screened ∧
      stripBreaks s.structuredBuffer = stripBreaks t.structuredBuffer ∧
      s.marks.complete = t.marks.complete ∧ s.marks.toolFailure = t.marks.toolFailure ∧
      ∀ event, plainStream.interpreter.containsSensitiveSseEvent (stripBreaks event) =
        plainStream.interpreter.containsSensitiveSseEvent event := by
  have hraised : (plainStream.receiveAll (plainStream.start (100 : Nat))
      [ascii "data: 1\r\n\r", ascii "\ndata: 2\n"]).2 = none := by decide +kernel
  generalize hrun : plainStream.receiveAll (plainStream.start (100 : Nat))
    [ascii "data: 1\r\n\r", ascii "\ndata: 2\n"] = run at hraised
  obtain ⟨s, raised⟩ := run
  obtain rfl : raised = none := hraised
  obtain ⟨t, hwhole⟩ := segments_of_chunks plainStream rfl 100 _ s hrun
  exact ⟨s, t, rfl, hwhole⟩

end Modall.McpAdapter
