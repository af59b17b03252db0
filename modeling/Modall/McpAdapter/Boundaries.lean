import Modall.McpAdapter.ResponseStream

/-!
# The boundaries between events

What the boundary pattern finds, as a function on bytes: the pattern looks at the byte before a line
break and at the byte behind it, so what is found depends on where a text is cut off, but only in
its last three bytes.
-/
namespace Modall.McpAdapter

open Library Library.Regex Security

/-- The text behind one line break at its front; `cr` says that a carriage return comes before. -/
def behindBreak (cr : Bool) : ByteString → Option ByteString
  | [] => none
  | b :: rest =>
    if b = carriageReturn then
      match rest with
      | [] => some []
      | b' :: rest' => some (if b' = lineFeed then rest' else rest)
    else if b = lineFeed ∧ cr = false then some rest
    else none

/-- The text behind one boundary at its front. -/
def behindBoundary (cr : Bool) (text : ByteString) : Option ByteString :=
  (behindBreak cr text).bind (behindBreak false)

/-- The text before the first boundary and the text behind it. -/
def cut (cr : Bool) : ByteString → Option (ByteString × ByteString)
  | [] => none
  | b :: rest =>
    match behindBoundary cr (b :: rest) with
    | some after => some ([], after)
    | none => (cut (b == carriageReturn) rest).map fun (before, after) => (b :: before, after)

/-- A carriage return is the byte before. -/
def endsCr (context : ByteString) : Bool := context.head? == some carriageReturn

lemma any_last (s : State UInt8) (context : ByteString) :
    (s.last context).any (· == carriageReturn) = endsCr (s.consumed ++ context) := by
  rw [State.last, endsCr]
  cases (s.consumed ++ context).head? <;> rfl

/-- The pattern reads a line break, and a line feed it leaves is not half of one. -/
lemma run_lineBreak (context : ByteString) (s : State UInt8) :
    (run context lineBreak s).map State.rest =
        (behindBreak (endsCr (s.consumed ++ context)) s.rest).toList ∧
      ∀ t ∈ run context lineBreak s, t.rest.head? = some lineFeed →
        endsCr (t.consumed ++ context) = false := by
  have hne : lineFeed ≠ carriageReturn := by decide
  simp only [lineBreak, Pattern.oneOf, run, any_last]
  generalize hends : endsCr (s.consumed ++ context) = ends
  rcases hrest : s.rest with _ | ⟨b, _ | ⟨b', rest⟩⟩
  · simp [behindBreak, hrest]
  · by_cases hcr : b = carriageReturn
    · simp [behindBreak, State.push, hcr, hne.symm, hrest]
    · by_cases hlf : b = lineFeed
      · cases ends <;> simp [behindBreak, State.push, hlf, hne, hrest]
      · cases ends <;> simp [behindBreak, hcr, hlf, hrest]
  · by_cases hcr : b = carriageReturn
    · by_cases hlf : b' = lineFeed <;>
        simp [behindBreak, State.push, endsCr, hcr, hlf, hne, hne.symm, hrest]
    · by_cases hlf : b = lineFeed
      · cases ends <;> simp [behindBreak, State.push, endsCr, hlf, hne, hrest]
      · cases ends <;> simp [behindBreak, hcr, hlf, hrest]

lemma behindBreak_of_whole {cr : Bool} {text : ByteString}
    (h : text.head? = some lineFeed → cr = false) :
    behindBreak cr text = behindBreak false text := by
  match text with
  | [] => rfl
  | b :: rest =>
    by_cases hlf : b = lineFeed
    · rw [h (by rw [hlf]; rfl)]
    · simp [behindBreak, hlf]

/-- Behind a boundary there is no half of a line break. -/
lemma rest_of_run_eventBoundary (context : ByteString) (s : State UInt8) :
    (run context eventBoundary s).map State.rest =
      (behindBoundary (endsCr (s.consumed ++ context)) s.rest).toList := by
  obtain ⟨hrests, hwhole⟩ := run_lineBreak context s
  rw [eventBoundary, run, List.map_flatMap, behindBoundary]
  have hsecond : ∀ t ∈ run context lineBreak s,
      (run context lineBreak t).map State.rest = (behindBreak false t.rest).toList := by
    intro t ht
    rw [(run_lineBreak context t).1, behindBreak_of_whole (hwhole t ht)]
  rw [List.flatMap_congr hsecond]
  calc (run context lineBreak s).flatMap (fun t => (behindBreak false t.rest).toList)
      = ((run context lineBreak s).map State.rest).flatMap
          (fun text => (behindBreak false text).toList) := by rw [List.flatMap_map]
    _ = _ := by
      rw [hrests]
      cases behindBreak (endsCr (s.consumed ++ context)) s.rest <;> simp

lemma matchAt_eventBoundary (context text : ByteString) :
    (matchAt eventBoundary context text).map Match.rest = behindBoundary (endsCr context) text := by
  have hrests := rest_of_run_eventBoundary context ⟨[], text, []⟩
  rw [matchAt, Option.map_map]
  calc ((run context eventBoundary ⟨[], text, []⟩).head?).map State.rest
      = ((run context eventBoundary ⟨[], text, []⟩).map State.rest).head? := by
        rw [List.head?_map]
    _ = behindBoundary (endsCr context) text := by
      rw [hrests, List.nil_append]
      cases behindBoundary (endsCr context) text <;> rfl

lemma start_of_matchAt {pattern : Pattern UInt8} {context text : ByteString} {m : Match UInt8}
    (h : matchAt pattern context text = some m) : m.start = text := by
  obtain ⟨s, -, rfl⟩ := Option.map_eq_some_iff.1 h
  rfl

lemma length_start_of_search {pattern : Pattern UInt8} {context text : ByteString}
    {m : Match UInt8} (h : search pattern context text = some m) :
    m.start.length ≤ text.length := by
  induction text generalizing context with
  | nil => rw [start_of_matchAt h]
  | cons b rest ih =>
    rw [search] at h
    split at h
    case h_1 hmatch =>
      cases h
      rw [start_of_matchAt hmatch]
    · exact (ih h).trans (Nat.le_succ _)

/-- What a search for a boundary finds. -/
lemma search_eventBoundary (context text : ByteString) :
    (search eventBoundary context text).map
        (fun m => (text.take (text.length - m.start.length), m.rest)) =
      cut (endsCr context) text := by
  induction text generalizing context with
  | nil =>
    have hmatch := matchAt_eventBoundary context []
    rw [search, cut]
    cases h : matchAt eventBoundary context [] with
    | none => rfl
    | some m =>
      rw [h] at hmatch
      cases hmatch
  | cons b rest ih =>
    have hmatch := matchAt_eventBoundary context (b :: rest)
    rw [search, cut, ← hmatch]
    cases h : matchAt eventBoundary context (b :: rest) with
    | some m => simp [start_of_matchAt h]
    | none =>
      have ih := ih (b :: context)
      have hends : endsCr (b :: context) = (b == carriageReturn) := rfl
      rw [hends] at ih
      simp only [Option.map_none, ← ih, Option.map_map]
      cases hsearch : search eventBoundary (b :: context) rest with
      | none => rfl
      | some m =>
        have hle := length_start_of_search hsearch
        simp [Nat.succ_sub hle]

def isLineBreak (b : UInt8) : Bool := b == carriageReturn || b == lineFeed

/-- What a break or a boundary has read. -/
structure Broken (text rest : ByteString) (read : ByteString) : Prop where
  split : text = read ++ rest
  breaks : ∀ b ∈ read, isLineBreak b = true
  ne_nil : read ≠ []
  whole : rest.head? = some lineFeed → endsCr read.reverse = false

/-- The three line breaks. -/
lemma behindBreak_cases {cr : Bool} {text rest : ByteString}
    (h : behindBreak cr text = some rest) :
    text = [carriageReturn, lineFeed] ++ rest ∨
      (text = [carriageReturn] ++ rest ∧ rest.head? ≠ some lineFeed) ∨
      (text = [lineFeed] ++ rest ∧ cr = false) := by
  match text with
  | [] => cases h
  | [b] =>
    rw [behindBreak] at h
    split at h
    case isTrue hcr =>
      cases h
      exact .inr (.inl ⟨by rw [hcr]; rfl, by simp⟩)
    · split at h
      case isTrue hlf =>
        cases h
        exact .inr (.inr ⟨by rw [hlf.1]; rfl, hlf.2⟩)
      · cases h
  | b :: b' :: behind =>
    rw [behindBreak] at h
    split at h
    case isTrue hcr =>
      split at h
      case isTrue hlf =>
        cases h
        exact .inl (by rw [hcr, hlf]; rfl)
      case isFalse hlf =>
        cases h
        exact .inr (.inl ⟨by rw [hcr]; rfl, by simpa using hlf⟩)
    · split at h
      case isTrue hlf =>
        cases h
        exact .inr (.inr ⟨by rw [hlf.1]; rfl, hlf.2⟩)
      · cases h

lemma broken_of_behindBreak {cr : Bool} {text rest : ByteString}
    (h : behindBreak cr text = some rest) : ∃ read, Broken text rest read := by
  obtain htext | ⟨htext, hwhole⟩ | ⟨htext, -⟩ := behindBreak_cases h
  · exact ⟨_, htext, by simp [isLineBreak], by simp, fun _ => by decide⟩
  · exact ⟨_, htext, by simp [isLineBreak], by simp, fun hlf => absurd hlf hwhole⟩
  · exact ⟨_, htext, by simp [isLineBreak], by simp, fun _ => by decide⟩

lemma broken_of_behindBoundary {cr : Bool} {text rest : ByteString}
    (h : behindBoundary cr text = some rest) : ∃ read, Broken text rest read := by
  obtain ⟨middle, hfirst, hsecond⟩ := Option.bind_eq_some_iff.1 h
  obtain ⟨read, hread⟩ := broken_of_behindBreak hfirst
  obtain ⟨more, hmore⟩ := broken_of_behindBreak hsecond
  refine ⟨read ++ more, ?_, ?_, ?_, ?_⟩
  · rw [hread.split, hmore.split, List.append_assoc]
  · intro b hb
    exact (List.mem_append.1 hb).elim (hread.breaks b) (hmore.breaks b)
  · simp [hmore.ne_nil]
  · intro hlf
    have hends := hmore.whole hlf
    obtain ⟨init, last, rfl⟩ := (List.eq_nil_or_concat more).resolve_left hmore.ne_nil
    simpa [endsCr] using hends

/-- A boundary is at most four bytes long, so it does not change with what comes behind them. -/
lemma behindBoundary_append {cr : Bool} {text : ByteString} (hlength : 4 ≤ text.length)
    (chunk : ByteString) :
    behindBoundary cr (text ++ chunk) = (behindBoundary cr text).map (· ++ chunk) := by
  have hbreak : ∀ (cr : Bool) (x y : UInt8) (rest : ByteString),
      behindBreak cr (x :: y :: rest ++ chunk) =
        (behindBreak cr (x :: y :: rest)).map (· ++ chunk) := by
    intro cr x y rest
    simp only [behindBreak, List.cons_append]
    split
    · split <;> rfl
    · split <;> rfl
  match text with
  | a :: b :: c :: d :: rest =>
    rw [behindBoundary, behindBoundary, hbreak]
    cases hfirst : behindBreak cr (a :: b :: c :: d :: rest) with
    | none => rfl
    | some middle =>
      obtain htext | ⟨htext, -⟩ | ⟨htext, -⟩ := behindBreak_cases hfirst <;> cases htext <;>
        exact hbreak _ _ _ _

lemma cut_cons {cr : Bool} {b : UInt8} {rest : ByteString}
    (h : behindBoundary cr (b :: rest) = none) :
    cut cr (b :: rest) =
      (cut (b == carriageReturn) rest).map fun (before, after) => (b :: before, after) := by
  rw [cut, h]

lemma cut_eq_none {cr : Bool} {b : UInt8} {rest : ByteString} (h : cut cr (b :: rest) = none) :
    behindBoundary cr (b :: rest) = none ∧ cut (b == carriageReturn) rest = none := by
  rw [cut] at h
  split at h
  · cases h
  · exact ⟨‹_›, by simpa using h⟩

lemma cut_of_whole {cr : Bool} {text : ByteString}
    (h : text.head? = some lineFeed → cr = false) : cut cr text = cut false text := by
  match text with
  | [] => rfl
  | b :: rest => rw [cut, cut, behindBoundary, behindBoundary, behindBreak_of_whole h]

/-- What lies around the boundary that was found. -/
lemma broken_of_cut {cr : Bool} {text before after : ByteString}
    (h : cut cr text = some (before, after)) :
    ∃ read, text = before ++ (read ++ after) ∧ Broken (read ++ after) after read := by
  induction text generalizing cr before with
  | nil => cases h
  | cons b rest ih =>
    rw [cut] at h
    split at h
    case h_1 hboundary =>
      cases h
      obtain ⟨read, hread⟩ := broken_of_behindBoundary hboundary
      exact ⟨read, hread.split, ⟨rfl, hread.breaks, hread.ne_nil, hread.whole⟩⟩
    · obtain ⟨⟨before', after'⟩, hrest, heq⟩ := Option.map_eq_some_iff.1 h
      cases heq
      obtain ⟨read, rfl, hread⟩ := ih hrest
      exact ⟨read, rfl, hread⟩

/-- A search that went to the end of a text needs to be repeated for its last three bytes only. -/
lemma cut_skip {context searched window : ByteString}
    (h : cut (endsCr context) (searched ++ window) = none) (hlength : 3 ≤ window.length)
    (chunk : ByteString) :
    cut (endsCr context) (searched ++ (window ++ chunk)) =
      (cut (endsCr (searched.reverse ++ context)) (window ++ chunk)).map
        fun (before, after) => (searched ++ before, after) := by
  induction searched generalizing context with
  | nil =>
    simp only [List.nil_append, List.reverse_nil]
    cases cut (endsCr context) (window ++ chunk) <;> rfl
  | cons b searched ih =>
    rw [List.cons_append] at h
    obtain ⟨hboundary, hrest⟩ := cut_eq_none h
    have happend : behindBoundary (endsCr context) (b :: (searched ++ (window ++ chunk))) = none := by
      have hlong := @behindBoundary_append (endsCr context) (b :: (searched ++ window))
        (by simp; omega) chunk
      rw [hboundary] at hlong
      simpa using hlong
    rw [List.cons_append, cut_cons happend, List.reverse_cons, List.append_assoc]
    have hcontext : (b == carriageReturn) = endsCr (b :: context) := rfl
    rw [hcontext] at hrest ⊢
    rw [ih hrest, List.singleton_append, Option.map_map]
    rfl

lemma behindBreak_of_content {cr : Bool} {b : UInt8} (h : isLineBreak b = false)
    (rest : ByteString) : behindBreak cr (b :: rest) = none := by
  obtain ⟨hcr, hlf⟩ : b ≠ carriageReturn ∧ b ≠ lineFeed := by simpa [isLineBreak] using h
  cases rest <;> simp [behindBreak, hcr, hlf]

lemma content_of_behindBreak {b : UInt8} {rest : ByteString}
    (h : behindBreak false (b :: rest) = none) : isLineBreak b = false := by
  by_contra hb
  rw [Bool.not_eq_false, isLineBreak, Bool.or_eq_true, beq_iff_eq, beq_iff_eq] at hb
  obtain rfl | rfl := hb
  · cases rest <;> simp [behindBreak] at h
  · cases rest <;> simp [behindBreak, lineFeed, carriageReturn] at h

lemma cut_content {cr : Bool} {b : UInt8} (h : isLineBreak b = false) (rest : ByteString) :
    cut cr (b :: rest) = (cut false rest).map fun (before, after) => (b :: before, after) := by
  rw [cut_cons (by rw [behindBoundary, behindBreak_of_content h]; rfl)]
  have hcr : (b == carriageReturn) = false := by
    rw [isLineBreak, Bool.or_eq_false_iff] at h
    exact h.1
  rw [hcr]

/-- One line break without a second one is no boundary. -/
lemma cut_loneBreak {text rest read : ByteString} (h : behindBreak false text = some rest)
    (hread : text = read ++ rest) (hlone : behindBreak false rest = none) :
    cut false text = (cut false rest).map fun (before, after) => (read ++ before, after) := by
  have hboundary : behindBoundary false text = none := by
    rw [behindBoundary, h]
    exact hlone
  have hwhole : ∀ cr, cut cr rest = cut false rest := by
    intro cr
    apply cut_of_whole
    intro hlf
    obtain ⟨rest', rfl⟩ := List.head?_eq_some_iff.1 hlf
    exact absurd (content_of_behindBreak hlone) (by decide)
  obtain htext | ⟨htext, -⟩ | ⟨htext, -⟩ := behindBreak_cases h
  · obtain rfl := List.append_cancel_right (hread.symm.trans htext)
    subst htext
    have hhalf : behindBoundary true (lineFeed :: rest) = none := by
      cases rest <;> simp [behindBoundary, behindBreak, lineFeed, carriageReturn]
    rw [List.cons_append, List.cons_append, List.nil_append] at hboundary ⊢
    rw [cut_cons hboundary, beq_self_eq_true, cut_cons hhalf, hwhole, Option.map_map]
    rfl
  · obtain rfl := List.append_cancel_right (hread.symm.trans htext)
    subst htext
    rw [List.cons_append, List.nil_append] at hboundary ⊢
    rw [cut_cons hboundary, hwhole]
    rfl
  · obtain rfl := List.append_cancel_right (hread.symm.trans htext)
    subst htext
    rw [List.cons_append, List.nil_append] at hboundary ⊢
    rw [cut_cons hboundary, hwhole]
    rfl

end Modall.McpAdapter
