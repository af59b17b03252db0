import Mathlib

/-!
# Incremental string matching

The automaton that matches a pattern while its text arrives piece by piece. Its state is how much
of the pattern the text ends with; on a mismatch it falls back along a table of the pattern's own
borders. A `Matcher` runs one automaton per pattern and stops at the first occurrence of any.
-/
namespace Modall.Library.Matching

variable {α : Type} [DecidableEq α]

/-! ## The automaton -/

/-- `while matched and c != pattern[matched]: matched = table[matched - 1]`. -/
def fall (pattern : List α) (table : List Nat) (c : α) : Nat → Nat → Nat
  | 0, matched => matched
  | fuel + 1, matched =>
    if matched = 0 ∨ pattern[matched]? = some c then matched
    else fall pattern table c fuel (table.getD (matched - 1) 0)

/-- One character; every round of `fall` lowers `matched`, so it bounds the rounds. -/
def advance (pattern : List α) (table : List Nat) (c : α) (matched : Nat) : Nat :=
  let matched := fall pattern table c matched matched
  if pattern[matched]? = some c then matched + 1 else matched

/-- The table after the first `n` characters behind the first one, and its last entry. -/
def tableUpTo (pattern : List α) : Nat → List Nat × Nat
  | 0 => ([0], 0)
  | n + 1 =>
    let (table, matched) := tableUpTo pattern n
    match pattern[n + 1]? with
    | some c =>
      let matched := advance pattern table c matched
      (table ++ [matched], matched)
    | none => (table, matched)

def prefixTable (pattern : List α) : List Nat := (tableUpTo pattern (pattern.length - 1)).1

/-! ## Borders -/

section borders
variable {pattern l : List α} {c : α} {table : List Nat}

/-- `k` is the longest part of the pattern, shorter than `m`, that its first `m` characters end
with. -/
structure LongestBorder (pattern : List α) (m k : Nat) : Prop where
  lt : k < m
  suffix : pattern.take k <:+ pattern.take m
  max : ∀ j < m, pattern.take j <:+ pattern.take m → j ≤ k

/-- The table is right for the first `n` lengths. -/
def Bordered (pattern : List α) (table : List Nat) (n : Nat) : Prop :=
  ∀ m, 0 < m → m ≤ n → LongestBorder pattern m (table.getD (m - 1) 0)

omit [DecidableEq α] in
lemma take_succ_of_getElem? {j : Nat} (h : pattern[j]? = some c) :
    pattern.take (j + 1) = pattern.take j ++ [c] := by
  rw [List.take_add_one, h]
  rfl

omit [DecidableEq α] in
/-- What a text ends with after one more character. -/
lemma take_suffix_concat {j : Nat} (hj : j < pattern.length) :
    pattern.take (j + 1) <:+ l ++ [c] ↔ pattern.take j <:+ l ∧ pattern[j]? = some c := by
  have hlast := take_succ_of_getElem? (List.getElem?_eq_getElem hj)
  rw [hlast, List.suffix_concat_iff]
  constructor
  · rintro (h | ⟨start, hstart, hsuffix⟩)
    · exact absurd h (List.append_ne_nil_of_right_ne_nil _ (List.cons_ne_nil _ _))
    · obtain ⟨rfl, hc⟩ := List.append_inj' hstart rfl
      exact ⟨hsuffix, by rw [List.getElem?_eq_getElem hj]; simpa using hc⟩
  · rintro ⟨hsuffix, hc⟩
    rw [List.getElem?_eq_getElem hj, Option.some_inj] at hc
    exact .inr ⟨_, by rw [hc], hsuffix⟩

/-- Falling back ends at the longest candidate: a part of the pattern that the text ends with and
that the next character extends. -/
lemma fall_spec (candidate : Nat → Prop)
    (hcandidate : ∀ j, candidate j → pattern.take j <:+ l ∧ pattern[j]? = some c)
    {fuel matched : Nat} (hfuel : matched ≤ fuel) (htable : Bordered pattern table matched)
    (hsuffix : pattern.take matched <:+ l) (hmax : ∀ j, candidate j → j ≤ matched) :
    fall pattern table c fuel matched ≤ matched ∧
      pattern.take (fall pattern table c fuel matched) <:+ l ∧
      (∀ j, candidate j → j ≤ fall pattern table c fuel matched) ∧
      (fall pattern table c fuel matched = 0 ∨
        pattern[fall pattern table c fuel matched]? = some c) := by
  induction fuel generalizing matched with
  | zero =>
    obtain rfl : matched = 0 := by omega
    exact ⟨le_rfl, hsuffix, hmax, .inl rfl⟩
  | succ fuel ih =>
    simp only [fall]
    split
    case isTrue hstop => exact ⟨le_rfl, hsuffix, hmax, hstop⟩
    case isFalse hgo =>
      obtain ⟨hpos, hmismatch⟩ := not_or.mp hgo
      have hborder := htable matched (by omega) le_rfl
      have hlower : ∀ j, candidate j → j ≤ table.getD (matched - 1) 0 := by
        intro j hj
        obtain ⟨hj_suffix, hj_char⟩ := hcandidate j hj
        have hne : j ≠ matched := by
          rintro rfl
          exact hmismatch hj_char
        have hlt : j < matched := by
          have := hmax j hj
          omega
        refine hborder.max j hlt (List.suffix_of_suffix_length_le hj_suffix hsuffix ?_)
        simp only [List.length_take]
        omega
      obtain ⟨hle, hrest⟩ := ih (by have := hborder.lt; omega)
        (fun m hm hle => htable m hm (by have := hborder.lt; omega))
        (hborder.suffix.trans hsuffix) hlower
      exact ⟨by have := hborder.lt; omega, hrest⟩

/-- One character takes the longest part of the pattern, no longer than one past `bound`, that
the text ends with to the longest one after that character. -/
lemma advance_spec {bound matched : Nat} (hbound : bound ≤ pattern.length)
    (htable : Bordered pattern table matched) (hlt : matched < bound)
    (hsuffix : pattern.take matched <:+ l)
    (hmax : ∀ j < bound, pattern.take j <:+ l → j ≤ matched) :
    advance pattern table c matched ≤ bound ∧
      pattern.take (advance pattern table c matched) <:+ l ++ [c] ∧
      ∀ j ≤ bound, pattern.take j <:+ l ++ [c] → j ≤ advance pattern table c matched := by
  obtain ⟨hle, hfallen, hlongest, hend⟩ := fall_spec
    (fun j => j < bound ∧ pattern.take j <:+ l ∧ pattern[j]? = some c)
    (fun j hj => hj.2) (le_refl matched) htable hsuffix (fun j hj => hmax j hj.1 hj.2.1)
  set reached := fall pattern table c matched matched with hreached
  have hextends : ∀ j ≤ bound, pattern.take j <:+ l ++ [c] →
      j = 0 ∨ ∃ i, j = i + 1 ∧ i ≤ reached ∧ pattern[i]? = some c := by
    intro j hj hj_suffix
    cases j with
    | zero => exact .inl rfl
    | succ i =>
      have hi := (take_suffix_concat (by omega)).mp hj_suffix
      exact .inr ⟨i, rfl, hlongest i ⟨by omega, hi⟩, hi.2⟩
  simp only [advance, ← hreached]
  split
  case isTrue hmatch =>
    refine ⟨by omega, (take_suffix_concat (by omega)).mpr ⟨hfallen, hmatch⟩, ?_⟩
    intro j hj hj_suffix
    rcases hextends j hj hj_suffix with rfl | ⟨i, rfl, hi, -⟩ <;> omega
  case isFalse hmismatch =>
    have hzero : reached = 0 := hend.resolve_right hmismatch
    refine ⟨by omega, by simp [hzero], ?_⟩
    intro j hj hj_suffix
    rcases hextends j hj hj_suffix with rfl | ⟨i, rfl, hi, hchar⟩
    · omega
    · obtain rfl : i = reached := by omega
      exact absurd hchar hmismatch

/-- The table is right for every prefix of the pattern. -/
lemma tableUpTo_spec {n : Nat} (hn : n < pattern.length) :
    (tableUpTo pattern n).1.length = n + 1 ∧
      (tableUpTo pattern n).2 = (tableUpTo pattern n).1.getD n 0 ∧
      Bordered pattern (tableUpTo pattern n).1 (n + 1) := by
  induction n with
  | zero =>
    refine ⟨rfl, rfl, fun m hpos hle => ?_⟩
    obtain rfl : m = 1 := by omega
    exact ⟨by simp [tableUpTo], by simp [tableUpTo], fun j hj _ => by simp [tableUpTo]; omega⟩
  | succ n ih =>
    obtain ⟨hlength, hmatched, htable⟩ := ih (by omega)
    have hchar := List.getElem?_eq_getElem hn
    set table := (tableUpTo pattern n).1 with htable_eq
    set matched := (tableUpTo pattern n).2 with hmatched_eq
    have hborder : LongestBorder pattern (n + 1) matched := by
      have := htable (n + 1) (by omega) le_rfl
      rwa [Nat.add_sub_cancel, ← hmatched] at this
    have hstep : tableUpTo pattern (n + 1) =
        (table ++ [advance pattern table pattern[n + 1] matched],
          advance pattern table pattern[n + 1] matched) := by
      simp only [tableUpTo, hchar, ← htable_eq, ← hmatched_eq]
    obtain ⟨hle, hsuffix, hmax⟩ := advance_spec (c := pattern[n + 1]) (by omega)
      (fun m hm hle => htable m hm (by have := hborder.lt; omega)) hborder.lt hborder.suffix
      hborder.max
    rw [← take_succ_of_getElem? hchar] at hsuffix hmax
    rw [hstep]
    refine ⟨by simp [hlength], by simp [hlength], fun m hpos hm => ?_⟩
    by_cases hlast : m = n + 2
    · subst hlast
      have hget : (table ++ [advance pattern table pattern[n + 1] matched]).getD (n + 2 - 1) 0 =
          advance pattern table pattern[n + 1] matched := by
        simp [hlength]
      simp only [hget]
      exact ⟨by omega, hsuffix, fun j hj => hmax j (by omega)⟩
    · have hget : (table ++ [advance pattern table pattern[n + 1] matched]).getD (m - 1) 0 =
          table.getD (m - 1) 0 := List.getD_append _ _ _ _ (by omega)
      simp only [hget]
      exact htable m hpos (by omega)

theorem prefixTable_bordered (hne : pattern ≠ []) :
    Bordered pattern (prefixTable pattern) pattern.length := by
  have hpos := List.length_pos_iff.mpr hne
  have h := (tableUpTo_spec (by omega : pattern.length - 1 < pattern.length)).2.2
  rwa [Nat.sub_add_cancel hpos] at h

end borders

/-! ## Several patterns -/

/-- A pattern with its table, and how much of it the text ends with. -/
structure Automaton (α : Type) where
  pattern : List α
  table : List Nat
  matched : Nat

abbrev Matcher (α : Type) := List (Automaton α)

/-- The automata of the patterns that are not empty, at the start of the text. -/
def Matcher.start (patterns : List (List α)) : Matcher α :=
  (patterns.filter (· ≠ [])).map fun pattern => ⟨pattern, prefixTable pattern, 0⟩

/-- One character through the automata in turn; an occurrence stops at its automaton. -/
def Matcher.feedOne (c : α) : Matcher α → Bool × Matcher α
  | [] => (false, [])
  | a :: rest =>
    let matched := advance a.pattern a.table c a.matched
    if matched = a.pattern.length then (true, a :: rest)
    else
      let (found, rest) := Matcher.feedOne c rest
      (found, { a with matched } :: rest)

/-- Whether an occurrence ends in what is fed, and the automata then. -/
def Matcher.feed (m : Matcher α) : List α → Bool × Matcher α
  | [] => (false, m)
  | c :: text =>
    match m.feedOne c with
    | (true, m) => (true, m)
    | (false, m) => Matcher.feed m text

/-- The automaton has read `text`, in which its pattern does not occur. -/
structure Automaton.Read (a : Automaton α) (text : List α) : Prop where
  nonempty : a.pattern ≠ []
  table : a.table = prefixTable a.pattern
  lt : a.matched < a.pattern.length
  suffix : a.pattern.take a.matched <:+ text
  max : ∀ j < a.pattern.length, a.pattern.take j <:+ text → j ≤ a.matched
  absent : ¬ a.pattern <:+: text

/-- All automata have read `text`. -/
def Matcher.Read (m : Matcher α) (text : List α) : Prop := ∀ a ∈ m, a.Read text

lemma Matcher.start_read (patterns : List (List α)) : (Matcher.start patterns).Read [] := by
  intro a ha
  simp only [Matcher.start, List.mem_map, List.mem_filter, decide_eq_true_eq] at ha
  obtain ⟨pattern, ⟨-, hne⟩, rfl⟩ := ha
  refine ⟨hne, rfl, List.length_pos_iff.mpr hne, by simp, fun j hj hsuffix => ?_, by simpa using hne⟩
  have hin : j < pattern.length := hj
  have hshort : (pattern.take j).length ≤ 0 := hsuffix.length_le
  rw [List.length_take] at hshort
  show j ≤ 0
  omega

lemma Automaton.Read.bordered {a : Automaton α} {text : List α} (h : a.Read text) :
    Bordered a.pattern a.table a.matched := by
  rw [h.table]
  exact fun m hm hle => prefixTable_bordered h.nonempty m hm (by have := h.lt; omega)

/-- A character that completes no occurrence is read. -/
lemma Automaton.Read.advance {a : Automaton α} {text : List α} (h : a.Read text) {c : α}
    (hne : Matching.advance a.pattern a.table c a.matched ≠ a.pattern.length) :
    Automaton.Read { a with matched := Matching.advance a.pattern a.table c a.matched }
      (text ++ [c]) := by
  obtain ⟨hle, hsuffix, hmax⟩ := advance_spec (c := c) le_rfl h.bordered h.lt h.suffix h.max
  refine ⟨h.nonempty, h.table, lt_of_le_of_ne hle hne, hsuffix, fun j hj => hmax j hj.le, ?_⟩
  rw [List.infix_concat_iff]
  rintro (hend | hbefore)
  · have := hmax a.pattern.length le_rfl (by rwa [List.take_length])
    exact hne (le_antisymm hle this)
  · exact h.absent hbefore

lemma Matcher.feedOne_read {m : Matcher α} {text : List α} (h : m.Read text) {c : α}
    (hfound : (m.feedOne c).1 = false) : (m.feedOne c).2.Read (text ++ [c]) := by
  induction m with
  | nil => simp [Matcher.feedOne, Matcher.Read]
  | cons a rest ih =>
    simp only [Matcher.feedOne] at hfound ⊢
    split at hfound
    · simp at hfound
    case isFalse hne =>
      rw [if_neg hne]
      intro b hb
      rcases List.mem_cons.mp hb with rfl | hb
      · exact (h a (by simp)).advance hne
      · exact ih (fun x hx => h x (by simp [hx])) hfound b hb

/-- As long as no occurrence is reported, the automata have read all that was fed. -/
theorem Matcher.feed_read {m : Matcher α} {text : List α} (h : m.Read text) (more : List α)
    (hfound : (m.feed more).1 = false) : (m.feed more).2.Read (text ++ more) := by
  induction more generalizing m text with
  | nil => simpa [Matcher.feed] using h
  | cons c more ih =>
    simp only [Matcher.feed] at hfound ⊢
    match hone : m.feedOne c with
    | (true, next) => simp [hone] at hfound
    | (false, next) =>
      have hread := Matcher.feedOne_read h (c := c) (by rw [hone])
      rw [hone] at hread hfound
      simpa using ih hread hfound

/-- The patterns of a matcher stay the same. -/
lemma Matcher.feedOne_patterns (m : Matcher α) (c : α) :
    (m.feedOne c).2.map Automaton.pattern = m.map Automaton.pattern := by
  induction m with
  | nil => rfl
  | cons a rest ih =>
    simp only [Matcher.feedOne]
    split
    · rfl
    · simp [ih]

/-- A character that is reported completes an occurrence. -/
lemma Matcher.feedOne_found {m : Matcher α} {text : List α} (h : m.Read text) {c : α}
    (hfound : (m.feedOne c).1 = true) : ∃ a ∈ m, a.pattern <:+: text ++ [c] := by
  induction m with
  | nil => simp [Matcher.feedOne] at hfound
  | cons a rest ih =>
    simp only [Matcher.feedOne] at hfound
    split at hfound
    case isTrue hmatched =>
      have ha := h a (by simp)
      have hsuffix := (advance_spec (c := c) le_rfl ha.bordered ha.lt ha.suffix ha.max).2.1
      rw [hmatched, List.take_length] at hsuffix
      exact ⟨a, by simp, hsuffix.isInfix⟩
    case isFalse =>
      obtain ⟨b, hb, hinside⟩ := ih (fun x hx => h x (by simp [hx])) hfound
      exact ⟨b, by simp [hb], hinside⟩

/-- An occurrence that is reported is there. -/
theorem Matcher.feed_found {m : Matcher α} {text : List α} (h : m.Read text) (more : List α)
    (hfound : (m.feed more).1 = true) :
    ∃ pattern ∈ m.map Automaton.pattern, pattern <:+: text ++ more := by
  induction more generalizing m text with
  | nil => simp [Matcher.feed] at hfound
  | cons c more ih =>
    simp only [Matcher.feed] at hfound
    match hone : m.feedOne c with
    | (true, next) =>
      obtain ⟨a, ha, hinside⟩ := Matcher.feedOne_found h (c := c) (by rw [hone])
      have hprefix : text ++ [c] <+: text ++ c :: more := ⟨more, by simp⟩
      exact ⟨a.pattern, List.mem_map_of_mem ha, hinside.trans hprefix.isInfix⟩
    | (false, next) =>
      have hread := Matcher.feedOne_read h (c := c) (by rw [hone])
      have hpatterns := m.feedOne_patterns c
      rw [hone] at hread hpatterns hfound
      obtain ⟨pattern, hmem, hinside⟩ := ih hread hfound
      exact ⟨pattern, hpatterns ▸ hmem, by simpa using hinside⟩

lemma Matcher.feed_patterns (m : Matcher α) (text : List α) :
    (m.feed text).2.map Automaton.pattern = m.map Automaton.pattern := by
  induction text generalizing m with
  | nil => rfl
  | cons c text ih =>
    have hone := m.feedOne_patterns c
    simp only [Matcher.feed]
    match h : m.feedOne c with
    | (true, next) => simpa [h] using hone
    | (false, next) =>
      rw [h] at hone
      exact (ih next).trans hone

/-- What a matcher has read without a report contains none of its patterns. -/
lemma Matcher.Read.absent {m : Matcher α} {text pattern : List α} (h : m.Read text)
    (hmem : pattern ∈ m.map Automaton.pattern) : ¬ pattern <:+: text := by
  obtain ⟨a, ha, rfl⟩ := List.mem_map.mp hmem
  exact (h a ha).absent

end Modall.Library.Matching
