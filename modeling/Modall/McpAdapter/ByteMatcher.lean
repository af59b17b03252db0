import Modall.Library.Matching
import Modall.Library.Codecs

/-!
# The byte matcher of the response screen

`_IncrementalByteMatcher` with every index it uses checked: `none` is an `IndexError`, or a loop
that does not end. It never comes to that, and what is left is the matcher of the library, so the
first feed that reports is the first one at whose end some pattern occurs.
-/
namespace Modall.McpAdapter

open Library Library.Matching

namespace IncrementalByteMatcher

/-- `while matched and byte != pattern[matched]: matched = prefix[matched - 1]`. -/
def fall (pattern : ByteString) (table : List Nat) (byte : UInt8) : Nat → Nat → Option Nat
  | _, 0 => some 0
  | 0, _ + 1 => none
  | rounds + 1, matched + 1 => do
    let expected ← pattern[matched + 1]?
    if byte = expected then return matched + 1
    let next ← table[matched]?
    fall pattern table byte rounds next

/-- The loop, and the comparison behind it. -/
def advance (pattern : ByteString) (table : List Nat) (byte : UInt8) (matched : Nat) :
    Option Nat := do
  let matched ← fall pattern table byte matched matched
  let expected ← pattern[matched]?
  return if byte = expected then matched + 1 else matched

/-- The loop of `_prefix_table` over the indices that are left. -/
def fillTable (pattern : ByteString) : Nat → Nat → List Nat → Nat → Option (List Nat)
  | 0, _, table, _ => some table
  | count + 1, index, table, matched => do
    let byte ← pattern[index]?
    let matched ← advance pattern table byte matched
    if index < table.length then
      fillTable pattern count (index + 1) (table.set index matched) matched
    else none

def prefixTable (pattern : ByteString) : Option (List Nat) :=
  fillTable pattern (pattern.length - 1) 1 (List.replicate pattern.length 0) 0

/-- `__init__`. -/
def init (patterns : List ByteString) : Option (Matcher UInt8) :=
  (patterns.filter (· ≠ [])).mapM fun pattern => do
    let table ← prefixTable pattern
    return ⟨pattern, table, 0⟩

/-- The loop of `feed` over the patterns. -/
def feedByte (byte : UInt8) : Matcher UInt8 → Option (Bool × Matcher UInt8)
  | [] => some (false, [])
  | a :: rest => do
    let matched ← advance a.pattern a.table byte a.matched
    if matched = a.pattern.length then return (true, a :: rest)
    let (found, rest) ← feedByte byte rest
    return (found, { a with matched } :: rest)

def feed (m : Matcher UInt8) : ByteString → Option (Bool × Matcher UInt8)
  | [] => some (false, m)
  | byte :: value => do
    let (found, m) ← feedByte byte m
    if found then return (true, m)
    feed m value

/-- The number of feeds before the first that returns `True`, if one does. -/
def firstReport (m : Matcher UInt8) : List ByteString → Option (Option Nat)
  | [] => some none
  | chunk :: chunks => do
    let (found, m) ← feed m chunk
    if found then return some 0
    let later ← firstReport m chunks
    return later.map (· + 1)

section refinement
variable {pattern : ByteString} {table table' : List Nat} {byte : UInt8}

/-- Below a length that the table is right for, every index of the loop is inside. -/
lemma fall_eq {rounds matched : Nat} (hrounds : matched ≤ rounds)
    (hlt : matched < pattern.length) (hbordered : Bordered pattern table' matched)
    (hagree : ∀ i < matched, table[i]? = some (table'.getD i 0)) :
    fall pattern table byte rounds matched =
      some (Matching.fall pattern table' byte rounds matched) := by
  induction rounds generalizing matched with
  | zero =>
    obtain rfl : matched = 0 := by omega
    rfl
  | succ rounds ih =>
    cases matched with
    | zero => simp [fall, Matching.fall]
    | succ matched =>
      have hborder := hbordered (matched + 1) (by omega) le_rfl
      simp only [Nat.add_sub_cancel] at hborder
      have hshorter := hborder.lt
      have hrest : fall pattern table byte rounds (table'.getD matched 0) =
          some (Matching.fall pattern table' byte rounds (table'.getD matched 0)) :=
        ih (by omega) (by omega) (fun m hm hle => hbordered m hm (by omega))
          (fun i hi => hagree i (by omega))
      simp only [fall, Matching.fall, List.getElem?_eq_getElem hlt, hagree matched (by omega)]
      by_cases hbyte : byte = pattern[matched + 1]
      · simp [← hbyte]
      · have hbyte' : ¬ pattern[matched + 1] = byte := fun h => hbyte h.symm
        simpa [hbyte, hbyte'] using hrest

lemma advance_eq (byte : UInt8) {matched : Nat} (hlt : matched < pattern.length)
    (hbordered : Bordered pattern table' matched)
    (hagree : ∀ i < matched, table[i]? = some (table'.getD i 0)) :
    advance pattern table byte matched = some (Matching.advance pattern table' byte matched) := by
  have hfallen := (fall_spec (l := pattern.take matched) (c := byte) (fun _ => False) nofun
    (le_refl matched) hbordered List.suffix_rfl nofun).1
  have hin : Matching.fall pattern table' byte matched matched < pattern.length := by omega
  simp only [advance, Matching.advance, fall_eq le_rfl hlt hbordered hagree, Option.pure_def,
    Option.bind_eq_bind, Option.bind_some, List.getElem?_eq_getElem hin, Option.some.injEq]
  by_cases hbyte : byte = pattern[Matching.fall pattern table' byte matched matched]
  · simp [← hbyte]
  · simp [hbyte, Ne.symm hbyte]

/-- Filling the table in place goes through the tables of the shorter prefixes. -/
lemma fillTable_eq (count n : Nat) (hcount : n + 1 + count = pattern.length) :
    fillTable pattern count (n + 1)
        ((tableUpTo pattern n).1 ++ List.replicate count 0) (tableUpTo pattern n).2 =
      some (Matching.prefixTable pattern) := by
  induction count generalizing n with
  | zero =>
    obtain rfl : n = pattern.length - 1 := by omega
    simp [fillTable, Matching.prefixTable]
  | succ count ih =>
    obtain ⟨hlength, hmatched, hbordered⟩ := tableUpTo_spec (by omega : n < pattern.length)
    have hchar := List.getElem?_eq_getElem (by omega : n + 1 < pattern.length)
    have hborder := hbordered (n + 1) (by omega) le_rfl
    rw [Nat.add_sub_cancel, ← hmatched] at hborder
    have hshorter := hborder.lt
    have hnext : tableUpTo pattern (n + 1) =
        ((tableUpTo pattern n).1 ++
          [Matching.advance pattern (tableUpTo pattern n).1 pattern[n + 1] (tableUpTo pattern n).2],
          Matching.advance pattern (tableUpTo pattern n).1 pattern[n + 1] (tableUpTo pattern n).2) := by
      simp only [tableUpTo, hchar]
    have hagree : ∀ i < (tableUpTo pattern n).2,
        ((tableUpTo pattern n).1 ++ List.replicate (count + 1) 0)[i]? =
          some ((tableUpTo pattern n).1.getD i 0) := by
      intro i hi
      have hin : i < (tableUpTo pattern n).1.length := by omega
      rw [List.getElem?_append_left hin, List.getD_eq_getElem _ _ hin,
        List.getElem?_eq_getElem hin]
    have hset : ((tableUpTo pattern n).1 ++ List.replicate (count + 1) 0).set (n + 1)
        (tableUpTo pattern (n + 1)).2 =
          (tableUpTo pattern (n + 1)).1 ++ List.replicate count 0 := by
      rw [hnext, List.set_append_right _ _ (by omega), hlength, Nat.sub_self, List.replicate_succ,
        List.set_cons_zero]
      simp
    have hin : n + 1 < ((tableUpTo pattern n).1 ++ List.replicate (count + 1) 0).length := by
      simp only [List.length_append, List.length_replicate, hlength]
      omega
    have hadvance := advance_eq pattern[n + 1] (by omega)
      (fun m hm hle => hbordered m hm (by omega)) hagree
    simp only [fillTable, hchar, Option.bind_eq_bind, Option.bind_some, hadvance, if_pos hin]
    rw [show Matching.advance pattern (tableUpTo pattern n).1 pattern[n + 1]
      (tableUpTo pattern n).2 = (tableUpTo pattern (n + 1)).2 by rw [hnext], hset]
    exact ih (n + 1) (by omega)

lemma prefixTable_eq (hne : pattern ≠ []) :
    prefixTable pattern = some (Matching.prefixTable pattern) := by
  have hpos := List.length_pos_iff.mpr hne
  have hcount : 0 + 1 + (pattern.length - 1) = pattern.length := by omega
  have h := fillTable_eq (pattern.length - 1) 0 hcount
  have htable : (tableUpTo pattern 0).1 ++ List.replicate (pattern.length - 1) 0 =
      List.replicate pattern.length 0 := by
    rw [show pattern.length = pattern.length - 1 + 1 by omega, List.replicate_succ]
    rfl
  rw [htable] at h
  exact h

lemma init_eq (patterns : List ByteString) : init patterns = some (Matcher.start patterns) := by
  rw [init, Matcher.start]
  have hne : ∀ pattern ∈ patterns.filter (· ≠ []), pattern ≠ [] := by simp
  generalize patterns.filter (· ≠ []) = kept at hne ⊢
  induction kept with
  | nil => rfl
  | cons pattern kept ih =>
    have hrest := ih fun p hp => hne p (by simp [hp])
    rw [List.mapM_cons, hrest, prefixTable_eq (hne pattern (by simp))]
    rfl

lemma length_prefixTable (hne : pattern ≠ []) :
    (Matching.prefixTable pattern).length = pattern.length := by
  have hpos := List.length_pos_iff.mpr hne
  have h := (tableUpTo_spec (by omega : pattern.length - 1 < pattern.length)).1
  rwa [Nat.sub_add_cancel hpos] at h

lemma feedByte_eq {m : Matcher UInt8} {text : ByteString} (h : m.Read text) :
    feedByte byte m = some (m.feedOne byte) := by
  induction m with
  | nil => rfl
  | cons a rest ih =>
    have ha := h a (by simp)
    have hagree : ∀ i < a.matched, a.table[i]? = some (a.table.getD i 0) := by
      intro i hi
      have hin : i < a.table.length := by
        rw [ha.table, length_prefixTable ha.nonempty]
        exact hi.trans ha.lt
      rw [List.getD_eq_getElem _ _ hin, List.getElem?_eq_getElem hin]
    have hadvance := advance_eq byte ha.lt ha.bordered hagree
    have hrest := ih fun x hx => h x (by simp [hx])
    simp only [feedByte, Matcher.feedOne, hadvance, hrest, Option.bind_eq_bind, Option.bind_some,
      Option.pure_def]
    split <;> rfl

lemma feed_eq {m : Matcher UInt8} {text : ByteString} (h : m.Read text) (value : ByteString) :
    feed m value = some (m.feed value) := by
  induction value generalizing m text with
  | nil => rfl
  | cons byte value ih =>
    simp only [feed, Matcher.feed, feedByte_eq h, Option.bind_eq_bind, Option.bind_some,
      Option.pure_def]
    rcases hone : m.feedOne byte with ⟨_ | _, next⟩
    case true => rfl
    case false =>
      have hread := Matcher.feedOne_read h (c := byte) (by rw [hone])
      rw [hone] at hread
      exact ih hread

end refinement

/-- Some pattern occurs in the text. -/
def Occurs (patterns : List ByteString) (text : ByteString) : Prop :=
  ∃ pattern ∈ patterns, pattern ≠ [] ∧ pattern <:+: text

/-- A matcher that has read a text without a report reports the first chunk behind which one of its
patterns occurs. -/
lemma firstReport_eq {m : Matcher UInt8} {patterns : List ByteString} {text : ByteString}
    (h : m.Read text) (hpatterns : m.map Automaton.pattern = patterns.filter (· ≠ []))
    (chunks : List ByteString) :
    ∃ report, firstReport m chunks = some report ∧ ∀ n, report = some n ↔
      n < chunks.length ∧ Occurs patterns (text ++ (chunks.take (n + 1)).flatten) ∧
        ∀ k < n, ¬ Occurs patterns (text ++ (chunks.take (k + 1)).flatten) := by
  have hmem : ∀ pattern, pattern ∈ m.map Automaton.pattern ↔ pattern ∈ patterns ∧ pattern ≠ [] := by
    intro pattern
    rw [hpatterns, List.mem_filter, decide_eq_true_eq]
  induction chunks generalizing m text with
  | nil => exact ⟨none, rfl, by simp⟩
  | cons chunk chunks ih =>
    simp only [firstReport, feed_eq h, Option.bind_eq_bind, Option.bind_some, Option.pure_def]
    match hfeed : m.feed chunk with
    | (true, next) =>
      obtain ⟨pattern, hpattern, hinside⟩ := Matcher.feed_found h chunk (by rw [hfeed])
      have hoccurs : Occurs patterns (text ++ chunk) :=
        ⟨pattern, ((hmem pattern).mp hpattern).1, ((hmem pattern).mp hpattern).2, hinside⟩
      refine ⟨some 0, rfl, fun n => ⟨?_, ?_⟩⟩
      · rintro ⟨⟩
        exact ⟨by simp, by simpa using hoccurs, by simp⟩
      · rintro ⟨-, -, hfirst⟩
        cases n with
        | zero => rfl
        | succ n => exact absurd (by simpa using hoccurs) (hfirst 0 (by omega))
    | (false, next) =>
      have hread := Matcher.feed_read h chunk (by rw [hfeed])
      have hsame := m.feed_patterns chunk
      rw [hfeed] at hread hsame
      have habsent : ¬ Occurs patterns (text ++ chunk) := by
        rintro ⟨pattern, hin, hne, hinside⟩
        exact hread.absent (hsame ▸ (hmem pattern).mpr ⟨hin, hne⟩) hinside
      obtain ⟨report, hreport, hspec⟩ := ih hread (hsame.trans hpatterns) (hsame ▸ hmem)
      refine ⟨report.map (· + 1), by simp [hreport], fun n => ?_⟩
      cases n with
      | zero => simpa using fun h => absurd h habsent
      | succ n =>
        have hshift : report.map (· + 1) = some (n + 1) ↔ report = some n := by
          cases report <;> simp
        rw [hshift, hspec n, Nat.forall_lt_succ_left]
        simp [habsent]

end IncrementalByteMatcher

end Modall.McpAdapter
