import Modall.Library.Codecs
import Modall.Library.Dumps

/-!
# The spellings of a JSON value

A value has many texts without whitespace: the members of an object come in any order, and a
character of a string is written as it is, as a short escape or as a `\\u` escape, beyond the basic
plane as two of them. Numbers are written as `json.dumps` writes them. `Spells` says which texts
these are, and `spells_fits` that in UTF-8 none of them is longer than six times the text that
`json.dumps` writes.
-/
namespace Modall.Library.Json

/-- How a character may be written between the quotes. -/
inductive SpellsChar : Nat → Text → Prop where
  | raw {c : Nat} : 0x20 ≤ c → c ≠ '"'.toNat → c ≠ '\\'.toNat → SpellsChar c [c]
  | short {c e : Nat} : shortEscape e = some c → SpellsChar c ['\\'.toNat, e]
  | unicode {c : Nat} {digits : Text} : fourHex digits = some (c, []) →
      SpellsChar c (text "\\u" ++ digits)
  | pair {high low : Nat} {digits digits' : Text} : fourHex digits = some (high, []) →
      fourHex digits' = some (low, []) → 0xd800 ≤ high → high < 0xdc00 → 0xdc00 ≤ low →
      low < 0xe000 → SpellsChar (0x10000 + (high - 0xd800) * 0x400 + (low - 0xdc00))
        (text "\\u" ++ digits ++ (text "\\u" ++ digits'))

def SpellsString (value e : Text) : Prop :=
  ∃ parts, List.Forall₂ SpellsChar value parts ∧ e = text "\"" ++ parts.flatten ++ text "\""

section Spells
-- `repr(float(spelling))`
variable (floatText : Text → Text)

mutual

/-- The text spells the value. -/
def Spells : Value → Text → Prop
  | .null, e => e = text "null"
  | .bool b, e => e = text (if b then "true" else "false")
  | .int n, e => e = text (toString n)
  | .float spelling, e => e = floatText spelling
  | .str value, e => SpellsString value e
  | .list items, e => ∃ parts, SpellsItems items parts ∧
      e = text "[" ++ Text.join (text ",") parts ++ text "]"
  | .object members, e => ∃ parts parts', SpellsMembers members parts ∧ parts.Perm parts' ∧
      e = text "\x7b" ++ Text.join (text ",") parts' ++ text "\x7d"

def SpellsItems : List Value → List Text → Prop
  | [], [] => True
  | item :: items, part :: parts => Spells item part ∧ SpellsItems items parts
  | _, _ => False

def SpellsMembers : List (Text × Value) → List Text → Prop
  | [], [] => True
  | (key, child) :: members, part :: parts =>
    (∃ name value, SpellsString key name ∧ Spells child value ∧ part = name ++ text ":" ++ value) ∧
      SpellsMembers members parts
  | _, _ => False

end

end Spells

/-! ## Six times as long -/

/-- The bytes of a text in UTF-8. -/
def size (value : Text) : Nat := (value.map utf8Size).sum

@[simp] lemma size_nil : size [] = 0 := rfl

@[simp] lemma size_cons (c : Nat) (value : Text) : size (c :: value) = utf8Size c + size value := by
  simp [size]

@[simp] lemma size_append (value value' : Text) :
    size (value ++ value') = size value + size value' := by
  simp [size]

lemma utf8Size_pos (c : Nat) : 0 < utf8Size c := by
  grind [utf8Size]

lemma utf8Size_of_lt {c : Nat} (h : c < 0x80) : utf8Size c = 1 := if_pos h

/-- The text can be encoded if the other one can, and it is at most six times as long. -/
structure Fits (e d : Text) : Prop where
  surrogates : (∃ c ∈ e, isSurrogate c) → ∃ c ∈ d, isSurrogate c
  short : size e ≤ 6 * size d

namespace Fits
variable {e d e' d' : Text}

lemma refl (e : Text) : Fits e e := ⟨id, by omega⟩

lemma append (h : Fits e d) (h' : Fits e' d') : Fits (e ++ e') (d ++ d') := by
  constructor
  · rintro ⟨c, hc, surrogate⟩
    rcases List.mem_append.mp hc with hc | hc
    · obtain ⟨c', hc', surrogate'⟩ := h.surrogates ⟨c, hc, surrogate⟩
      exact ⟨c', List.mem_append_left _ hc', surrogate'⟩
    · obtain ⟨c', hc', surrogate'⟩ := h'.surrogates ⟨c, hc, surrogate⟩
      exact ⟨c', List.mem_append_right _ hc', surrogate'⟩
  · have := h.short
    have := h'.short
    simp only [size_append]
    omega

/-- ASCII that is short enough. -/
lemma of_ascii (ascii : ∀ c ∈ e, c < 0x80) (short : e.length ≤ 6 * size d) : Fits e d := by
  have bytes : size e = e.length := by
    clear short
    induction e with
    | nil => rfl
    | cons c e ih =>
      rw [size_cons, utf8Size_of_lt (ascii c List.mem_cons_self),
        ih fun d hd => ascii d (List.mem_cons_of_mem _ hd), List.length_cons]
      omega
  refine ⟨?_, by omega⟩
  rintro ⟨c, hc, surrogate⟩
  have := ascii c hc
  unfold isSurrogate at surrogate
  omega

end Fits

/-! ### Strings -/

lemma hexValue_lt {c n : Nat} (h : hexValue c = some n) : c < 0x80 := by
  have := (by decide : '9'.toNat = 57 ∧ 'f'.toNat = 102 ∧ 'F'.toNat = 70)
  unfold hexValue Text.within at h
  split_ifs at h with digit small large
  all_goals simp only [Bool.and_eq_true, decide_eq_true_eq] at *
  all_goals omega

lemma fourHex_ascii {digits : Text} {n : Nat} (h : fourHex digits = some (n, [])) :
    digits.length = 4 ∧ ∀ c ∈ digits, c < 0x80 := by
  match digits with
  | [] | [_] | [_, _] | [_, _, _] => cases h
  | a :: b :: c :: d :: rest =>
    simp only [fourHex, Option.bind_eq_bind, Option.bind_eq_some_iff, pure, Option.some.injEq,
      Prod.mk.injEq] at h
    obtain ⟨_, ha, _, hb, _, hc, _, hd, -, rfl⟩ := h
    refine ⟨rfl, ?_⟩
    simp only [List.forall_mem_cons, List.not_mem_nil, false_implies, implies_true, and_true]
    exact ⟨hexValue_lt ha, hexValue_lt hb, hexValue_lt hc, hexValue_lt hd⟩

lemma shortEscape_lt {c e : Nat} (h : shortEscape e = some c) : e < 0x80 := by
  have := (by decide : '"'.toNat = 34 ∧ '\\'.toNat = 92 ∧ '/'.toNat = 47 ∧ 'b'.toNat = 98 ∧
    'f'.toNat = 102 ∧ 'n'.toNat = 110 ∧ 'r'.toNat = 114 ∧ 't'.toNat = 116)
  unfold shortEscape at h
  split_ifs at h <;> omega

lemma dumpChar_eq_self {c : Nat} (h : 0x20 ≤ c) (quote : c ≠ '"'.toNat)
    (backslash : c ≠ '\\'.toNat) : dumpChar c = [c] := by
  grind [dumpChar]

lemma size_dumpChar_pos (c : Nat) : 0 < size (dumpChar c) := by
  have nonempty : ∀ value : Text, value ≠ [] → 0 < size value := by
    intro value hvalue
    cases value with
    | nil => exact (hvalue rfl).elim
    | cons c value =>
      have := utf8Size_pos c
      rw [size_cons]
      omega
  apply nonempty
  unfold dumpChar
  split_ifs <;> simp [text]

/-- A character is six times as long at most, and beyond the basic plane three times. -/
lemma SpellsChar.fits {c : Nat} {e : Text} (h : SpellsChar c e) : Fits e (dumpChar c) := by
  have least := size_dumpChar_pos c
  have escape : ∀ d ∈ text "\\u", d < 0x80 := by decide
  cases h with
  | raw printable quote backslash =>
    rw [dumpChar_eq_self printable quote backslash]
    exact .refl _
  | short short =>
    apply Fits.of_ascii
    · simp only [List.forall_mem_cons, List.not_mem_nil, false_implies, implies_true, and_true]
      exact ⟨by decide, shortEscape_lt short⟩
    · simp only [List.length_cons, List.length_nil]
      omega
  | unicode digits =>
    obtain ⟨length, ascii⟩ := fourHex_ascii digits
    apply Fits.of_ascii
    · exact List.forall_mem_append.mpr ⟨escape, ascii⟩
    · have : (text "\\u").length = 2 := by decide
      rw [List.length_append]
      omega
  | @pair high low _ _ digits digits' =>
    obtain ⟨length, ascii⟩ := fourHex_ascii digits
    obtain ⟨length', ascii'⟩ := fourHex_ascii digits'
    have astral : utf8Size (0x10000 + (high - 0xd800) * 0x400 + (low - 0xdc00)) = 4 := by
      grind [utf8Size]
    apply Fits.of_ascii
    · exact List.forall_mem_append.mpr ⟨List.forall_mem_append.mpr ⟨escape, ascii⟩,
        List.forall_mem_append.mpr ⟨escape, ascii'⟩⟩
    · have : (text "\\u").length = 2 := by decide
      have quote : '"'.toNat = 34 ∧ '\\'.toNat = 92 := by decide
      rw [dumpChar_eq_self (by omega) (by omega) (by omega)]
      simp only [List.length_append, size_cons, size_nil, astral]
      omega

lemma SpellsString.fits {value e : Text} (h : SpellsString value e) : Fits e (dumpString value) := by
  obtain ⟨parts, spelled, rfl⟩ := h
  have inner : Fits parts.flatten (value.flatMap dumpChar) := by
    induction spelled with
    | nil => exact .refl _
    | cons first _ ih => exact first.fits.append ih
  exact ((Fits.refl _).append inner).append (.refl _)

/-! ### Containers -/

/-- Every part and its comma are counted, but the last part has none. -/
lemma size_join_cons (part : Text) (parts : List Text) :
    size (Text.join (text ",") (part :: parts)) =
      size part + (parts.map fun part => size part + 1).sum := by
  have comma : size (text ",") = 1 := by decide
  induction parts generalizing part with
  | nil => simp [Text.join]
  | cons next parts ih =>
    rw [Text.join, size_append, size_append, ih, comma, List.map_cons, List.sum_cons]
    · omega
    · nofun

lemma size_join (parts : List Text) :
    size (Text.join (text ",") parts) = (parts.map fun part => size part + 1).sum - 1 := by
  cases parts with
  | nil => rfl
  | cons part parts =>
    rw [size_join_cons, List.map_cons, List.sum_cons]
    omega

lemma surrogate_join (parts : List Text) :
    (∃ c ∈ Text.join (text ",") parts, isSurrogate c) ↔
      ∃ part ∈ parts, ∃ c ∈ part, isSurrogate c := by
  have comma : ¬ isSurrogate 0x2c := by
    unfold isSurrogate
    decide
  have chars : text "," = [0x2c] := by decide
  induction parts with
  | nil => simp [Text.join]
  | cons part parts ih =>
    cases parts with
    | nil => simp [Text.join]
    | cons next parts =>
      rw [Text.join]
      · simp only [List.mem_append, or_and_right, exists_or, ih]
        simp [chars, comma]
      · nofun

/-- The parts fit one by one, in whatever order they are joined. -/
lemma Fits.join {es es' ds ds' : List Text} (h : List.Forall₂ Fits es ds) (perm : es.Perm es')
    (perm' : ds.Perm ds') :
    Fits (Text.join (text ",") es') (Text.join (text ",") ds') := by
  constructor
  · rw [surrogate_join, surrogate_join]
    rintro ⟨part, mem, c, hc⟩
    obtain ⟨part', mem', fits⟩ : ∃ part' ∈ ds, Fits part part' := by
      have mem := perm.mem_iff.mpr mem
      clear perm perm'
      induction h with
      | nil => cases mem
      | cons first _ ih =>
        rcases List.mem_cons.mp mem with rfl | mem
        · exact ⟨_, List.mem_cons_self, first⟩
        · obtain ⟨part', mem', fits⟩ := ih mem
          exact ⟨part', List.mem_cons_of_mem _ mem', fits⟩
    exact ⟨part', perm'.mem_iff.mp mem', fits.surrogates ⟨c, hc⟩⟩
  · have sums : (es.map fun part => size part + 1).sum ≤ 6 * (ds.map size).sum + ds.length ∧
        (ds.map fun part => size part + 1).sum = (ds.map size).sum + ds.length ∧
        (ds.length = 0 → (ds.map size).sum = 0) := by
      clear perm perm'
      induction h with
      | nil => simp
      | cons first _ ih =>
        have := first.short
        simp only [List.map_cons, List.sum_cons, List.length_cons]
        omega
    rw [size_join, size_join, ← (perm.map _).sum_nat, ← (perm'.map _).sum_nat]
    omega

/-! ### Values -/

lemma dumpMembers_eq_map (members : List (Text × Value)) :
    dumpMembers members =
      members.map fun member => dumpString member.1 ++ text ":" ++ dump member.2 := by
  induction members with
  | nil => rfl
  | cons member members ih => rw [dumpMembers, ih, List.map_cons]

section Values
variable {floatText : Text → Text}

mutual

/-- No spelling of a value is longer than six times what `json.dumps` writes. -/
theorem Spells.fits : ∀ {v : Value} {e : Text}, Spells floatText v e →
    Fits e (dump (v.sorted floatText))
  | .null, e, h => by
    rw [h]
    exact .refl _
  | .bool b, e, h => by
    rw [h]
    cases b <;> exact .refl _
  | .int n, e, h => by
    rw [h]
    exact .refl _
  | .float spelling, e, h => by
    rw [h]
    exact .refl _
  | .str value, e, h => SpellsString.fits h
  | .list items, e, ⟨parts, spelled, he⟩ => by
    rw [he]
    exact ((Fits.refl _).append (.join (SpellsItems.fits spelled) (.refl _) (.refl _))).append
      (.refl _)
  | .object members, e, ⟨parts, parts', spelled, perm, he⟩ => by
    have each := SpellsMembers.fits spelled
    have order := (List.perm_insertionSort (fun a b : Text × Value => a.1 ≤ b.1)
      (Value.sortedMembers floatText members)).symm
    rw [dumpMembers_eq_map] at each
    rw [he, Value.sorted, dump, dumpMembers_eq_map]
    exact ((Fits.refl _).append (.join each perm (order.map _))).append (.refl _)

theorem SpellsItems.fits : ∀ {items : List Value} {parts : List Text},
    SpellsItems floatText items parts →
    List.Forall₂ Fits parts (dumpItems (Value.sortedItems floatText items))
  | [], [], _ => .nil
  | _ :: _, _ :: _, ⟨first, rest⟩ => .cons (Spells.fits first) (SpellsItems.fits rest)

theorem SpellsMembers.fits : ∀ {members : List (Text × Value)} {parts : List Text},
    SpellsMembers floatText members parts →
    List.Forall₂ Fits parts (dumpMembers (Value.sortedMembers floatText members))
  | [], [], _ => .nil
  | (_, _) :: _, _ :: _, ⟨⟨_, _, name, value, part⟩, rest⟩ =>
    .cons (part ▸ (name.fits.append (.refl _)).append (Spells.fits value))
      (SpellsMembers.fits rest)

end

end Values

end Modall.Library.Json
