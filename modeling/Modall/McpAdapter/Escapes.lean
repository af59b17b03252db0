import Mathlib
import Modall.Library.Codecs

/-!
# The incremental escape decoder

The screen of a response also reads it with its visible JSON escapes decoded. The decoder goes
byte by byte and keeps an unfinished escape between two chunks, so what it has decoded depends only
on the bytes and not on the chunks they came in.
-/
namespace Modall.McpAdapter
open Library

/-! ## The decoder -/

def quote : UInt8 := 0x22
def backslash : UInt8 := 0x5c
def solidus : UInt8 := 0x2f
/-- The `u` of a unicode escape. -/
def letterU : UInt8 := 0x75
def zero : UInt8 := 0x30

/-- `_SHORT_ESCAPES`. -/
def shortEscapes : List (UInt8 × UInt8) :=
  [(quote, quote), (backslash, backslash), (solidus, solidus), (0x62, 8), (0x66, 12), (0x6e, 10),
    (0x72, 13), (0x74, 9)]

def hexDigit (b : UInt8) : Option Nat :=
  if 0x30 ≤ b ∧ b ≤ 0x39 then some (b.toNat - 0x30)
  else if 0x61 ≤ b ∧ b ≤ 0x66 then some (b.toNat - 0x61 + 10)
  else if 0x41 ≤ b ∧ b ≤ 0x46 then some (b.toNat - 0x41 + 10)
  else none

/-- A byte that `int` strips. -/
def isBlank (b : UInt8) : Bool := (0x09 ≤ b && b ≤ 0x0d) || b == 0x20

/-- `int(value, 16)` of two bytes: besides two digits it takes one digit with a sign or a blank. -/
def intBase16 (a b : UInt8) : Option Int :=
  match hexDigit a, hexDigit b with
  | some high, some low => some (high * 16 + low)
  | some high, none => if isBlank b then some high else none
  | none, some low =>
    if isBlank a || a == 0x2b then some low else if a == 0x2d then some (-low) else none
  | none, none => none

/-- The byte an escape of six bytes stands for, if the decoder decodes it. -/
def visibleEscape : ByteString → Option UInt8
  | [_, _, x, y, a, b] =>
    match intBase16 a b with
    | some n => if x = zero ∧ y = zero ∧ 0 ≤ n ∧ n ≤ 127 then some (.ofNat n.toNat) else none
    | none => none
  | _ => none

/-- One byte after the escape `pending`: what is pending then, and what it decodes to. -/
def decodeByte (pending : ByteString) (byte : UInt8) : ByteString × ByteString :=
  if pending.isEmpty then if byte = backslash then ([byte], []) else ([], [byte])
  else if pending.length = 1 then
    match shortEscapes.lookup byte with
    | some decoded => ([], [decoded])
    | none => if byte = letterU then (pending ++ [byte], []) else ([], pending ++ [byte])
  else if pending.length = 5 then
    match visibleEscape (pending ++ [byte]) with
    | some decoded => ([], [decoded])
    | none => ([], pending ++ [byte])
  else (pending ++ [byte], [])

/-- `_IncrementalJsonEscapeDecoder.feed`. -/
def decodeEscapes (pending : ByteString) : ByteString → ByteString × ByteString
  | [] => (pending, [])
  | byte :: value =>
    let (pending, decoded) := decodeByte pending byte
    let (pending, more) := decodeEscapes pending value
    (pending, decoded ++ more)

/-- Decoding goes on where it stopped. -/
theorem decodeEscapes_append (pending a b : ByteString) :
    decodeEscapes pending (a ++ b) =
      ((decodeEscapes (decodeEscapes pending a).1 b).1,
        (decodeEscapes pending a).2 ++ (decodeEscapes (decodeEscapes pending a).1 b).2) := by
  induction a generalizing pending with
  | nil => simp [decodeEscapes]
  | cons byte a ih => simp [decodeEscapes, ih]

/-! ## Spellings -/

/-- The ways to write a visible character in a JSON string. -/
inductive SpellsChar : UInt8 → ByteString → Prop where
  | raw {c : UInt8} : c ≠ quote → c ≠ backslash → SpellsChar c [c]
  | short {c : UInt8} : c = quote ∨ c = backslash ∨ c = solidus → SpellsChar c [backslash, c]
  | unicode {c high low : UInt8} : hexDigit high = some (c.toNat / 16) →
      hexDigit low = some (c.toNat % 16) →
      SpellsChar c [backslash, letterU, zero, zero, high, low]

/-- Every character in one of its ways. -/
inductive Spells : ByteString → ByteString → Prop where
  | nil : Spells [] []
  | cons {c : UInt8} {value spelled rest : ByteString} : SpellsChar c spelled → Spells value rest →
      Spells (c :: value) (spelled ++ rest)

/-- The bytes do not end inside an escape. -/
inductive OutsideEscape : ByteString → Prop where
  | nil : OutsideEscape []
  | plain {b : UInt8} {rest : ByteString} : b ≠ backslash → OutsideEscape rest →
      OutsideEscape (b :: rest)
  | short {b : UInt8} {rest : ByteString} : b ≠ letterU → OutsideEscape rest →
      OutsideEscape (backslash :: b :: rest)
  | unicode {a b c d : UInt8} {rest : ByteString} : OutsideEscape rest →
      OutsideEscape (backslash :: letterU :: a :: b :: c :: d :: rest)

lemma decodeByte_backslash : decodeByte [] backslash = ([backslash], []) := rfl

lemma decodeByte_plain {b : UInt8} (hb : b ≠ backslash) : decodeByte [] b = ([], [b]) := by
  simp [decodeByte, hb]

lemma decodeByte_second (first b : UInt8) : decodeByte [first] b =
    match shortEscapes.lookup b with
    | some decoded => ([], [decoded])
    | none => if b = letterU then ([first, b], []) else ([], [first, b]) := rfl

/-- The six bytes of a unicode escape. -/
lemma decodeEscapes_unicode (a b c d : UInt8) (rest : ByteString) :
    decodeEscapes [] (backslash :: letterU :: a :: b :: c :: d :: rest) =
      ((decodeEscapes [] rest).1,
        ((visibleEscape [backslash, letterU, a, b, c, d]).elim
          [backslash, letterU, a, b, c, d] fun decoded => [decoded]) ++
          (decodeEscapes [] rest).2) := by
  have hfour : decodeEscapes [] (backslash :: letterU :: a :: b :: c :: d :: rest) =
      decodeEscapes [backslash, letterU, a, b, c] (d :: rest) := rfl
  have hlast : decodeByte [backslash, letterU, a, b, c] d =
      ([], (visibleEscape [backslash, letterU, a, b, c, d]).elim
        [backslash, letterU, a, b, c, d] fun decoded => [decoded]) := by
    simp only [decodeByte, List.isEmpty_cons, Bool.false_eq_true, if_false, List.length_cons,
      List.length_nil, Nat.reduceAdd, Nat.reduceEqDiff, List.cons_append, List.nil_append, if_true]
    cases visibleEscape [backslash, letterU, a, b, c, d] <;> rfl
  rw [hfour, decodeEscapes, hlast]

/-- Outside an escape nothing is pending. -/
lemma OutsideEscape.pending_eq_nil {value : ByteString} (h : OutsideEscape value) :
    (decodeEscapes [] value).1 = [] := by
  induction h with
  | nil => rfl
  | plain hb _ ih => simp [decodeEscapes, decodeByte_plain hb, ih]
  | @short b rest hb _ ih =>
    simp only [decodeEscapes, decodeByte_backslash, decodeByte_second, if_neg hb]
    cases shortEscapes.lookup b <;> exact ih
  | unicode _ ih => rw [decodeEscapes_unicode, ih]

lemma visibleEscape_eq {c high low : UInt8} (hhigh : hexDigit high = some (c.toNat / 16))
    (hlow : hexDigit low = some (c.toNat % 16)) (hc : c.toNat ≤ 127) :
    visibleEscape [backslash, letterU, zero, zero, high, low] = some c := by
  have hvalue : intBase16 high low = some (c.toNat : Int) := by
    simp only [intBase16, hhigh, hlow, Option.some.injEq]
    omega
  have hbound : (c.toNat : Int) ≤ 127 := by omega
  simp [visibleEscape, hvalue, hbound]

/-- A spelling decodes to the character. -/
lemma SpellsChar.decodeEscapes {c : UInt8} {spelled : ByteString} (h : SpellsChar c spelled)
    (hc : c.toNat ≤ 127) (rest : ByteString) :
    McpAdapter.decodeEscapes [] (spelled ++ rest) =
      ((McpAdapter.decodeEscapes [] rest).1, c :: (McpAdapter.decodeEscapes [] rest).2) := by
  cases h with
  | raw _ hbackslash => simp [McpAdapter.decodeEscapes, decodeByte_plain hbackslash]
  | short hshort =>
    have hlookup : shortEscapes.lookup c = some c := by
      obtain rfl | rfl | rfl := hshort <;> rfl
    simp [McpAdapter.decodeEscapes, decodeByte_backslash, decodeByte_second, hlookup]
  | unicode hhigh hlow =>
    simp only [List.cons_append, List.nil_append]
    rw [decodeEscapes_unicode, visibleEscape_eq hhigh hlow hc]
    rfl

/-- A spelled value decodes to the value. -/
lemma Spells.decodeEscapes {value spelled : ByteString} (h : Spells value spelled)
    (hvalue : ∀ c ∈ value, c.toNat ≤ 127) : McpAdapter.decodeEscapes [] spelled = ([], value) := by
  induction h with
  | nil => rfl
  | cons hchar _ ih =>
    rw [hchar.decodeEscapes (hvalue _ (by simp)), ih fun c hc => hvalue c (by simp [hc])]

/-- Wherever a spelled value stands outside an escape, the decoded bytes contain the value. -/
theorem infix_decodeEscapes {before value spelled after : ByteString}
    (hbefore : OutsideEscape before) (h : Spells value spelled)
    (hvalue : ∀ c ∈ value, c.toNat ≤ 127) :
    value <:+: (decodeEscapes [] (before ++ spelled ++ after)).2 := by
  rw [List.append_assoc, decodeEscapes_append, hbefore.pending_eq_nil, decodeEscapes_append,
    h.decodeEscapes hvalue]
  exact ⟨_, _, List.append_assoc _ _ _⟩

end Modall.McpAdapter
