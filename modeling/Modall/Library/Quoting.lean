import Mathlib
import Modall.Library.Codecs
import Modall.Library.Json

/-!
# Percent-encoding

`urllib.parse.unquote`, and that it undoes every percent-encoding of a text as UTF-8.
-/
namespace Modall.Library

/-- What a decoder still owes at the end of its input. -/
def Utf8.close : Utf8 → List (Option Nat)
  | .between => []
  | .owing .. => [none]

/-- The byte two hexadecimal digits spell. -/
def hexByte (high low : Nat) : Option Nat := do
  let high ← Json.hexValue high
  let low ← Json.hexValue low
  return high * 16 + low

/-- The characters and the errors (`none`) of `unquote`: runs of ASCII are bytes, in which a `%`
with two digits behind it is one byte, and each run is decoded by itself. -/
def unquoteUnits (state : Utf8) : Text → List (Option Nat)
  | [] => state.close
  | 0x25 :: a :: b :: rest =>
    match hexByte a b with
    | some byte => (state.step false byte).1 ++ unquoteUnits (state.step false byte).2 rest
    | none => (state.step false 0x25).1 ++ unquoteUnits (state.step false 0x25).2 (a :: b :: rest)
  | c :: rest =>
    if c < 0x80 then (state.step false c).1 ++ unquoteUnits (state.step false c).2 rest
    else state.close ++ some c :: unquoteUnits .between rest

/-- `unquote(value)`, where an error becomes a replacement character. -/
def unquote (value : Text) : Text := (unquoteUnits .between value).map (·.getD 0xfffd)

/-! ## Quoting -/

def hexDigit (n : Nat) : Nat := if n < 10 then '0'.toNat + n else 'A'.toNat + (n - 10)

def quoteByte (b : UInt8) : Text := ['%'.toNat, hexDigit (b.toNat / 16), hexDigit (b.toNat % 16)]

/-- A character that is quoted, unless it is `safe`; `none` for one that UTF-8 has no bytes for. -/
def quoteChar (safe : Nat → Bool) (c : Nat) : Option Text :=
  if c ≠ '%'.toNat ∧ safe c then some [c]
  else (encodeChar c).map (·.flatMap quoteByte)

/-- The percent-encoding of a text as UTF-8 that leaves the `safe` characters as they are. -/
def quote (safe : Nat → Bool) : Text → Option Text
  | [] => some []
  | c :: rest => do
    let quoted ← quoteChar safe c
    let others ← quote safe rest
    return quoted ++ others

/-! ## The round trip -/

lemma hexValue_hexDigit {n : Nat} (h : n < 16) : Json.hexValue (hexDigit n) = some n := by
  have hall : ∀ n < 16, Json.hexValue (hexDigit n) = some n := by decide
  exact hall n h

lemma hexByte_hexDigit (b : UInt8) :
    hexByte (hexDigit (b.toNat / 16)) (hexDigit (b.toNat % 16)) = some b.toNat := by
  have hlt := b.toNat_lt
  rw [hexByte, hexValue_hexDigit (by omega), hexValue_hexDigit (by omega)]
  exact congrArg some (by omega)

lemma unquoteUnits_quoteByte (state : Utf8) (b : UInt8) (rest : Text) :
    unquoteUnits state (quoteByte b ++ rest) =
      (state.step false b.toNat).1 ++ unquoteUnits (state.step false b.toNat).2 rest := by
  change unquoteUnits state (0x25 :: _ :: _ :: rest) = _
  rw [unquoteUnits, hexByte_hexDigit]

lemma toNat_ofNat_of_lt {n : Nat} (h : n < 256) : (UInt8.ofNat n).toNat = n := by
  simpa using h

namespace Utf8

lemma step_last {low high read b : Nat} (surrogates : Bool) (hlow : low ≤ b) (hhigh : b ≤ high) :
    step surrogates (.owing 0 low high read) b = ([some (read * 64 + (b - 0x80))], .between) := by
  simp [step, hlow, hhigh]

lemma step_more {more low high read b : Nat} (surrogates : Bool) (hlow : low ≤ b)
    (hhigh : b ≤ high) :
    step surrogates (.owing (more + 1) low high read) b =
      ([], .owing more 0x80 0xbf (read * 64 + (b - 0x80))) := by
  simp [step, hlow, hhigh]

lemma first_two {n : Nat} (hlow : 2 ≤ n) (hhigh : n < 32) :
    first false (0xc0 + n) = ([], .owing 0 0x80 0xbf n) := by
  interval_cases n <;> rfl

lemma first_three {n : Nat} (h : n < 16) :
    first false (0xe0 + n) =
      ([], .owing 1 (if n = 0 then 0xa0 else 0x80) (if n = 13 then 0x9f else 0xbf) n) := by
  interval_cases n <;> rfl

lemma first_four {n : Nat} (h : n < 5) :
    first false (0xf0 + n) =
      ([], .owing 2 (if n = 0 then 0x90 else 0x80) (if n = 4 then 0x8f else 0xbf) n) := by
  interval_cases n <;> rfl

end Utf8

/-- Decoding the bytes of one character gives that character and nothing else. -/
lemma unquoteUnits_encodeChar {c : Nat} {bytes : ByteString} (hc : c < 0x110000)
    (h : encodeChar c = some bytes) (rest : Text) :
    unquoteUnits .between (bytes.flatMap quoteByte ++ rest) =
      some c :: unquoteUnits .between rest := by
  unfold encodeChar at h
  split_ifs at h with hone htwo hsurrogate hthree
  · obtain rfl : [UInt8.ofNat c] = bytes := by simpa using h
    simp only [List.flatMap_cons, List.flatMap_nil, List.append_nil, unquoteUnits_quoteByte]
    rw [toNat_ofNat_of_lt (by omega)]
    simp [Utf8.step, Utf8.first, hone]
  · obtain rfl := Option.some.inj h
    simp only [List.flatMap_cons, List.flatMap_nil, List.append_nil, List.append_assoc,
      unquoteUnits_quoteByte]
    rw [toNat_ofNat_of_lt (by omega), toNat_ofNat_of_lt (by omega), Utf8.step,
      Utf8.first_two (by omega) (by omega), Utf8.step_last _ (by omega) (by omega)]
    simp only [List.nil_append, List.singleton_append, List.cons.injEq, Option.some.injEq, and_true]
    omega
  · obtain rfl := Option.some.inj h
    simp only [List.flatMap_cons, List.flatMap_nil, List.append_nil, List.append_assoc,
      unquoteUnits_quoteByte]
    rw [toNat_ofNat_of_lt (by omega), toNat_ofNat_of_lt (by omega), toNat_ofNat_of_lt (by omega),
      Utf8.step, Utf8.first_three (by omega), Utf8.step_more _ (by split <;> omega)
        (by split <;> omega), Utf8.step_last _ (by omega) (by omega)]
    simp only [List.nil_append, List.singleton_append, List.cons.injEq, Option.some.injEq, and_true]
    omega
  · obtain rfl := Option.some.inj h
    simp only [List.flatMap_cons, List.flatMap_nil, List.append_nil, List.append_assoc,
      unquoteUnits_quoteByte]
    rw [toNat_ofNat_of_lt (by omega), toNat_ofNat_of_lt (by omega), toNat_ofNat_of_lt (by omega),
      toNat_ofNat_of_lt (by omega), Utf8.step, Utf8.first_four (by omega),
      Utf8.step_more _ (by split <;> omega) (by split <;> omega),
      Utf8.step_more _ (by omega) (by omega), Utf8.step_last _ (by omega) (by omega)]
    simp only [List.nil_append, List.singleton_append, List.cons.injEq, Option.some.injEq, and_true]
    omega

lemma unquoteUnits_quoteChar {safe : Nat → Bool} {c : Nat} {quoted : Text} (hc : c < 0x110000)
    (h : quoteChar safe c = some quoted) (rest : Text) :
    unquoteUnits .between (quoted ++ rest) = some c :: unquoteUnits .between rest := by
  unfold quoteChar at h
  split_ifs at h with hsafe
  · obtain rfl : [c] = quoted := by simpa using h
    change unquoteUnits .between (c :: rest) = _
    rw [unquoteUnits]
    · by_cases hascii : c < 0x80
      · simp [hascii, Utf8.step, Utf8.first]
      · simp [hascii, Utf8.close]
    · intro a b rest' hcontra
      exact (hsafe.1 hcontra).elim
  · obtain ⟨bytes, hbytes, rfl⟩ := Option.map_eq_some_iff.1 h
    exact unquoteUnits_encodeChar hc hbytes rest

/-- What percent-encoding writes, `unquote` reads back. -/
theorem unquote_quote {safe : Nat → Bool} {value quoted : Text} (hvalue : ∀ c ∈ value, c < 0x110000)
    (h : quote safe value = some quoted) : unquote quoted = value := by
  suffices hunits : unquoteUnits .between quoted = value.map some by
    simp [unquote, hunits, Function.comp_def]
  induction value generalizing quoted with
  | nil =>
    obtain rfl : [] = quoted := by simpa [quote] using h
    rfl
  | cons c value ih =>
    simp only [quote, Option.bind_eq_bind, Option.bind_eq_some_iff, Option.pure_def,
      Option.some.injEq] at h
    obtain ⟨first, hfirst, others, hothers, rfl⟩ := h
    rw [unquoteUnits_quoteChar (hvalue c List.mem_cons_self) hfirst,
      ih (fun d hd => hvalue d (List.mem_cons_of_mem _ hd)) hothers, List.map_cons]

end Modall.Library
