import Mathlib

/-!
# Rounding to significant digits and decimal text

`roundSig b p n` is the natural number `n` rounded, half to even, to `p` significant digits in
base `b`: with `b = 2`, `p = 53` it is how a double stores an integer, with `b = 10` it is what
the format `%.pg` prints. `format` writes that number down, `parse` reads a number back.
-/
namespace Modall.Library.Decimal

/-! ## Rounding -/

/-- `n / b ^ e`, rounded half to even. -/
def shiftRound (b n e : Nat) : Nat :=
  let quotient := n / b ^ e
  let remainder := n % b ^ e
  if b ^ e < 2 * remainder ∨ (2 * remainder = b ^ e ∧ quotient % 2 = 1) then quotient + 1
  else quotient

/-- Mantissa and exponent of `n` rounded to `p` significant digits in base `b`. -/
def roundSig (b p n : Nat) : Nat × Nat :=
  let excess := (Nat.toDigits b n).length - p
  let mantissa := shiftRound b n excess
  if mantissa = b ^ p then (b ^ (p - 1), excess + 1) else (mantissa, excess)

/-- The number `roundSig` stands for. -/
def rounded (b p n : Nat) : Nat :=
  (roundSig b p n).1 * b ^ (roundSig b p n).2

def roundedInt (b p : Nat) (z : Int) : Int :=
  if z < 0 then -(rounded b p z.natAbs : Int) else rounded b p z.natAbs

/-- `n` is some number below `b ^ p` with zeros after it. -/
def Significant (b p n : Nat) : Prop :=
  ∃ mantissa exponent, mantissa < b ^ p ∧ n = mantissa * b ^ exponent

section rounding
variable {b p n : Nat}

lemma shiftRound_of_dvd (hb : 1 < b) {e : Nat} (h : b ^ e ∣ n) : shiftRound b n e = n / b ^ e := by
  have hzero : n % b ^ e = 0 := Nat.mod_eq_zero_of_dvd h
  have hpos : 0 < b ^ e := Nat.pow_pos (by omega)
  simp only [shiftRound, hzero]
  grind

lemma lt_pow_excess (hb : 1 < b) (hp : 0 < p) :
    n < b ^ (p + ((Nat.toDigits b n).length - p)) := by
  apply (Nat.length_toDigits_le_iff hb (by omega)).mp
  omega

lemma shiftRound_le (hb : 1 < b) (hp : 0 < p) :
    shiftRound b n ((Nat.toDigits b n).length - p) ≤ b ^ p := by
  have hlt : n / b ^ ((Nat.toDigits b n).length - p) < b ^ p := by
    apply Nat.div_lt_of_lt_mul
    rw [← pow_add, Nat.add_comm]
    exact lt_pow_excess hb hp
  grind [shiftRound]

lemma mantissa_lt (hb : 1 < b) (hp : 0 < p) : (roundSig b p n).1 < b ^ p := by
  have hle := shiftRound_le (n := n) hb hp
  have hpow : b ^ (p - 1) < b ^ p := Nat.pow_lt_pow_right hb (by omega)
  grind [roundSig]

/-- A number of few significant digits is its own rounding. -/
lemma rounded_of_significant (hb : 1 < b) (hp : 0 < p) (h : Significant b p n) :
    rounded b p n = n := by
  obtain ⟨mantissa, exponent, hlt, rfl⟩ := h
  set n := mantissa * b ^ exponent with hn
  set excess := (Nat.toDigits b n).length - p with hexcess
  have hle : excess ≤ exponent := by
    have hbound : n < b ^ (p + exponent) := by
      rw [pow_add]
      exact Nat.mul_lt_mul_of_pos_right hlt (Nat.pow_pos (by omega))
    have := (Nat.length_toDigits_le_iff hb (by omega)).mpr hbound
    omega
  have hdvd : b ^ excess ∣ n := (pow_dvd_pow b hle).trans (dvd_mul_left _ _)
  have hquotient : n / b ^ excess < b ^ p := by
    apply Nat.div_lt_of_lt_mul
    rw [← pow_add, Nat.add_comm]
    exact lt_pow_excess hb hp
  have hround : roundSig b p n = (n / b ^ excess, excess) := by
    simp only [roundSig, ← hexcess, shiftRound_of_dvd hb hdvd]
    rw [if_neg (by omega)]
  rw [rounded, hround]
  exact Nat.div_mul_cancel hdvd

theorem rounded_eq_iff (hb : 1 < b) (hp : 0 < p) : rounded b p n = n ↔ Significant b p n := by
  constructor
  · intro h
    exact ⟨_, _, mantissa_lt hb hp, h.symm⟩
  · exact rounded_of_significant hb hp

theorem roundedInt_eq_iff (hb : 1 < b) (hp : 0 < p) (z : Int) :
    roundedInt b p z = z ↔ Significant b p z.natAbs := by
  rw [← rounded_eq_iff hb hp, roundedInt]
  split <;> omega

end rounding

/-! ## Text -/

/-- A mantissa and an exponent as `d.ddde+XX`, without trailing zeros. -/
def scientific (digits : List Char) (exponent : Nat) : List Char :=
  let kept := digits.rdropWhile (· == '0')
  let point := if kept.tail = [] then [] else '.' :: kept.tail
  let exponentDigits := Nat.toDigits 10 exponent
  let padding := if exponentDigits.length < 2 then ['0'] else []
  kept.take 1 ++ point ++ 'e' :: '+' :: (padding ++ exponentDigits)

/-- `%.pg` of a natural number. -/
def formatNat (p n : Nat) : List Char :=
  let digits := Nat.toDigits 10 (roundSig 10 p n).1
  let exponent := digits.length - 1 + (roundSig 10 p n).2
  if exponent < p then Nat.toDigits 10 (rounded 10 p n) else scientific digits exponent

/-- `%.pg` of an integer. -/
def format (p : Nat) (z : Int) : List Char :=
  if z < 0 then '-' :: formatNat p z.natAbs else formatNat p z.natAbs

def parseNat (text : List Char) : Option Nat :=
  if text ≠ [] ∧ text.all Char.isDigit then some (Nat.ofDigitChars 10 text 0) else none

/-- What stands after the mantissa: nothing, or `e` with a signed number. -/
def parseExponent : List Char → Option Int
  | [] => some 0
  | 'e' :: '+' :: digits => (parseNat digits).map Int.ofNat
  | 'e' :: '-' :: digits => (parseNat digits).map fun n => -(n : Int)
  | 'e' :: digits => (parseNat digits).map Int.ofNat
  | _ => none

/-- The digits after a decimal point, if there is one, and what follows them. -/
def splitFraction : List Char → List Char × List Char
  | '.' :: rest => (rest.takeWhile Char.isDigit, rest.dropWhile Char.isDigit)
  | rest => ([], rest)

def parseUnsigned (text : List Char) : Option ℚ := do
  let whole := text.takeWhile Char.isDigit
  let (fraction, rest) := splitFraction (text.dropWhile Char.isDigit)
  let mantissa ← parseNat (whole ++ fraction)
  let exponent ← parseExponent rest
  return mantissa * 10 ^ (exponent - fraction.length)

/-- Reads a decimal number, with its sign. -/
def parse : List Char → Option ℚ
  | '-' :: text => (parseUnsigned text).map (- ·)
  | '+' :: text => parseUnsigned text
  | text => parseUnsigned text

lemma isDigit_toDigits (n : Nat) : ∀ c ∈ Nat.toDigits 10 n, c.isDigit :=
  fun _ h => Nat.isDigit_of_mem_toDigits (by decide) (by decide) h

lemma parseNat_eq {text : List Char} (hne : text ≠ []) (h : ∀ c ∈ text, c.isDigit) :
    parseNat text = some (Nat.ofDigitChars 10 text 0) := by
  rw [parseNat, if_pos ⟨hne, by simpa using h⟩]

lemma parseNat_toDigits (n : Nat) : parseNat (Nat.toDigits 10 n) = some n := by
  rw [parseNat_eq Nat.toDigits_ne_nil (isDigit_toDigits n), Nat.ofDigitChars_ten_toDigits]

lemma parseNat_padded (n : Nat) : parseNat ('0' :: Nat.toDigits 10 n) = some n := by
  have hdigits : ∀ c ∈ '0' :: Nat.toDigits 10 n, c.isDigit := by
    intro c hc
    rcases List.mem_cons.mp hc with rfl | hc
    · decide
    · exact isDigit_toDigits n c hc
  rw [parseNat_eq (by simp) hdigits]
  simp [Nat.ofDigitChars_cons]

lemma takeWhile_digits {digits : List Char} (h : ∀ c ∈ digits, c.isDigit) (rest : List Char)
    (hrest : ∀ c ∈ rest.head?, ¬ c.isDigit) :
    (digits ++ rest).takeWhile Char.isDigit = digits ∧
      (digits ++ rest).dropWhile Char.isDigit = rest := by
  have hstop : rest.takeWhile Char.isDigit = [] ∧ rest.dropWhile Char.isDigit = rest := by
    cases rest with
    | nil => simp
    | cons c rest => simp_all
  rw [List.takeWhile_append_of_pos h, List.dropWhile_append_of_pos h, hstop.1, hstop.2]
  simp

/-- A whole number is read back as it stands. -/
lemma parseUnsigned_toDigits (n : Nat) : parseUnsigned (Nat.toDigits 10 n) = some (n : ℚ) := by
  have hsplit := takeWhile_digits (isDigit_toDigits n) [] (by simp)
  simp only [List.append_nil] at hsplit
  simp [parseUnsigned, hsplit, splitFraction, parseNat_toDigits, parseExponent]

lemma parseExponent_scientific (exponent : Nat) :
    parseExponent ('e' :: '+' :: ((if (Nat.toDigits 10 exponent).length < 2 then ['0'] else []) ++
      Nat.toDigits 10 exponent)) = some (exponent : Int) := by
  split <;> simp [parseExponent, parseNat_toDigits, parseNat_padded]

/-- Stripping the zeros at the end divides by a power of ten. -/
lemma ofDigitChars_stripped (digits : List Char) :
    ∃ zeros, digits.length = (digits.rdropWhile (· == '0')).length + zeros ∧
      Nat.ofDigitChars 10 digits 0 =
        Nat.ofDigitChars 10 (digits.rdropWhile (· == '0')) 0 * 10 ^ zeros := by
  induction digits using List.reverseRecOn with
  | nil => exact ⟨0, by simp⟩
  | append_singleton digits c ih =>
    by_cases hc : c = '0'
    · obtain ⟨zeros, hlength, hvalue⟩ := ih
      refine ⟨zeros + 1, ?_, ?_⟩
      · simp [hc, hlength, Nat.add_assoc]
      · simp only [Nat.ofDigitChars_append, hvalue, hc, List.rdropWhile_concat, beq_self_eq_true,
          if_true, Nat.ofDigitChars_cons, Nat.ofDigitChars_nil]
        simp only [Nat.sub_self, pow_succ]
        ring
    · exact ⟨0, by simp [hc]⟩

/-- Digits, possibly a point among them, and an exponent are read back together. -/
lemma parseUnsigned_parts {whole fraction tail : List Char} {exponent : Int} (hne : whole ≠ [])
    (hwhole : ∀ c ∈ whole, c.isDigit) (hfraction : ∀ c ∈ fraction, c.isDigit)
    (hread : parseExponent ('e' :: tail) = some exponent) :
    parseUnsigned (whole ++ ((if fraction = [] then [] else '.' :: fraction) ++ 'e' :: tail)) =
      some ((Nat.ofDigitChars 10 (whole ++ fraction) 0 : ℚ) *
        10 ^ (exponent - fraction.length)) := by
  have hstop : ∀ c ∈ ('e' :: tail).head?, ¬ c.isDigit := by simp
  have hparse : parseNat (whole ++ fraction) =
      some (Nat.ofDigitChars 10 (whole ++ fraction) 0) := by
    refine parseNat_eq (by simp [hne]) fun c hc => ?_
    rcases List.mem_append.mp hc with hc | hc
    · exact hwhole c hc
    · exact hfraction c hc
  by_cases hnone : fraction = []
  · subst hnone
    obtain ⟨htake, hdrop⟩ := takeWhile_digits hwhole _ hstop
    simp only [List.append_nil] at hparse
    simp [parseUnsigned, htake, hdrop, splitFraction, hparse, hread]
  · obtain ⟨htake, hdrop⟩ :=
      takeWhile_digits hwhole ('.' :: (fraction ++ 'e' :: tail)) (by simp)
    obtain ⟨hinner, hafter⟩ := takeWhile_digits hfraction _ hstop
    simp only [parseUnsigned, if_neg hnone, List.cons_append, htake, hdrop, splitFraction, hinner,
      hafter]
    simp [hparse, hread]

/-- The scientific form of some digits is read back as those digits times a power of ten. -/
lemma parseUnsigned_scientific {digits : List Char} (hdigits : ∀ c ∈ digits, c.isDigit)
    (hvalue : 0 < Nat.ofDigitChars 10 digits 0) (excess : Nat) :
    parseUnsigned (scientific digits (digits.length - 1 + excess)) =
      some (Nat.ofDigitChars 10 digits 0 * 10 ^ excess : ℚ) := by
  obtain ⟨zeros, hlength, hstripped⟩ := ofDigitChars_stripped digits
  have hkept : ∀ c ∈ digits.rdropWhile (· == '0'), c.isDigit :=
    fun c hc => hdigits c ((List.rdropWhile_prefix _ _).subset hc)
  cases hcase : digits.rdropWhile (· == '0') with
  | nil =>
    rw [hstripped, hcase] at hvalue
    simp at hvalue
  | cons first others =>
    rw [hcase] at hkept hstripped hlength
    have hread := parseExponent_scientific (digits.length - 1 + excess)
    have hparts := parseUnsigned_parts (List.cons_ne_nil first [])
      (by simpa using hkept first (by simp))
      (fun c (hc : c ∈ others) => hkept c (by simp [hc])) hread
    have hscale : (10 : ℚ) ^ (((digits.length - 1 + excess : Nat) : Int) - others.length) =
        10 ^ zeros * 10 ^ excess := by
      rw [← pow_add, ← zpow_natCast]
      congr 1
      simp only [List.length_cons] at hlength
      omega
    have htext : scientific digits (digits.length - 1 + excess) = [first] ++
        ((if others = [] then [] else '.' :: others) ++ 'e' :: '+' ::
          ((if (Nat.toDigits 10 (digits.length - 1 + excess)).length < 2 then ['0'] else []) ++
            Nat.toDigits 10 (digits.length - 1 + excess))) := by
      simp [scientific, hcase]
    rw [htext, hparts, hscale, hstripped]
    push_cast
    rw [List.singleton_append, mul_assoc]

section format
variable {p : Nat}

/-- Only a number of at most `p` digits can have the mantissa zero. -/
lemma mantissa_pos (hp : 0 < p) {n : Nat} (h : 0 < (roundSig 10 p n).2) :
    0 < (roundSig 10 p n).1 := by
  by_cases hexcess : (Nat.toDigits 10 n).length - p = 0
  · have hexact : shiftRound 10 n 0 = n := by simp [shiftRound_of_dvd]
    simp only [roundSig, hexcess, hexact] at h ⊢
    split
    · exact Nat.pow_pos (by decide)
    case isFalse hne => simp [hne] at h
  · have hlarge : 10 ^ ((Nat.toDigits 10 n).length - 1) ≤ n := by
      by_contra hlt
      have := (Nat.length_toDigits_le_iff (b := 10) (n := n)
        (k := (Nat.toDigits 10 n).length - 1) (by decide) (by omega)).mpr (by omega)
      omega
    have hpow : 10 ^ ((Nat.toDigits 10 n).length - p) ≤ 10 ^ ((Nat.toDigits 10 n).length - 1) :=
      Nat.pow_le_pow_right (by decide) (by omega)
    have hquotient : 0 < n / 10 ^ ((Nat.toDigits 10 n).length - p) :=
      Nat.div_pos (hpow.trans hlarge) (Nat.pow_pos (by decide))
    have hpower : 0 < 10 ^ (p - 1) := Nat.pow_pos (by decide)
    grind [roundSig, shiftRound]

lemma parseUnsigned_formatNat (hp : 0 < p) (n : Nat) :
    parseUnsigned (formatNat p n) = some (rounded 10 p n : ℚ) := by
  simp only [formatNat]
  split
  · exact parseUnsigned_toDigits _
  case isFalse hlarge =>
    have hlength : (Nat.toDigits 10 (roundSig 10 p n).1).length ≤ p :=
      (Nat.length_toDigits_le_iff (by decide) hp).mpr (mantissa_lt (by decide) hp)
    have hpos := mantissa_pos (n := n) hp (by omega)
    have h := parseUnsigned_scientific (isDigit_toDigits (roundSig 10 p n).1)
      (by simpa using hpos) (roundSig 10 p n).2
    simpa [rounded] using h

lemma isDigit_of_mem_scientific {digits : List Char} {exponent : Nat} {c : Char}
    (hdigits : ∀ c ∈ digits, c.isDigit) (h : c ∈ scientific digits exponent) :
    c.isDigit ∨ c ∈ ['-', '.', 'e', '+'] := by
  have hkept : c ∈ digits.rdropWhile (· == '0') → c.isDigit :=
    fun hc => hdigits c ((List.rdropWhile_prefix _ _).subset hc)
  have hexponent := isDigit_toDigits exponent c
  simp only [scientific, List.mem_append, List.mem_cons] at h
  rcases h with (h | h) | rfl | rfl | h | h
  · exact .inl (hkept (List.mem_of_mem_take h))
  · split at h
    · simp at h
    · rcases List.mem_cons.mp h with rfl | h
      · exact .inr (by decide)
      · exact .inl (hkept (List.mem_of_mem_tail h))
  · exact .inr (by decide)
  · exact .inr (by decide)
  · split at h
    · obtain rfl : c = '0' := by simpa using h
      exact .inl rfl
    · simp at h
  · exact .inl (hexponent h)

/-- The characters of a printed number. -/
lemma isDigit_of_mem_format {z : Int} {c : Char} (h : c ∈ format p z) :
    c.isDigit ∨ c ∈ ['-', '.', 'e', '+'] := by
  have hnat : c ∈ formatNat p z.natAbs → c.isDigit ∨ c ∈ ['-', '.', 'e', '+'] := by
    intro hmem
    simp only [formatNat] at hmem
    split at hmem
    · exact .inl (isDigit_toDigits _ c hmem)
    · exact isDigit_of_mem_scientific (isDigit_toDigits _) hmem
  grind [format]

/-- A text that is a number without a sign does not begin with one. -/
lemma parse_of_unsigned {text : List Char} {q : ℚ} (h : parseUnsigned text = some q) :
    parse text = some q := by
  unfold parse
  split
  · simp [parseUnsigned, splitFraction, parseNat] at h
  · simp [parseUnsigned, splitFraction, parseNat] at h
  · exact h

/-- What `format` prints is read back as the rounded number. -/
theorem parse_format (hp : 0 < p) (z : Int) :
    parse (format p z) = some (roundedInt 10 p z : ℚ) := by
  have hnat := parseUnsigned_formatNat hp z.natAbs
  rw [format, roundedInt]
  split
  · simp [parse, hnat]
  · simpa using parse_of_unsigned hnat

end format

end Modall.Library.Decimal
