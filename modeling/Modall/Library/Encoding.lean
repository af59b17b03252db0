import Mathlib

/-!
# Big-endian integers and base 64

`toBytes` and `ofBytes` write a natural number as a fixed number of bytes, the highest first.
`b64encode` and `a2bBase64` follow the base 64 functions of the Python standard library: the
decoder reads its text character by character, and outside strict mode it skips what it does not
know.
-/
namespace Modall.Library.Encoding

/-! ## Big-endian integers -/

def toBytes : Nat → Nat → List UInt8
  | 0, _ => []
  | size + 1, n => toBytes size (n / 256) ++ [UInt8.ofNat (n % 256)]

def ofBytes (bytes : List UInt8) : Nat := bytes.foldl (fun n byte => n * 256 + byte.toNat) 0

@[simp] lemma length_toBytes (size n : Nat) : (toBytes size n).length = size := by
  induction size generalizing n with
  | zero => rfl
  | succ size ih => simp [toBytes, ih]

lemma ofBytes_append (bytes : List UInt8) (byte : UInt8) :
    ofBytes (bytes ++ [byte]) = ofBytes bytes * 256 + byte.toNat := by
  simp [ofBytes]

theorem ofBytes_toBytes (size n : Nat) : ofBytes (toBytes size n) = n % 256 ^ size := by
  induction size generalizing n with
  | zero => simp [toBytes, ofBytes, Nat.mod_one]
  | succ size ih =>
    have hbyte : (UInt8.ofNat (n % 256)).toNat = n % 256 := by simp
    rw [toBytes, ofBytes_append, ih, hbyte, Nat.pow_succ', Nat.mod_mul]
    omega

/-! ## Base 64 -/

def alphabet : List Char :=
  "ABCDEFGHIJKLMNOPQRSTUVWXYZabcdefghijklmnopqrstuvwxyz0123456789+/".toList

/-- The character of a six-bit number. -/
def sextetChar (n : Nat) : Char := alphabet.getD n 'A'

/-- The six-bit number of a character. -/
def sextet (c : Char) : Option Nat := alphabet.idxOf? c

def b64encode : List UInt8 → List Char
  | [] => []
  | [a] => [sextetChar (a.toNat / 4), sextetChar (a.toNat % 4 * 16), '=', '=']
  | [a, b] =>
    [sextetChar (a.toNat / 4), sextetChar (a.toNat % 4 * 16 + b.toNat / 16),
      sextetChar (b.toNat % 16 * 4), '=']
  | a :: b :: c :: rest =>
    sextetChar (a.toNat / 4) :: sextetChar (a.toNat % 4 * 16 + b.toNat / 16) ::
      sextetChar (b.toNat % 16 * 4 + c.toNat / 64) :: sextetChar (c.toNat % 64) :: b64encode rest

/-- `binascii.a2b_base64` after some characters: the position in the group of four, the bits left
over, the padding characters in a row and whether there has been one. -/
def a2bBase64 (strict : Bool) (position left pads : Nat) (padded : Bool) :
    List Char → Option (List UInt8)
  | [] => if position = 0 then some [] else none
  | c :: rest =>
    if c = '=' then
      if strict ∧ position = 0 then none
      else if 2 ≤ position then
        if 4 ≤ position + (pads + 1) then if strict ∧ rest ≠ [] then none else some []
        else a2bBase64 strict position left (pads + 1) true rest
      else a2bBase64 strict position left pads true rest
    else match sextet c with
      | none => if strict then none else a2bBase64 strict position left pads padded rest
      | some n =>
        if strict ∧ padded then none
        else match position with
          | 0 => a2bBase64 strict 1 n 0 padded rest
          | 1 => (a2bBase64 strict 2 (n % 16) 0 padded rest).map
              (UInt8.ofNat (left * 4 + n / 16) :: ·)
          | 2 => (a2bBase64 strict 3 (n % 4) 0 padded rest).map
              (UInt8.ofNat (left * 16 + n / 4) :: ·)
          | _ => (a2bBase64 strict 0 0 0 padded rest).map (UInt8.ofNat (left * 64 + n) :: ·)

lemma sextet_sextetChar {n : Nat} (h : n < 64) : sextet (sextetChar n) = some n := by
  have hall : ∀ n : Fin 64, sextet (sextetChar n) = some n.val := by decide +kernel
  exact hall ⟨n, h⟩

lemma sextetChar_ne_pad {n : Nat} (h : n < 64) : sextetChar n ≠ '=' := by
  have hall : ∀ n : Fin 64, sextetChar n ≠ '=' := by decide +kernel
  exact hall ⟨n, h⟩

section steps
variable {strict : Bool} {left pads n : Nat} {rest : List Char}

lemma a2bBase64_first (h : n < 64) :
    a2bBase64 strict 0 left pads false (sextetChar n :: rest) =
      a2bBase64 strict 1 n 0 false rest := by
  rw [a2bBase64]
  simp [sextetChar_ne_pad h, sextet_sextetChar h]

lemma a2bBase64_second (h : n < 64) :
    a2bBase64 strict 1 left pads false (sextetChar n :: rest) =
      (a2bBase64 strict 2 (n % 16) 0 false rest).map (UInt8.ofNat (left * 4 + n / 16) :: ·) := by
  rw [a2bBase64]
  simp [sextetChar_ne_pad h, sextet_sextetChar h]

lemma a2bBase64_third (h : n < 64) :
    a2bBase64 strict 2 left pads false (sextetChar n :: rest) =
      (a2bBase64 strict 3 (n % 4) 0 false rest).map (UInt8.ofNat (left * 16 + n / 4) :: ·) := by
  rw [a2bBase64]
  simp [sextetChar_ne_pad h, sextet_sextetChar h]

lemma a2bBase64_fourth (h : n < 64) :
    a2bBase64 strict 3 left pads false (sextetChar n :: rest) =
      (a2bBase64 strict 0 0 0 false rest).map (UInt8.ofNat (left * 64 + n) :: ·) := by
  rw [a2bBase64]
  simp [sextetChar_ne_pad h, sextet_sextetChar h]

end steps

lemma ofNat_eq {byte : UInt8} {n : Nat} (h : n = byte.toNat) : UInt8.ofNat n = byte := by
  rw [h, UInt8.ofNat_toNat]

/-- The decoder reads back what was encoded, in either mode. -/
theorem a2bBase64_b64encode (strict : Bool) (left pads : Nat) (bytes : List UInt8) :
    a2bBase64 strict 0 left pads false (b64encode bytes) = some bytes := by
  have hsize : ∀ byte : UInt8, byte.toNat < 256 := fun byte => byte.toNat_lt
  induction bytes using b64encode.induct generalizing left pads with
  | case1 => simp [b64encode, a2bBase64]
  | case2 a =>
    have ha := hsize a
    have hfirst : UInt8.ofNat (a.toNat / 4 * 4 + a.toNat % 4 * 16 / 16) = a :=
      ofNat_eq (by omega)
    rw [b64encode, a2bBase64_first (by omega), a2bBase64_second (by omega), hfirst]
    simp [a2bBase64]
  | case3 a b =>
    have ha := hsize a
    have hb := hsize b
    have hfirst : UInt8.ofNat (a.toNat / 4 * 4 + (a.toNat % 4 * 16 + b.toNat / 16) / 16) = a :=
      ofNat_eq (by omega)
    have hsecond : UInt8.ofNat ((a.toNat % 4 * 16 + b.toNat / 16) % 16 * 16 +
        b.toNat % 16 * 4 / 4) = b := ofNat_eq (by omega)
    rw [b64encode, a2bBase64_first (by omega), a2bBase64_second (by omega),
      a2bBase64_third (by omega), hfirst, hsecond]
    simp [a2bBase64]
  | case4 a b c rest ih =>
    have ha := hsize a
    have hb := hsize b
    have hc := hsize c
    have hfirst : UInt8.ofNat (a.toNat / 4 * 4 + (a.toNat % 4 * 16 + b.toNat / 16) / 16) = a :=
      ofNat_eq (by omega)
    have hsecond : UInt8.ofNat ((a.toNat % 4 * 16 + b.toNat / 16) % 16 * 16 +
        (b.toNat % 16 * 4 + c.toNat / 64) / 4) = b := ofNat_eq (by omega)
    have hthird : UInt8.ofNat ((b.toNat % 16 * 4 + c.toNat / 64) % 4 * 64 + c.toNat % 64) = c :=
      ofNat_eq (by omega)
    rw [b64encode, a2bBase64_first (by omega), a2bBase64_second (by omega),
      a2bBase64_third (by omega), a2bBase64_fourth (by omega), ih, hfirst, hsecond, hthird]
    rfl

/-! ## Padding -/

/-- `rstrip("=")`. -/
def stripPadding (text : List Char) : List Char := text.rdropWhile (· == '=')

/-- The text padded to a multiple of four, as before `rstrip`. -/
def pad (text : List Char) : List Char :=
  text ++ List.replicate ((4 - text.length % 4) % 4) '='

/-- An encoding is its data characters and less than four padding characters. -/
lemma b64encode_shape (bytes : List UInt8) :
    ∃ data pads, b64encode bytes = data ++ List.replicate pads '=' ∧ pads < 4 ∧
      (∀ c ∈ data, ∃ n < 64, c = sextetChar n) ∧ data.length = (bytes.length * 4 + 2) / 3 ∧
      (data.length + pads) % 4 = 0 := by
  have hsize : ∀ byte : UInt8, byte.toNat < 256 := fun byte => byte.toNat_lt
  induction bytes using b64encode.induct with
  | case1 => exact ⟨[], 0, by simp [b64encode]⟩
  | case2 a =>
    have ha := hsize a
    refine ⟨[_, _], 2, rfl, by decide, ?_, by simp, by simp⟩
    simp only [List.mem_cons, List.not_mem_nil, or_false, forall_eq_or_imp, forall_eq]
    exact ⟨⟨_, by omega, rfl⟩, ⟨_, by omega, rfl⟩⟩
  | case3 a b =>
    have ha := hsize a
    have hb := hsize b
    refine ⟨[_, _, _], 1, rfl, by decide, ?_, by simp, by simp⟩
    simp only [List.mem_cons, List.not_mem_nil, or_false, forall_eq_or_imp, forall_eq]
    exact ⟨⟨_, by omega, rfl⟩, ⟨_, by omega, rfl⟩, ⟨_, by omega, rfl⟩⟩
  | case4 a b c rest ih =>
    have ha := hsize a
    have hb := hsize b
    have hc := hsize c
    obtain ⟨data, pads, htext, hpads, hdata, hlength, hfour⟩ := ih
    refine ⟨_ :: _ :: _ :: _ :: data, pads, by rw [b64encode, htext]; rfl, hpads, ?_, ?_, ?_⟩
    · simp only [List.forall_mem_cons]
      exact ⟨⟨_, by omega, rfl⟩, ⟨_, by omega, rfl⟩, ⟨_, by omega, rfl⟩, ⟨_, by omega, rfl⟩, hdata⟩
    · simp only [List.length_cons]
      omega
    · simp only [List.length_cons]
      omega

lemma stripPadding_append {data : List Char} (hdata : ∀ c ∈ data, c ≠ '=') (pads : Nat) :
    stripPadding (data ++ List.replicate pads '=') = data := by
  induction pads with
  | zero =>
    rw [stripPadding, List.replicate_zero, List.append_nil, List.rdropWhile_eq_self_iff]
    intro hne
    simpa using hdata _ (List.getLast_mem hne)
  | succ pads ih =>
    rw [stripPadding] at ih ⊢
    rw [List.replicate_succ', ← List.append_assoc, List.rdropWhile_concat_pos _ _ _ rfl]
    exact ih

/-- What is left of an encoding without its padding: how long it is, what it is made of, and that
padding it again gives the encoding back. -/
lemma stripPadding_shape (bytes : List UInt8) :
    (stripPadding (b64encode bytes)).length = (bytes.length * 4 + 2) / 3 ∧
      (∀ c ∈ stripPadding (b64encode bytes), ∃ n < 64, c = sextetChar n) ∧
      pad (stripPadding (b64encode bytes)) = b64encode bytes := by
  obtain ⟨data, pads, htext, hpads, hdata, hlength, hfour⟩ := b64encode_shape bytes
  have hstrip : stripPadding (b64encode bytes) = data := by
    rw [htext]
    apply stripPadding_append
    intro c hc
    obtain ⟨n, hn, rfl⟩ := hdata c hc
    exact sextetChar_ne_pad hn
  have hcount : (4 - data.length % 4) % 4 = pads := by omega
  rw [hstrip]
  exact ⟨hlength, hdata, by rw [pad, hcount, htext]⟩

/-! ## The alphabet for URLs -/

def toUrlSafe (c : Char) : Char := if c = '+' then '-' else if c = '/' then '_' else c

def ofUrlSafe (c : Char) : Char := if c = '-' then '+' else if c = '_' then '/' else c

/-- `base64.urlsafe_b64encode`. -/
def urlsafeB64encode (bytes : List UInt8) : List Char := (b64encode bytes).map toUrlSafe

/-- `base64.urlsafe_b64decode`, or in strict mode `base64.b64decode` with these `altchars`. -/
def urlsafeB64decode (strict : Bool) (text : List Char) : Option (List UInt8) :=
  if text.all (·.toNat < 128) then a2bBase64 strict 0 0 0 false (text.map ofUrlSafe) else none

lemma ofUrlSafe_toUrlSafe {n : Nat} (h : n < 64) :
    ofUrlSafe (toUrlSafe (sextetChar n)) = sextetChar n ∧
      (toUrlSafe (sextetChar n)).toNat < 128 := by
  have hall : ∀ n : Fin 64, ofUrlSafe (toUrlSafe (sextetChar n)) = sextetChar n ∧
      (toUrlSafe (sextetChar n)).toNat < 128 := by
    decide +kernel
  exact hall ⟨n, h⟩

theorem urlsafeB64decode_encode (strict : Bool) (bytes : List UInt8) :
    urlsafeB64decode strict (urlsafeB64encode bytes) = some bytes := by
  obtain ⟨data, pads, htext, -, hdata, -, -⟩ := b64encode_shape bytes
  have hchars : ∀ c ∈ b64encode bytes,
      ofUrlSafe (toUrlSafe c) = c ∧ (toUrlSafe c).toNat < 128 := by
    intro c hc
    rw [htext, List.mem_append] at hc
    rcases hc with hc | hc
    · obtain ⟨n, hn, rfl⟩ := hdata c hc
      exact ofUrlSafe_toUrlSafe hn
    · obtain rfl := List.eq_of_mem_replicate hc
      decide
  have hall : (urlsafeB64encode bytes).all (·.toNat < 128) := by
    simpa [urlsafeB64encode] using fun c hc => (hchars c hc).2
  have hback : (urlsafeB64encode bytes).map ofUrlSafe = b64encode bytes := by
    rw [urlsafeB64encode, List.map_map]
    exact (List.map_congr_left fun c hc => (hchars c hc).1).trans (List.map_id _)
  rw [urlsafeB64decode, if_pos hall, hback, a2bBase64_b64encode]

lemma stripPadding_map (text : List Char) :
    stripPadding (text.map toUrlSafe) = (stripPadding text).map toUrlSafe := by
  have hpad : ∀ c, toUrlSafe c = '=' ↔ c = '=' := by
    grind [toUrlSafe]
  induction text using List.reverseRecOn with
  | nil => rfl
  | append_singleton text c ih =>
    by_cases hc : c = '='
    · simp_all [stripPadding]
    · simp_all [stripPadding]

/-- An encoding without its padding: how long it is, and that it can be read back. -/
theorem urlsafe_stripped (bytes : List UInt8) :
    (stripPadding (urlsafeB64encode bytes)).length = (bytes.length * 4 + 2) / 3 ∧
      pad (stripPadding (urlsafeB64encode bytes)) = urlsafeB64encode bytes := by
  obtain ⟨hlength, -, hpad⟩ := stripPadding_shape bytes
  refine ⟨by rw [urlsafeB64encode, stripPadding_map, List.length_map, hlength], ?_⟩
  rw [urlsafeB64encode, stripPadding_map]
  have hequals : toUrlSafe '=' = '=' := rfl
  conv_rhs => rw [← hpad]
  simp [pad, hequals]

/-- No padding is left in it. -/
theorem mem_urlsafe_stripped {bytes : List UInt8} {c : Char}
    (h : c ∈ stripPadding (urlsafeB64encode bytes)) : ∃ n < 64, c = toUrlSafe (sextetChar n) := by
  rw [urlsafeB64encode, stripPadding_map] at h
  obtain ⟨d, hd, rfl⟩ := List.mem_map.mp h
  obtain ⟨n, hn, rfl⟩ := (stripPadding_shape bytes).2.1 d hd
  exact ⟨n, hn, rfl⟩

/-- Different bytes have different encodings, without their padding too. -/
theorem urlsafe_stripped_injective {bytes bytes' : List UInt8}
    (h : stripPadding (urlsafeB64encode bytes) = stripPadding (urlsafeB64encode bytes')) :
    bytes = bytes' := by
  have padded : urlsafeB64encode bytes = urlsafeB64encode bytes' := by
    rw [← (urlsafe_stripped bytes).2, h, (urlsafe_stripped bytes').2]
  have decoded := urlsafeB64decode_encode true bytes
  rw [padded, urlsafeB64decode_encode] at decoded
  exact (Option.some.inj decoded).symm

end Modall.Library.Encoding
