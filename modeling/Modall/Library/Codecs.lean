import Modall.Library.Text

/-!
# Bytes and text

The codecs of the Python standard library: UTF-8 with its error handlers, and the encodings that
`json.loads` tells apart when it is given bytes.
-/
namespace Modall.Library

abbrev ByteString := List UInt8

/-- The bytes of an ASCII literal. -/
def ascii (s : String) : ByteString := s.toList.map fun c => UInt8.ofNat c.toNat

/-! ## UTF-8 -/

/-- Where the decoder stands: between two characters, or inside one that is owed `more` bytes after
the next, which lies from `low` to `high`. -/
inductive Utf8 where
  | between
  | owing (more low high read : Nat)
  deriving DecidableEq

namespace Utf8

/-- The first byte of a character; `none` is a byte that starts none. The handler `surrogatepass`
lets an encoded surrogate through. -/
def first (surrogates : Bool) (b : Nat) : List (Option Nat) × Utf8 :=
  if b < 0x80 then ([some b], .between)
  else if 0xc2 ≤ b ∧ b ≤ 0xdf then ([], .owing 0 0x80 0xbf (b - 0xc0))
  else if b = 0xe0 then ([], .owing 1 0xa0 0xbf 0)
  else if b = 0xed then ([], .owing 1 0x80 (if surrogates then 0xbf else 0x9f) 0xd)
  else if 0xe1 ≤ b ∧ b ≤ 0xef then ([], .owing 1 0x80 0xbf (b - 0xe0))
  else if b = 0xf0 then ([], .owing 2 0x90 0xbf 0)
  else if 0xf1 ≤ b ∧ b ≤ 0xf3 then ([], .owing 2 0x80 0xbf (b - 0xf0))
  else if b = 0xf4 then ([], .owing 2 0x80 0x8f 4)
  else ([none], .between)

/-- One byte. A byte that does not go on with the character is read as a first byte, and what there
was of the character is one error. -/
def step (surrogates : Bool) : Utf8 → Nat → List (Option Nat) × Utf8
  | .between, b => first surrogates b
  | .owing more low high read, b =>
    if low ≤ b ∧ b ≤ high then
      match more with
      | 0 => ([some (read * 64 + (b - 0x80))], .between)
      | more + 1 => ([], .owing more 0x80 0xbf (read * 64 + (b - 0x80)))
    else (none :: (first surrogates b).1, (first surrogates b).2)

/-- The characters and the errors (`none`) of a byte string. -/
def units (surrogates : Bool) : Utf8 → ByteString → List (Option Nat)
  | .between, [] => []
  | .owing .., [] => [none]
  | state, b :: rest =>
    (state.step surrogates b.toNat).1 ++ units surrogates (state.step surrogates b.toNat).2 rest

end Utf8

/-- `value.decode("utf-8", errors="ignore")`. -/
def decodeIgnore (value : ByteString) : Text := (Utf8.units false .between value).reduceOption

/-- `value.decode("utf-8")`, or `none` for a `UnicodeDecodeError`. -/
def decodeStrict (value : ByteString) : Option Text := (Utf8.units false .between value).allSome

lemma decodeIgnore_cons {b : UInt8} (h : b.toNat < 0x80) (rest : ByteString) :
    decodeIgnore (b :: rest) = b.toNat :: decodeIgnore rest := by
  simp [decodeIgnore, Utf8.units, Utf8.step, Utf8.first, h, List.reduceOption]

lemma decodeStrict_cons {b : UInt8} (h : b.toNat < 0x80) (rest : ByteString) :
    decodeStrict (b :: rest) = (decodeStrict rest).map (b.toNat :: ·) := by
  simp only [decodeStrict, Utf8.units, Utf8.step, Utf8.first, h, if_true, List.cons_append,
    List.nil_append, List.allSome, List.mapM_cons, id_eq]
  cases List.mapM id (Utf8.units false .between rest) <;> rfl

/-- A character in UTF-8, or `none` for a surrogate. -/
def encodeChar (c : Nat) : Option ByteString :=
  if c < 0x80 then some [.ofNat c]
  else if c < 0x800 then some [.ofNat (0xc0 + c / 64), .ofNat (0x80 + c % 64)]
  else if 0xd800 ≤ c ∧ c < 0xe000 then none
  else if c < 0x10000 then
    some [.ofNat (0xe0 + c / 4096), .ofNat (0x80 + c / 64 % 64), .ofNat (0x80 + c % 64)]
  else
    some [.ofNat (0xf0 + c / 262144), .ofNat (0x80 + c / 4096 % 64), .ofNat (0x80 + c / 64 % 64),
      .ofNat (0x80 + c % 64)]

/-- `value.encode("utf-8")`, or `none` for a `UnicodeEncodeError`. -/
def encode (value : Text) : Option ByteString := (value.map encodeChar).allSome.map List.flatten

def isSurrogate (c : Nat) : Prop := 0xd800 ≤ c ∧ c < 0xe000

/-- The number of bytes of a character in UTF-8. -/
def utf8Size (c : Nat) : Nat :=
  if c < 0x80 then 1 else if c < 0x800 then 2 else if c < 0x10000 then 3 else 4

lemma encodeChar_eq_none_iff {c : Nat} : encodeChar c = none ↔ isSurrogate c := by
  grind [encodeChar, isSurrogate]

lemma length_encodeChar {c : Nat} {bytes : ByteString} (h : encodeChar c = some bytes) :
    bytes.length = utf8Size c := by
  unfold encodeChar at h
  unfold utf8Size
  split_ifs at h ⊢ <;> first | omega | (cases h; rfl)

lemma encode_nil : encode [] = some [] := rfl

lemma encode_cons (c : Nat) (value : Text) :
    encode (c :: value) = (encodeChar c).bind fun bytes => (encode value).map (bytes ++ ·) := by
  simp only [encode, List.map_cons, List.allSome, List.mapM_cons, id_eq]
  cases encodeChar c with
  | none => rfl
  | some bytes => cases (value.map encodeChar).mapM id <;> rfl

/-- A text can be encoded unless there is a surrogate in it. -/
lemma encode_eq_none_iff {value : Text} : encode value = none ↔ ∃ c ∈ value, isSurrogate c := by
  induction value with
  | nil => simp [encode_nil]
  | cons c value ih =>
    rw [encode_cons]
    cases first : encodeChar c with
    | none => simp [encodeChar_eq_none_iff.mp first]
    | some bytes =>
      have whole : ¬ isSurrogate c := by
        rw [← encodeChar_eq_none_iff, first]
        nofun
      simp [whole, ih]

lemma length_encode {value : Text} {bytes : ByteString} (h : encode value = some bytes) :
    bytes.length = (value.map utf8Size).sum := by
  induction value generalizing bytes with
  | nil =>
    cases h
    rfl
  | cons c value ih =>
    rw [encode_cons] at h
    obtain ⟨first, hfirst, rest⟩ := Option.bind_eq_some_iff.mp h
    obtain ⟨tail, htail, rfl⟩ := Option.map_eq_some_iff.mp rest
    rw [List.length_append, length_encodeChar hfirst, ih htail, List.map_cons, List.sum_cons]

/-- `value.encode("ascii")`, or `none` for a `UnicodeEncodeError`. -/
def encodeAscii (value : Text) : Option ByteString :=
  if value.all (· < 128) then some (value.map .ofNat) else none

lemma encodeAscii_eq_some {value : Text} (h : ∀ c ∈ value, c < 128) :
    encodeAscii value = some (value.map .ofNat) := by
  rw [encodeAscii, if_pos]
  simpa using h

/-- ASCII is one byte a character in UTF-8 as well. -/
lemma encode_of_ascii {value : Text} (h : ∀ c ∈ value, c < 128) :
    encode value = some (value.map .ofNat) := by
  induction value with
  | nil => rfl
  | cons c value ih =>
    have first : encodeChar c = some [.ofNat c] := if_pos (h c List.mem_cons_self)
    rw [encode_cons, first, ih fun d hd => h d (List.mem_cons_of_mem _ hd)]
    rfl

/-! ## UTF-16 and UTF-32 -/

/-- A number written in bytes, the highest first unless `little`. -/
def wordOf (little : Bool) (bytes : ByteString) : Nat :=
  (if little then bytes.reverse else bytes).foldl (fun n b => n * 256 + b.toNat) 0

/-- Numbers of two bytes each; `none` for an odd byte at the end. -/
def words16 (little : Bool) : ByteString → Option (List Nat)
  | [] => some []
  | [_] => none
  | a :: b :: rest => (words16 little rest).map (wordOf little [a, b] :: ·)

/-- Pairs of surrogates are one character; a lone one passes. -/
def joinSurrogates : List Nat → Text
  | [] => []
  | [c] => [c]
  | high :: low :: rest =>
    if 0xd800 ≤ high ∧ high < 0xdc00 ∧ 0xdc00 ≤ low ∧ low < 0xe000 then
      (0x10000 + (high - 0xd800) * 0x400 + (low - 0xdc00)) :: joinSurrogates rest
    else high :: joinSurrogates (low :: rest)

def decodeUtf16 (little : Bool) (value : ByteString) : Option Text :=
  (words16 little value).map joinSurrogates

def decodeUtf32 (little : Bool) : ByteString → Option Text
  | [] => some []
  | a :: b :: c :: d :: rest =>
    if wordOf little [a, b, c, d] < 0x110000 then
      (decodeUtf32 little rest).map (wordOf little [a, b, c, d] :: ·)
    else none
  | _ => none

/-! ## Detection -/

def decodeUtf8Pass (value : ByteString) : Option Text := (Utf8.units true .between value).allSome

/-- `value.decode(json.detect_encoding(value), "surrogatepass")`. -/
def decodeDetected (value : ByteString) : Option Text :=
  match value with
  | 0x00 :: 0x00 :: 0xfe :: 0xff :: rest => decodeUtf32 false rest
  | 0xff :: 0xfe :: 0x00 :: 0x00 :: rest => decodeUtf32 true rest
  | 0xfe :: 0xff :: rest => decodeUtf16 false rest
  | 0xff :: 0xfe :: rest => decodeUtf16 true rest
  | 0xef :: 0xbb :: 0xbf :: rest => decodeUtf8Pass rest
  | a :: b :: c :: d :: _ =>
    if a = 0 then if b = 0 then decodeUtf32 false value else decodeUtf16 false value
    else if b = 0 then if c = 0 ∧ d = 0 then decodeUtf32 true value else decodeUtf16 true value
    else decodeUtf8Pass value
  | [a, b] =>
    if a = 0 then decodeUtf16 false value
    else if b = 0 then decodeUtf16 true value
    else decodeUtf8Pass value
  | _ => decodeUtf8Pass value

end Modall.Library
