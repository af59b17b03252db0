import Modall.Api.Idempotency
import Modall.Library.Encoding

/-!
# Cursor codecs

The three codecs of `modall/api/contracts.py`: a UUID, an instant with a UUID, and a sequence
number, each as URL-safe base 64. A cursor is text the client hands back, so the decoders answer
anything else with `InvalidRequest`.
-/
namespace Modall.Api
open Library Library.Encoding

def invalidCursor : ApiFailure := .invalidRequest "invalid cursor"

/-- `value.bytes`. -/
def uuidBytes (value : Uuid) : List UInt8 := toBytes 16 value.toNat

/-- `UUID(bytes=...)`, which refuses any other length. -/
def uuidOfBytes (bytes : List UInt8) : Option Uuid :=
  if bytes.length = 16 then some (BitVec.ofNat 128 (ofBytes bytes)) else none

/-- The `except` clauses of the decoders. -/
def orInvalid {α : Type} : Option α → Except ApiFailure α
  | some value => .ok value
  | none => .error invalidCursor

/-! ## Identifiers -/

/-- `_encode_cursor`. -/
def encodeCursor (value : Uuid) : List Char := stripPadding (urlsafeB64encode (uuidBytes value))

/-- `_decode_cursor`. -/
def decodeCursor (value : List Char) : Except ApiFailure Uuid :=
  if value.length ≠ 22 then .error invalidCursor
  else orInvalid ((urlsafeB64decode false (value ++ "==".toList)).bind uuidOfBytes)

/-! ## Sequence numbers -/

/-- `int(text)` of ASCII text: spaces around it, a sign, digits and single underscores between
them. -/
def parseInt (text : List Char) : Option Int :=
  let isSpace := fun c : Char => c.toNat = 32 || (9 ≤ c.toNat && c.toNat ≤ 13)
  let digits := fun (ds : List Char) =>
    if (ds.splitOn '_').all fun group => group ≠ [] && group.all Char.isDigit then
      some (Nat.ofDigitChars 10 (ds.filter (· ≠ '_')) 0 : Int)
    else none
  match (text.dropWhile isSpace).rdropWhile isSpace with
  | '-' :: ds => (digits ds).map (- ·)
  | '+' :: ds => digits ds
  | ds => digits ds

/-- `bytes.decode("ascii")`. -/
def decodeAscii (bytes : List UInt8) : Option (List Char) :=
  if bytes.all (·.toNat < 128) then some (bytes.map fun byte => Char.ofNat byte.toNat) else none

/-- `_encode_sequence_cursor`. -/
def encodeSequenceCursor (value : Nat) : List Char :=
  stripPadding (urlsafeB64encode ((Nat.toDigits 10 value).map fun c => UInt8.ofNat c.toNat))

/-- `_decode_sequence_cursor`. -/
def decodeSequenceCursor (value : List Char) : Except ApiFailure Nat :=
  if ¬ (1 ≤ value.length ∧ value.length ≤ 16) then .error invalidCursor
  else
    match ((urlsafeB64decode false (pad value)).bind decodeAscii).bind parseInt with
    | none => .error invalidCursor
    | some sequence => if sequence < 1 then .error invalidCursor else .ok sequence.toNat

/-! ## Instants -/

/-- The instants a `datetime` can hold. -/
def IsDatetime (t : Time) : Prop := -62135596800000000 ≤ t ∧ t ≤ 253402300799999999

instance (t : Time) : Decidable (IsDatetime t) := inferInstanceAs (Decidable (_ ∧ _))

/-- `_encode_audit_cursor`: the days, seconds and microseconds of the difference to the epoch, as
eight signed bytes, and the identifier. -/
def encodeAuditCursor (cursor : Time × Uuid) : List Char :=
  let delta := cursor.1
  let microseconds := delta / 86400000000 * 86400000000 +
    delta % 86400000000 / 1000000 * 1000000 + delta % 1000000
  urlsafeB64encode (toBytes 8 (microseconds % 2 ^ 64).toNat ++ uuidBytes cursor.2)

/-- `int.from_bytes(payload, "big", signed=True)` of eight bytes. -/
def signedOfBytes (bytes : List UInt8) : Int :=
  if ofBytes bytes < 2 ^ 63 then ofBytes bytes else ofBytes bytes - 2 ^ 64

/-- `_decode_audit_cursor`. -/
def decodeAuditCursor (value : List Char) : Except ApiFailure (Time × Uuid) :=
  if value.length ≠ 32 then .error invalidCursor
  else
    match urlsafeB64decode true value with
    | none => .error invalidCursor
    | some payload =>
      if payload.length ≠ 24 then .error invalidCursor
      else if IsDatetime (signedOfBytes (payload.take 8)) then
        orInvalid ((uuidOfBytes (payload.drop 8)).map (signedOfBytes (payload.take 8), ·))
      else .error invalidCursor

/-! ## Round trips -/

lemma uuidOfBytes_uuidBytes (value : Uuid) : uuidOfBytes (uuidBytes value) = some value := by
  have hlt := value.isLt
  simp only [uuidOfBytes, uuidBytes, length_toBytes, if_true, ofBytes_toBytes]
  rw [Nat.mod_eq_of_lt (by simpa using hlt), BitVec.ofNat_toNat, BitVec.setWidth_eq]

theorem decodeCursor_encodeCursor (value : Uuid) : decodeCursor (encodeCursor value) = .ok value := by
  obtain ⟨hlength, hpad⟩ := urlsafe_stripped (uuidBytes value)
  have hsize : (encodeCursor value).length = 22 := by
    rw [encodeCursor, hlength, uuidBytes, length_toBytes]
  have hpadded : encodeCursor value ++ "==".toList = urlsafeB64encode (uuidBytes value) := by
    rw [← hpad, pad, ← encodeCursor, hsize]
    rfl
  rw [decodeCursor, if_neg (by simp [hsize]), hpadded, urlsafeB64decode_encode]
  simp [uuidOfBytes_uuidBytes, orInvalid]

lemma signedOfBytes_toBytes {t : Int} (h : IsDatetime t) :
    signedOfBytes (toBytes 8 (t % 2 ^ 64).toNat) = t := by
  have hlow : (-62135596800000000 : Int) ≤ t := h.1
  have hhigh : t ≤ (253402300799999999 : Int) := h.2
  have hvalue : ofBytes (toBytes 8 (t % 2 ^ 64).toNat) = (t % 2 ^ 64).toNat := by
    rw [ofBytes_toBytes, Nat.mod_eq_of_lt (by omega)]
  rw [signedOfBytes, hvalue]
  split <;> omega

theorem decodeAuditCursor_encodeAuditCursor (cursor : Time × Uuid) (h : IsDatetime cursor.1) :
    decodeAuditCursor (encodeAuditCursor cursor) = .ok cursor := by
  obtain ⟨t, value⟩ := cursor
  have hsum : ∀ t : Int, t / 86400000000 * 86400000000 + t % 86400000000 / 1000000 * 1000000 +
      t % 1000000 = t := by
    omega
  set payload := toBytes 8 (t % 2 ^ 64).toNat ++ uuidBytes value with hpayload
  have hencode : encodeAuditCursor (t, value) = urlsafeB64encode payload := by
    simp only [encodeAuditCursor, hsum, hpayload]
  have hsize : payload.length = 24 := by
    simp [hpayload, uuidBytes]
  have hlength : (urlsafeB64encode payload).length = 32 := by
    obtain ⟨data, pads, htext, hpads, -, hdata, hfour⟩ := b64encode_shape payload
    rw [urlsafeB64encode, List.length_map, htext, List.length_append, List.length_replicate]
    omega
  have htake : payload.take 8 = toBytes 8 (t % 2 ^ 64).toNat := by
    rw [hpayload, List.take_left' (length_toBytes _ _)]
  have hdrop : payload.drop 8 = uuidBytes value := by
    rw [hpayload, List.drop_left' (length_toBytes _ _)]
  rw [decodeAuditCursor, hencode, if_neg (by simp [hlength]), urlsafeB64decode_encode]
  simp only [hsize, ne_eq, not_true_eq_false, if_false, htake, hdrop, signedOfBytes_toBytes h,
    uuidOfBytes_uuidBytes]
  rw [if_pos h]
  rfl

lemma parseInt_digits {text : List Char} (hne : text ≠ []) (h : ∀ c ∈ text, c.isDigit) :
    parseInt text = some (Nat.ofDigitChars 10 text 0 : Int) := by
  have hspace : ∀ c : Char, c.isDigit → ¬ (c.toNat = 32 || (9 ≤ c.toNat && c.toNat ≤ 13)) := by
    intro c hc
    simp only [Char.isDigit, Bool.and_eq_true, decide_eq_true_eq] at hc
    have hlow : 48 ≤ c.toNat := hc.1
    simp only [Bool.or_eq_true, Bool.and_eq_true, decide_eq_true_eq]
    omega
  have hstart : text.dropWhile (fun c => c.toNat = 32 || (9 ≤ c.toNat && c.toNat ≤ 13)) = text := by
    cases text with
    | nil => rfl
    | cons c text => exact List.dropWhile_cons_of_neg (hspace c (h c (by simp)))
  have hstop : text.rdropWhile (fun c => c.toNat = 32 || (9 ≤ c.toNat && c.toNat ≤ 13)) = text := by
    rw [List.rdropWhile_eq_self_iff]
    exact fun hne => hspace _ (h _ (List.getLast_mem hne))
  have hword : ∀ c ∈ text, c ≠ '_' := by
    rintro c hc rfl
    exact absurd (h _ hc) (by decide)
  have hsplit : text.splitOn '_' = [text] :=
    List.splitOn_eq_singleton fun hmem => hword _ hmem rfl
  have hfilter : text.filter (· ≠ '_') = text :=
    List.filter_eq_self.mpr fun c hc => by simpa using hword c hc
  have hall : text.all Char.isDigit = true := by simpa using h
  simp only [parseInt, hstart, hstop]
  split
  · exact absurd (h '-' (by simp)) (by decide)
  · exact absurd (h '+' (by simp)) (by decide)
  · rw [if_pos (by simp [hsplit, hall, hne]), hfilter]

/-- ASCII text is its bytes. -/
lemma decodeAscii_encoded {text : List Char} (h : ∀ c ∈ text, c.isDigit) :
    decodeAscii (text.map fun c => UInt8.ofNat c.toNat) = some text := by
  have hsmall : ∀ c ∈ text, (UInt8.ofNat c.toNat).toNat = c.toNat ∧ c.toNat < 128 := by
    intro c hc
    have hdigit := h c hc
    simp only [Char.isDigit, Bool.and_eq_true, decide_eq_true_eq] at hdigit
    have hhigh : c.toNat ≤ 57 := hdigit.2
    rw [UInt8.toNat_ofNat']
    omega
  have hall : (text.map fun c => UInt8.ofNat c.toNat).all (·.toNat < 128) := by
    simp only [List.all_map, List.all_eq_true, Function.comp_apply, decide_eq_true_eq]
    intro c hc
    rw [(hsmall c hc).1]
    exact (hsmall c hc).2
  rw [decodeAscii, if_pos hall, List.map_map]
  congr 1
  refine (List.map_congr_left fun c hc => ?_).trans (List.map_id _)
  simp [(hsmall c hc).1]

theorem decodeSequenceCursor_encodeSequenceCursor {value : Nat} (hpos : 1 ≤ value)
    (hlt : value < 10 ^ 12) : decodeSequenceCursor (encodeSequenceCursor value) = .ok value := by
  set bytes := (Nat.toDigits 10 value).map fun c => UInt8.ofNat c.toNat with hbytes
  have hdigits : ∀ c ∈ Nat.toDigits 10 value, c.isDigit := fun c hc =>
    Nat.isDigit_of_mem_toDigits (by decide) (by decide) hc
  obtain ⟨hlength, hpad⟩ := urlsafe_stripped bytes
  have hcount : bytes.length = (Nat.toDigits 10 value).length := by simp [hbytes]
  have hfew : (Nat.toDigits 10 value).length ≤ 12 :=
    (Nat.length_toDigits_le_iff (by decide) (by decide)).mpr hlt
  have hsome : 0 < (Nat.toDigits 10 value).length := Nat.length_toDigits_pos
  have hsize : 1 ≤ (encodeSequenceCursor value).length ∧
      (encodeSequenceCursor value).length ≤ 16 := by
    rw [encodeSequenceCursor, ← hbytes, hlength]
    omega
  rw [decodeSequenceCursor, if_neg (by simpa using hsize), encodeSequenceCursor, ← hbytes, hpad,
    urlsafeB64decode_encode]
  simp only [Option.bind_some, hbytes, decodeAscii_encoded hdigits,
    parseInt_digits Nat.toDigits_ne_nil hdigits, Nat.ofDigitChars_ten_toDigits]
  rw [if_neg (by omega)]
  rfl

end Modall.Api
