import Modall.Library.Scanning
import Modall.McpAdapter.ResponseStream

/-!
# The screen of an event next to the screen of a document

What the screen of a document rejects, the screen of an event rejects in a `data` field, as long as
the event decodes and is one line: the field's value is the document without the spaces in front of
it, which change nothing for the search through its JSON values.
-/
namespace Modall.McpAdapter

open Library Library.Json Library.Text Library.Regex Security

/-! ## Texts and their parts -/

lemma decodeStrict_append {front : ByteString} (h : ∀ b ∈ front, b.toNat < 0x80)
    (value : ByteString) :
    decodeStrict (front ++ value) = (decodeStrict value).map (front.map UInt8.toNat ++ ·) := by
  induction front with
  | nil => simp
  | cons b front ih =>
    obtain ⟨hb, hfront⟩ := List.forall_mem_cons.1 h
    rw [List.cons_append, decodeStrict_cons hb, ih hfront, Option.map_map]
    rfl

lemma ascii_data : ∀ b ∈ ascii "data: ", b.toNat < 0x80 := by
  have hall : (ascii "data: ").all (fun b => decide (b.toNat < 0x80)) = true := by decide
  simpa using hall

lemma decodeIgnore_of_decodeStrict {value : ByteString} {decoded : Text}
    (h : decodeStrict value = some decoded) : decodeIgnore value = decoded := by
  rw [decodeStrict] at h
  rw [decodeIgnore]
  generalize Utf8.units false .between value = units at h
  induction units generalizing decoded with
  | nil => cases h; rfl
  | cons c units ih =>
    simp only [List.allSome, List.mapM_cons, id_eq, Option.bind_eq_bind,
      Option.bind_eq_some_iff, Option.pure_def, Option.some.injEq] at h ih
    obtain ⟨c, rfl, rest, hrest, rfl⟩ := h
    exact congrArg (c :: ·) (ih hrest)

lemma splitlinesFrom_of_line {line value : Text} (h : ∀ c ∈ value, isBreak c = false)
    (hne : line ≠ [] ∨ value ≠ []) : splitlinesFrom line value = [line.reverse ++ value] := by
  induction value generalizing line with
  | nil => simp [splitlinesFrom, hne.resolve_right (by simp)]
  | cons c value ih =>
    obtain ⟨hc, hvalue⟩ := List.forall_mem_cons.1 h
    rw [splitlinesFrom, hc, if_neg Bool.false_ne_true, ih hvalue (.inl (by simp))]
    · simp
    · rintro rest rfl
      cases hc

namespace Interpreter
variable {I : Interpreter}

/-! ## Spaces in front of a text -/

/-- Whitespace behind the opening brace is skipped, at the price of fuel; another space is no
member. -/
lemma containsSensitiveMembers_cons {c : Nat} (hc : isspace c = true) (value : Text) :
    I.containsSensitiveMembers (c :: value) = I.containsSensitiveMembers value ∨
      I.containsSensitiveMembers (c :: value) = .ok false := by
  have happend : '\x7b'.toNat :: (c :: value) ++ ['\x7d'.toNat] =
    '\x7b'.toNat :: c :: (value ++ ['\x7d'.toNat]) := rfl
  by_cases hspace : isWhitespace c = true
  · left
    rw [containsSensitiveMembers, containsSensitiveMembers, happend, Decoder.decode_skip _ hspace]
    rfl
  · right
    have hquote : c ≠ '"'.toNat := by
      rintro rfl
      cases hc
    have hclose : c ≠ '\x7d'.toNat := by
      rintro rfl
      cases hc
    rw [containsSensitiveMembers, happend]
    obtain hdeep | ⟨position, hfailed⟩ := I.uniqueDecoder.decode_of_other
      (Bool.not_eq_true _ ▸ hspace) hquote hclose (value ++ ['\x7d'.toNat])
    · rw [hdeep]
    · rw [hfailed]

lemma containsSensitiveMembers_lstrip {value : Text}
    (h : I.containsSensitiveMembers value = .ok true) :
    I.containsSensitiveMembers (lstrip value) = .ok true := by
  induction value with
  | nil => exact h
  | cons c value ih =>
    by_cases hc : isspace c = true
    · have hlstrip : lstrip (c :: value) = lstrip value := List.dropWhile_cons_of_pos hc
      obtain hsame | hclean := containsSensitiveMembers_cons hc value
      · rw [hlstrip, ih (hsame ▸ h)]
      · rw [hclean] at h
        cases h
    · have hlstrip : lstrip (c :: value) = c :: value := List.dropWhile_cons_of_neg hc
      rwa [hlstrip]

lemma containsSensitiveMemberName_cons {c : Nat} (hc : isspace c = true) (value : Text) :
    I.containsSensitiveMemberName (c :: value) = I.containsSensitiveMemberName value := by
  have hquote : (c == '"'.toNat) = false := by
    rw [beq_eq_false_iff_ne]
    rintro rfl
    cases hc
  have hmatch : matchAt jsonMemberName [] (c :: value) = none := by
    rw [matchAt, jsonMemberName, Pattern.sequence, run, run]
    · dsimp only
      rw [hquote]
      rfl
    · intro h
      cases h
  have hfree : jsonMemberName.contextFree = true := by decide +kernel
  rw [containsSensitiveMemberName, findAll_cons hfree c value hmatch]
  rfl

lemma containsSensitiveMemberName_lstrip (value : Text) :
    I.containsSensitiveMemberName (lstrip value) = I.containsSensitiveMemberName value := by
  induction value with
  | nil => rfl
  | cons c value ih =>
    by_cases hc : isspace c = true
    · have hlstrip : lstrip (c :: value) = lstrip value := List.dropWhile_cons_of_pos hc
      rw [hlstrip, ih, containsSensitiveMemberName_cons hc]
    · have hlstrip : lstrip (c :: value) = c :: value := List.dropWhile_cons_of_neg hc
      rw [hlstrip]

/-- The loop looks at the whole text for member names only. -/
lemma scanValues_lstrip (value : Text) (fuel : Nat) (position : Text) :
    I.scanValues (lstrip value) fuel position = I.scanValues value fuel position := by
  induction fuel generalizing position with
  | zero => rfl
  | succ fuel ih =>
    rw [scanValues, scanValues]
    cases lstrip position with
    | nil => rfl
    | cons c rest => simp only [containsSensitiveMemberName_lstrip, ih]

/-! ## Screens that raise nothing -/

lemma containsSensitiveMembers_ok {value : Text} (h : ¬LongDigits value) :
    ∃ found, I.containsSensitiveMembers value = .ok found := by
  rw [containsSensitiveMembers]
  cases hdecode : I.uniqueDecoder.decode ('\x7b'.toNat :: value ++ ['\x7d'.toNat]) with
  | found member rest => exact ⟨_, rfl⟩
  | failed | refused | tooDeep => exact ⟨_, rfl⟩
  | tooLong =>
    have hlong := Decoder.longDigits_of_decode _ hdecode
    exact absurd ((hlong.of_cons (by decide)).of_concat (by decide)) h

lemma scanValues_ok {value : Text} (fuel : Nat) {position : Text} (h : ¬LongDigits position) :
    ∃ found, I.scanValues value fuel position = .ok found := by
  induction fuel generalizing position with
  | zero => exact ⟨_, rfl⟩
  | succ fuel ih =>
    have hlstrip : lstrip position <:+ position := List.dropWhile_suffix _
    rw [scanValues]
    cases hrest : lstrip position with
    | nil => exact ⟨_, rfl⟩
    | cons c rest =>
      rw [hrest] at hlstrip
      have hreads : (I.uniqueDecoder.rawDecode (c :: rest)).Reads (c :: rest) (c :: rest) :=
        (I.uniqueDecoder.scan_reads _).1 _ _
      have hmore : ∀ behind, behind <:+ c :: rest → ¬LongDigits behind :=
        fun behind hbehind hlong => h (hlong.of_infix (hbehind.trans hlstrip).isInfix)
      dsimp only
      cases hscan : I.uniqueDecoder.rawDecode (c :: rest) with
      | found parsed next =>
        rw [hscan] at hreads
        dsimp only
        split
        · exact ⟨_, rfl⟩
        · exact ih (hmore next hreads.1)
      | refused | tooDeep => exact ⟨_, rfl⟩
      | tooLong =>
        rw [hscan] at hreads
        exact absurd hreads (hmore _ List.suffix_rfl)
      | failed error =>
        rw [hscan] at hreads
        dsimp only
        split
        · exact ⟨_, rfl⟩
        · refine ih (hmore _ ?_)
          have hlater : later (c :: rest) error <:+ c :: rest := by
            unfold later
            split
            · exact List.suffix_rfl
            · exact hreads
          exact ((List.dropWhile_suffix _).trans (List.drop_suffix _ _)).trans hlater

/-- The search through a text raises nothing unless there are too many digits in a row. -/
lemma containsSensitiveJsonText_ok {value : Text} (h : ¬LongDigits value) :
    ∃ found, I.containsSensitiveJsonText value = .ok found := by
  obtain ⟨member, hmember⟩ := containsSensitiveMembers_ok (I := I) h
  rw [containsSensitiveJsonText, hmember]
  cases member with
  | true => exact ⟨true, rfl⟩
  | false => exact scanValues_ok _ h

/-- Spaces in front of a text hide nothing. -/
lemma containsSensitiveJsonText_lstrip {value : Text} (hdigits : ¬LongDigits value)
    (h : I.containsSensitiveJsonText value = .ok true) :
    I.containsSensitiveJsonText (lstrip value) = .ok true := by
  have hlstrip : lstrip (lstrip value) = lstrip value := List.dropWhile_idempotent _ value
  have hdigits' : ¬LongDigits (lstrip value) :=
    fun hlong => hdigits (hlong.of_infix (List.dropWhile_suffix _).isInfix)
  obtain ⟨member, hmember⟩ := containsSensitiveMembers_ok (I := I) hdigits
  obtain ⟨member', hmember'⟩ := containsSensitiveMembers_ok (I := I) hdigits'
  rw [containsSensitiveJsonText, hmember] at h
  rw [containsSensitiveJsonText, hmember', hlstrip]
  cases member with
  | true =>
    rw [containsSensitiveMembers_lstrip hmember] at hmember'
    cases hmember'
    rfl
  | false =>
    cases member' with
    | true => rfl
    | false =>
      have hposition : I.scanValues value ((lstrip value).length + 1) (lstrip value) =
          I.scanValues value ((lstrip value).length + 1) value := by
        rw [scanValues, scanValues, hlstrip]
      rw [scanValues_lstrip, hposition]
      exact h

/-! ## An event of one field -/

/-- The event `data: value`, which is one line. -/
lemma containsSensitiveSseEvent_data {value : ByteString} {decoded : Text}
    (hdecoded : decodeStrict value = some decoded) (hline : ∀ c ∈ decoded, isBreak c = false)
    (hdigits : ¬LongDigits decoded) (h : I.containsSensitiveJsonText decoded = .ok true) :
    I.containsSensitiveSseEvent (ascii "data: " ++ value) = .ok true := by
  have hascii : (ascii "data: ").map UInt8.toNat = text "data: " := by decide
  have hdecode : decodeStrict (ascii "data: " ++ value) = some (text "data: " ++ decoded) := by
    rw [decodeStrict_append ascii_data, hdecoded, hascii]
    rfl
  have hlines : splitlines (text "data: " ++ decoded) = [text "data: " ++ decoded] := by
    refine splitlinesFrom_of_line (fun c hc => ?_) (.inr (List.append_ne_nil_of_left_ne_nil
      (by decide) _))
    have hfront : ∀ c ∈ text "data: ", isBreak c = false := by decide
    exact (List.mem_append.1 hc).elim (hfront c) (hline c)
  have hfield : fieldValue (text "data: " ++ decoded) = lstrip decoded := rfl
  have hfields : [text "data: " ++ decoded].filter (·.contains ':'.toNat) =
      [text "data: " ++ decoded] := by
    have hcolon : (text "data: " ++ decoded).contains ':'.toNat = true := by simp [text]
    rw [List.filter_singleton, hcolon]
    rfl
  have hlong : ¬LongDigits (text "data: " ++ decoded) := by
    intro hlong
    have hpeeled : ∀ front : Text, (∀ c ∈ front, isDigit c = false) →
        LongDigits (front ++ decoded) → LongDigits decoded := by
      intro front hfront
      induction front with
      | nil => exact id
      | cons c front ih =>
        obtain ⟨hc, hrest⟩ := List.forall_mem_cons.1 hfront
        exact fun h => ih hrest (h.of_cons hc)
    exact hdigits (hpeeled _ (by decide) hlong)
  obtain ⟨found, hwhole⟩ := containsSensitiveJsonText_ok (I := I) hlong
  have hvalue := containsSensitiveJsonText_lstrip hdigits h
  rw [containsSensitiveSseEvent, hdecode]
  dsimp only
  split
  · rfl
  · rw [hlines, containsSensitiveLines, hfields]
    simp only [List.map_cons, List.map_nil, Screen.any, hwhole, hfield, hvalue]
    cases found <;> rfl

end Interpreter

/-- A line separator that is not one of the event stream's, here U+2028 in a member's name, does the
same. -/
example :
    let value := ascii "\x7b\"token" ++ [0xe2, 0x80, 0xa8] ++
      ascii "\":\"AbCdEfGhIjKlMnOpQrStUvWx\"\x7d"
    Interpreter.containsSensitiveJsonDocument ⟨id, 100⟩ value = .ok true ∧
      Interpreter.containsSensitiveSseEvent ⟨id, 100⟩ (ascii "data: " ++ value) = .ok false := by
  decide +kernel

end Modall.McpAdapter
