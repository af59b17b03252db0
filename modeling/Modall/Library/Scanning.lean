import Mathlib
import Modall.Library.Json

/-!
# What the JSON decoder reads

Decoding leaves a shorter end of its text, or fails at an end of it, and gives up on an integer only
when the text has as many digits in a row. More fuel than decoding needs changes nothing.
-/
namespace Modall.Library.Json

open Text

variable {β γ : Type}

/-- More digits in a row than the interpreter converts to an integer. -/
def LongDigits (value : Text) : Prop :=
  ∃ run, run <:+: value ∧ (∀ c ∈ run, isDigit c = true) ∧ maxStrDigits < run.length

lemma LongDigits.of_infix {value value' : Text} (h : LongDigits value) (hinside : value <:+: value') :
    LongDigits value' := by
  obtain ⟨run, hrun, hdigits, hlong⟩ := h
  exact ⟨run, hrun.trans hinside, hdigits, hlong⟩

lemma LongDigits.of_cons {c : Nat} {value : Text} (hc : isDigit c = false)
    (h : LongDigits (c :: value)) : LongDigits value := by
  obtain ⟨run, hrun, hdigits, hlong⟩ := h
  refine ⟨run, (List.infix_cons_iff.1 hrun).resolve_left fun hprefix => ?_, hdigits, hlong⟩
  match run with
  | [] => simp at hlong
  | d :: run =>
    obtain rfl := (List.cons_prefix_cons.1 hprefix).1
    rw [hdigits d (by simp)] at hc
    cases hc

lemma LongDigits.of_concat {c : Nat} {value : Text} (hc : isDigit c = false)
    (h : LongDigits (value ++ [c])) : LongDigits value := by
  obtain ⟨run, hrun, hdigits, hlong⟩ := h
  refine ⟨run, (List.infix_concat_iff.1 hrun).resolve_left fun hsuffix => ?_, hdigits, hlong⟩
  obtain hnil | ⟨run', last, rfl⟩ := List.eq_nil_or_concat run
  · simp [hnil] at hlong
  · obtain ⟨front, hfront⟩ := hsuffix
    have hlast : last = c := by
      have := congrArg List.getLast? hfront
      simpa using this
    rw [← hlast, hdigits last (by simp)] at hc
    cases hc

namespace Scan

/-- A scan of `s`, which ends `whole`. -/
def Reads (whole s : Text) : Scan β → Prop
  | .found _ rest => rest <:+ s ∧ rest.length < s.length
  | .failed position => position <:+ whole
  | .tooLong => LongDigits whole
  | .refused => True
  | .tooDeep => True

lemma Reads.mono {whole whole' s s' : Text} {scan : Scan β} (h : scan.Reads whole s)
    (hwhole : whole <:+ whole') (hs : s <:+ s') : scan.Reads whole' s' := by
  cases scan with
  | found value rest => exact ⟨h.1.trans hs, h.2.trans_le hs.length_le⟩
  | failed position => exact List.IsSuffix.trans h hwhole
  | tooLong => exact LongDigits.of_infix h hwhole.isInfix
  | refused | tooDeep => trivial

/-- A scan that goes on. -/
lemma Reads.bind {whole s s' : Text} {scan : Scan β} {next : β → Text → Scan γ}
    (h : scan.Reads whole s)
    (hnext : ∀ value rest, rest <:+ s → rest.length < s.length →
      (next value rest).Reads whole s') : (scan.bind next).Reads whole s' := by
  cases scan with
  | found value rest => exact hnext value rest h.1 h.2
  | failed | tooLong | refused | tooDeep => exact h

/-- Only what a scan can leave matters to what comes behind it. -/
lemma Reads.bind_congr {whole s : Text} {scan : Scan β} {next next' : β → Text → Scan γ}
    (h : scan.Reads whole s)
    (hnext : ∀ value rest, rest.length < s.length → next value rest = next' value rest) :
    scan.bind next = scan.bind next' := by
  cases scan with
  | found value rest => exact hnext value rest h.2
  | failed | tooLong | refused | tooDeep => rfl

end Scan

/-! ## Strings -/

lemma suffix_of_fourHex {s rest : Text} {value : Nat} (h : fourHex s = some (value, rest)) :
    rest <:+ s ∧ rest.length + 4 = s.length := by
  match s with
  | a :: b :: c :: d :: rest' =>
    simp only [fourHex, Option.bind_eq_bind, Option.bind_eq_some_iff, Option.pure_def,
      Option.some.injEq, Prod.mk.injEq] at h
    obtain ⟨_, -, _, -, _, -, _, -, -, rfl⟩ := h
    exact ⟨⟨[a, b, c, d], rfl⟩, rfl⟩
  | [] | [_] | [_, _] | [_, _, _] => simp [fourHex] at h

lemma unicodeEscape_reads {u : Text} : (unicodeEscape u).Reads u u := by
  unfold unicodeEscape
  split
  · exact List.suffix_rfl
  · exact List.suffix_rfl
  case h_3 high rest hne hhigh =>
    obtain ⟨hsuffix, hlength⟩ := suffix_of_fourHex hhigh
    have hrest : rest <:+ u := hsuffix.trans (List.drop_suffix 1 u)
    have hshort : rest.length < u.length := by
      have := (List.drop_suffix 1 u).length_le
      omega
    split
    · split
      · exact (List.drop_suffix 1 rest).trans hrest
      case h_2 low rest' hlow =>
        obtain ⟨hsuffix', hlength'⟩ := suffix_of_fourHex hlow
        have hrest' : rest' <:+ rest := hsuffix'.trans (List.drop_suffix 2 rest)
        split
        · exact ⟨hrest'.trans hrest, hrest'.length_le.trans_lt hshort⟩
        · exact ⟨hrest, hshort⟩
    · exact ⟨hrest, hshort⟩

lemma scanString_reads {opening : Text} (fuel : Nat) {s : Text} (h : s <:+ opening) :
    (scanString opening fuel s).Reads opening s := by
  induction fuel generalizing s with
  | zero => exact List.suffix_rfl
  | succ fuel ih =>
    match s with
    | [] => exact List.suffix_rfl
    | c :: rest =>
      have hrest : rest <:+ c :: rest := List.suffix_cons c rest
      -- The string goes on at a shorter end of the text.
      have hmore : ∀ (value : Nat) (rest' : Text), rest' <:+ c :: rest →
          rest'.length < (c :: rest).length →
          ((scanString opening fuel rest').bind fun tail rest => .found (value :: tail) rest).Reads
            opening (c :: rest) := by
        intro value rest' hsuffix hlength
        refine (ih (hsuffix.trans h)).bind fun tail rest'' hsuffix' hlength' => ?_
        exact ⟨hsuffix'.trans hsuffix, hlength'.trans hlength⟩
      unfold scanString
      split
      · exact ⟨hrest, by simp⟩
      · split
        · split
          · exact List.suffix_rfl
          case h_2 e rest' =>
            have hrest' : rest' <:+ c :: e :: rest' := ⟨[c, e], rfl⟩
            split
            · refine (unicodeEscape_reads.mono (hrest.trans h) hrest).bind ?_
              exact hmore
            · split
              · exact h
              · exact hmore _ rest' hrest' (by rw [List.length_cons, List.length_cons]; omega)
        · split
          · exact h
          · exact hmore c rest hrest (by simp)

/-! ## Numbers -/

lemma spanDigits_append (s : Text) :
    (spanDigits s).1 ++ (spanDigits s).2 = s ∧ ∀ c ∈ (spanDigits s).1, isDigit c = true := by
  rw [spanDigits, List.span_eq_takeWhile_dropWhile]
  exact ⟨List.takeWhile_append_dropWhile, fun c hc => List.mem_takeWhile_imp hc⟩

lemma spanFraction_append (s : Text) : (spanFraction s).1 ++ (spanFraction s).2 = s := by
  cases s with
  | nil => rfl
  | cons point rest =>
    simp only [spanFraction]
    split
    · simp [(spanDigits_append rest).1]
    · rfl

lemma spanExponent_append (s : Text) : (spanExponent s).1 ++ (spanExponent s).2 = s := by
  cases s with
  | nil => rfl
  | cons e rest =>
    have hsign : ∀ signed : Text × Text, signed.1 ++ signed.2 = rest →
        (if Text.among "eE" e ∧ (spanDigits signed.2).1 ≠ [] then
          (e :: signed.1 ++ (spanDigits signed.2).1, (spanDigits signed.2).2)
          else ([], e :: rest)).1 ++
        (if Text.among "eE" e ∧ (spanDigits signed.2).1 ≠ [] then
          (e :: signed.1 ++ (spanDigits signed.2).1, (spanDigits signed.2).2)
          else ([], e :: rest)).2 = e :: rest := by
      intro signed hsigned
      split
      · simp [(spanDigits_append signed.2).1, hsigned]
      · rfl
    refine hsign _ ?_
    cases rest with
    | nil => rfl
    | cons c rest => dsimp only; split <;> rfl

lemma scanNumber_reads (s : Text) : (scanNumber s).Reads s s := by
  unfold scanNumber
  split
  case h_1 sign unsigned hsign =>
    split
    case h_1 whole rest hwhole =>
      have hs : sign ++ unsigned = s := by
        cases s with
        | nil => cases hsign; rfl
        | cons c rest => dsimp only at hsign; split at hsign <;> cases hsign <;> rfl
      have hunsigned : whole ++ rest = unsigned ∧ ∀ c ∈ whole, isDigit c = true := by
        cases unsigned with
        | nil => cases hwhole; exact ⟨rfl, nofun⟩
        | cons c rest' =>
          dsimp only at hwhole
          split at hwhole
          case isTrue hzero =>
            cases hwhole
            refine ⟨rfl, fun d hd => ?_⟩
            rw [List.mem_singleton.1 hd, hzero]
            rfl
          · have hspan := spanDigits_append (c :: rest')
            rwa [hwhole] at hspan
      split
      · exact List.suffix_rfl
      case isFalse hne =>
        -- What is left is an end of `rest`, and `whole` is not empty.
        have hfound : ∀ behind, behind <:+ rest → behind <:+ s ∧ behind.length < s.length := by
          intro behind hend
          have hpos : 0 < whole.length := List.length_pos_of_ne_nil (by simpa using hne)
          have hle := hend.length_le
          rw [← hs, ← hunsigned.1]
          refine ⟨hend.trans ⟨sign ++ whole, by simp⟩, ?_⟩
          simp only [List.length_append]
          omega
        split
        case h_1 fraction rest' hfraction =>
          split
          case h_1 exponent rest'' hexponent =>
            have hrest := spanFraction_append rest
            have hrest' := spanExponent_append rest'
            rw [hfraction] at hrest
            rw [hexponent] at hrest'
            have hend : rest'' <:+ rest :=
              ⟨fraction ++ exponent, by rw [List.append_assoc, hrest', hrest]⟩
            split
            · split
              case isTrue hlong =>
                refine ⟨whole, ?_, hunsigned.2, hlong⟩
                rw [← hs, ← hunsigned.1]
                exact ⟨sign, rest, by simp⟩
              · exact hfound _ hend
            · exact hfound _ hend

/-! ## Values -/

lemma skip_suffix (s : Text) : skip s <:+ s := List.dropWhile_suffix _

lemma suffix_of_scanConstant {s rest : Text} {value : Value}
    (h : scanConstant s = some (value, rest)) : rest <:+ s ∧ rest.length < s.length := by
  obtain ⟨⟨name, value'⟩, hmem, hname⟩ := List.exists_of_findSome?_eq_some h
  have hpos : 0 < (text name).length := by
    revert hmem
    simp only [List.mem_cons, List.not_mem_nil, or_false, Prod.mk.injEq]
    rintro (⟨rfl, -⟩ | ⟨rfl, -⟩ | ⟨rfl, -⟩ | ⟨rfl, -⟩ | ⟨rfl, -⟩ | ⟨rfl, -⟩) <;> decide
  dsimp only at hname
  split at hname
  case isTrue hprefix =>
    cases hname
    have hle := (List.isPrefixOf_iff_prefix.1 hprefix).length_le
    refine ⟨List.drop_suffix _ _, ?_⟩
    rw [List.length_drop]
    omega
  · cases hname

/-- The last part of what was left, behind whitespace. -/
lemma reads_skip {whole s rest : Text} {scan : Scan β} (hwhole : s <:+ whole) (hrest : rest <:+ s)
    (h : scan.Reads (skip rest) (skip rest)) : scan.Reads whole s :=
  h.mono (((skip_suffix rest).trans hrest).trans hwhole) ((skip_suffix rest).trans hrest)

/-- Decoding behind a separator: the rest of the items or the members, if this is not their end. -/
lemma reads_separated {s rest : Text} {closing : Nat} {last : β} {next : Text → Scan β}
    (hrest : rest <:+ s) (hlength : rest.length < s.length)
    (hnext : ∀ rest', rest' <:+ s → (next rest').Reads s s) :
    Scan.Reads s s (match skip rest with
      | [] => .failed []
      | c :: rest' =>
        if c = closing then .found last rest'
        else if c ≠ ','.toNat then .failed (c :: rest')
        else if (skip rest').head? = some closing then .failed (c :: rest')
        else next rest') := by
  have hskip := (skip_suffix rest).trans hrest
  split
  · exact List.nil_suffix
  case h_2 c rest' heq =>
    rw [heq] at hskip
    have hle := hskip.length_le
    have hrest' : rest' <:+ s := (List.suffix_cons c rest').trans hskip
    split
    · exact ⟨hrest', by simp at hle; omega⟩
    · split
      · exact hskip
      · split
        · exact hskip
        · exact hnext rest' hrest'

namespace Decoder
variable (d : Decoder)

/-- By induction on the fuel. -/
theorem scan_reads (fuel : Nat) :
    (∀ nesting s, (d.scanOnce fuel nesting s).Reads s s) ∧
    (∀ nesting s, (d.scanMembers fuel nesting s).Reads s s) ∧
    ∀ nesting s, (d.scanItems fuel nesting s).Reads s s := by
  induction fuel with
  | zero =>
    refine ⟨?_, ?_, ?_⟩ <;> intro nesting s
    · rw [scanOnce]; exact List.suffix_rfl
    · rw [scanMembers]; exact List.suffix_rfl
    · rw [scanItems]; exact List.suffix_rfl
  | succ fuel ih =>
    obtain ⟨ihOnce, ihMembers, ihItems⟩ := ih
    refine ⟨?_, ?_, ?_⟩ <;> intro nesting s
    · match s with
      | [] => rw [scanOnce]; exact List.suffix_rfl
      | c :: rest =>
        have hrest : rest <:+ c :: rest := List.suffix_cons c rest
        unfold scanOnce
        split
        · refine ((scanString_reads _ hrest).mono List.suffix_rfl hrest).bind ?_
          exact fun value rest' hsuffix hlength => ⟨hsuffix, hlength⟩
        · split
          · split
            · trivial
            · split
              · split
                · trivial
                · refine ⟨(List.drop_suffix _ _).trans ((skip_suffix rest).trans hrest), ?_⟩
                  have hle := (skip_suffix rest).length_le
                  rw [List.length_drop, List.length_cons]
                  omega
              · refine (reads_skip List.suffix_rfl hrest (ihMembers _ _)).bind ?_
                intro pairs rest' hsuffix hlength
                split
                · trivial
                · exact ⟨hsuffix, hlength⟩
          · split
            · split
              · trivial
              · split
                · refine ⟨(List.drop_suffix _ _).trans ((skip_suffix rest).trans hrest), ?_⟩
                  have hle := (skip_suffix rest).length_le
                  rw [List.length_drop, List.length_cons]
                  omega
                · refine (reads_skip List.suffix_rfl hrest (ihItems _ _)).bind ?_
                  exact fun items rest' hsuffix hlength => ⟨hsuffix, hlength⟩
            · split
              case h_1 value rest' hconstant => exact suffix_of_scanConstant hconstant
              · exact scanNumber_reads _
    · unfold scanMembers
      split
      · exact List.suffix_rfl
      case h_2 c rest =>
        have hrest : rest <:+ c :: rest := List.suffix_cons c rest
        split
        · exact List.suffix_rfl
        · refine ((scanString_reads _ hrest).mono List.suffix_rfl hrest).bind ?_
          intro key behind hbehind hshort
          have hskip := (skip_suffix behind).trans hbehind
          split
          · exact List.nil_suffix
          case h_2 colon rest' heq =>
            rw [heq] at hskip
            split
            · exact hskip
            · have hcolon : rest' <:+ c :: rest := (List.suffix_cons colon rest').trans hskip
              refine (reads_skip List.suffix_rfl hcolon (ihOnce nesting _)).bind ?_
              intro value rest'' hrest'' hlength
              refine reads_separated hrest'' hlength fun more hmore => ?_
              refine (reads_skip List.suffix_rfl hmore (ihMembers nesting _)).bind ?_
              exact fun pairs left hsuffix hleft => ⟨hsuffix, hleft⟩
    · rw [scanItems]
      refine (ihOnce nesting s).bind fun value rest hrest hlength => ?_
      refine reads_separated hrest hlength fun rest' hrest' => ?_
      refine (reads_skip List.suffix_rfl hrest' (ihItems nesting _)).bind ?_
      exact fun items rest'' hsuffix hshort => ⟨hsuffix, hshort⟩

/-- The next item or member is scanned with enough fuel when what it stands behind is. -/
lemma separated_congr {rest : Text} {closing : Nat} {last : β} {next next' : Text → Scan β}
    (h : ∀ rest', rest'.length < rest.length → next rest' = next' rest') :
    (match skip rest with
      | [] => Scan.failed []
      | c :: rest' =>
        if c = closing then .found last rest'
        else if c ≠ ','.toNat then .failed (c :: rest')
        else if (skip rest').head? = some closing then .failed (c :: rest')
        else next rest') =
    (match skip rest with
      | [] => Scan.failed []
      | c :: rest' =>
        if c = closing then .found last rest'
        else if c ≠ ','.toNat then .failed (c :: rest')
        else if (skip rest').head? = some closing then .failed (c :: rest')
        else next' rest') := by
  have hle := (skip_suffix rest).length_le
  split
  · rfl
  case h_2 c rest' heq =>
    rw [heq, List.length_cons] at hle
    rw [h rest' (by omega)]

/-- More fuel than a scan needs changes nothing; by induction on the fuel. -/
theorem scan_fuel (fuel : Nat) :
    (∀ fuel' nesting s, 2 * s.length + 1 ≤ fuel → 2 * s.length + 1 ≤ fuel' →
      d.scanOnce fuel nesting s = d.scanOnce fuel' nesting s) ∧
    (∀ fuel' nesting s, 2 * s.length + 2 ≤ fuel → 2 * s.length + 2 ≤ fuel' →
      d.scanMembers fuel nesting s = d.scanMembers fuel' nesting s) ∧
    ∀ fuel' nesting s, 2 * s.length + 2 ≤ fuel → 2 * s.length + 2 ≤ fuel' →
      d.scanItems fuel nesting s = d.scanItems fuel' nesting s := by
  induction fuel with
  | zero => exact ⟨fun _ _ _ h => by omega, fun _ _ _ h => by omega, fun _ _ _ h => by omega⟩
  | succ fuel ih =>
    obtain ⟨ihOnce, ihMembers, ihItems⟩ := ih
    refine ⟨?_, ?_, ?_⟩ <;> intro fuel' nesting s hfuel hfuel'
    · obtain ⟨fuel', rfl⟩ : ∃ n, fuel' = n + 1 := ⟨fuel' - 1, by omega⟩
      match s with
      | [] => rw [scanOnce, scanOnce]
      | c :: rest =>
        have hle := (skip_suffix rest).length_le
        rw [List.length_cons] at hfuel hfuel'
        have hmembers : ∀ nesting, d.scanMembers fuel nesting (skip rest) =
            d.scanMembers fuel' nesting (skip rest) :=
          fun nesting => ihMembers fuel' nesting _ (by omega) (by omega)
        have hitems : ∀ nesting, d.scanItems fuel nesting (skip rest) =
            d.scanItems fuel' nesting (skip rest) :=
          fun nesting => ihItems fuel' nesting _ (by omega) (by omega)
        unfold scanOnce
        simp only [hmembers, hitems]
    · obtain ⟨fuel', rfl⟩ : ∃ n, fuel' = n + 1 := ⟨fuel' - 1, by omega⟩
      match s with
      | [] => rw [scanMembers, scanMembers]
      | c :: rest =>
        rw [List.length_cons] at hfuel hfuel'
        unfold scanMembers
        dsimp only
        split
        · rfl
        · refine (scanString_reads _ (List.suffix_cons c rest)).bind_congr ?_
          intro key behind hbehind
          have hskip := (skip_suffix behind).length_le
          split
          · rfl
          case h_2 colon rest' heq =>
            rw [heq, List.length_cons] at hskip
            have hle := (skip_suffix rest').length_le
            rw [ihOnce fuel' nesting (skip rest') (by omega) (by omega)]
            split
            · rfl
            · refine ((d.scan_reads fuel').1 nesting _).bind_congr fun value rest'' hrest'' => ?_
              refine separated_congr fun more hmore => ?_
              have hmore' := (skip_suffix more).length_le
              rw [ihMembers fuel' nesting _ (by omega) (by omega)]
    · obtain ⟨fuel', rfl⟩ : ∃ n, fuel' = n + 1 := ⟨fuel' - 1, by omega⟩
      rw [scanItems, scanItems, ihOnce fuel' nesting s (by omega) (by omega)]
      refine ((d.scan_reads fuel').1 nesting s).bind_congr fun value rest hrest => ?_
      refine separated_congr fun rest' hrest' => ?_
      have hle := (skip_suffix rest').length_le
      rw [ihItems fuel' nesting _ (by omega) (by omega)]

/-- What happens behind an opening brace. -/
lemma rawDecode_object (rest : Text) :
    d.rawDecode ('\x7b'.toNat :: rest) = match d.nesting with
      | 0 => .tooDeep
      | nesting + 1 =>
        if (skip rest).head? = some '\x7d'.toNat then
          match d.hook [] with
          | none => .refused
          | some members => .found (.object members) ((skip rest).drop 1)
        else (d.scanMembers (2 * (rest.length + 1)) nesting (skip rest)).bind fun pairs rest =>
          match d.hook pairs with
          | none => .refused
          | some members => .found (.object members) rest := by
  have hne : '\x7b'.toNat ≠ '"'.toNat := by decide
  unfold rawDecode scanOnce
  rw [if_neg hne, if_pos rfl]
  rfl

lemma decode_object (rest : Text) : d.decode ('\x7b'.toNat :: rest) =
    (d.rawDecode ('\x7b'.toNat :: rest)).bind fun value rest =>
      match skip rest with
      | [] => .found value []
      | extra => .failed extra := rfl

/-- Whitespace behind an opening brace only costs fuel. -/
lemma decode_skip {c : Nat} (hc : isWhitespace c = true) (rest : Text) :
    d.decode ('\x7b'.toNat :: c :: rest) = d.decode ('\x7b'.toNat :: rest) := by
  have hskip : skip (c :: rest) = skip rest := List.dropWhile_cons_of_pos hc
  have hle := (skip_suffix rest).length_le
  have hmembers : ∀ nesting, d.scanMembers (2 * ((c :: rest).length + 1)) nesting (skip rest) =
      d.scanMembers (2 * (rest.length + 1)) nesting (skip rest) := by
    intro nesting
    apply (d.scan_fuel _).2.1
    · rw [List.length_cons]
      omega
    · omega
  rw [decode_object, decode_object, rawDecode_object, rawDecode_object, hskip]
  simp only [hmembers]

/-- Behind an opening brace comes a member, or the closing brace. -/
lemma decode_of_other {c : Nat} (hc : isWhitespace c = false) (hquote : c ≠ '"'.toNat)
    (hclose : c ≠ '\x7d'.toNat) (rest : Text) :
    d.decode ('\x7b'.toNat :: c :: rest) = .tooDeep ∨
      ∃ position, d.decode ('\x7b'.toNat :: c :: rest) = .failed position := by
  have hskip : skip (c :: rest) = c :: rest := List.dropWhile_cons_of_neg (by simp [hc])
  rw [decode_object, rawDecode_object, hskip]
  cases d.nesting with
  | zero => exact .inl rfl
  | succ nesting =>
    right
    have hfuel : 2 * ((c :: rest).length + 1) = 2 * (c :: rest).length + 1 + 1 := by omega
    dsimp only
    rw [if_neg (by simpa using hclose), hfuel]
    unfold scanMembers
    dsimp only
    rw [if_pos hquote]
    exact ⟨_, rfl⟩

lemma longDigits_of_decode {s : Text} (h : d.decode s = .tooLong) : LongDigits s := by
  have hreads : (d.rawDecode (skip s)).Reads s s :=
    ((d.scan_reads _).1 _ _).mono (skip_suffix s) (skip_suffix s)
  have hdecode : (d.decode s).Reads s (0 :: s) := by
    refine hreads.bind fun value rest hrest hlength => ?_
    split
    · exact ⟨List.nil_suffix, by simp⟩
    case h_2 extra hne => exact (skip_suffix rest).trans hrest
  rw [h] at hdecode
  exact hdecode

end Decoder

end Modall.Library.Json
