import Modall.Library.Places
import Modall.Library.Quoting

/-!
# Local references in schemas

`_resolve_local_schema_reference`: a fragment is empty, a JSON pointer, or the name of an anchor.
Resolving undoes the encoding of every path that exists. It is not total: `str.isdigit` accepts
digits that `int` refuses.
-/
namespace Modall.Security

open Library Library.Json Library.Text

/-- The `ValueError` of `int(literal)`. -/
inductive ValueError where
  | invalidLiteral (literal : Text)
  deriving DecidableEq

/-- `int(value)` of a text of digits, or `none` for a `ValueError`. -/
def intOfDigits (value : Text) : Option Nat :=
  if maxStrDigits < value.length then none
  else value.foldlM (fun n c => (decimalValue c).map (n * 10 + ·)) 0

/-- `encoded_part.replace("~1", "/").replace("~0", "~")`. -/
def decodePart (part : Text) : Text :=
  replacePair '~'.toNat '0'.toNat (text "~") (replacePair '~'.toNat '1'.toNat (text "/") part)

/-- The loop over the parts of a pointer. -/
def resolveParts (current : Place) : List Text → Except ValueError (Option Place)
  | [] => .ok (some current)
  | encodedPart :: parts =>
    let part := decodePart encodedPart
    match current.value with
    | .object _ =>
      match current.child (.member part) with
      | some place => resolveParts place parts
      | none => .ok none
    | .list _ =>
      if isdigit part then
        match intOfDigits part with
        | none => .error (.invalidLiteral part)
        | some index =>
          match current.child (.item index) with
          | some place => resolveParts place parts
          | none => .ok none
      else .ok none
    | _ => .ok none

def resolveLocalSchemaReference (root : Value) (reference : Text) (anchors : List (Text × Place)) :
    Except ValueError (Option Place) :=
  match unquote (reference.drop 1) with
  | [] => .ok (some (.root root))
  | c :: rest =>
    if c = '/'.toNat then resolveParts (.root root) (rest.splitOn '/'.toNat)
    else .ok (anchors.lookup (c :: rest))

/-! ## Pointers -/

/-- `~` is written `~0` and `/` is written `~1`. -/
def escapePart (key : Text) : Text :=
  key.flatMap fun c =>
    if c = '~'.toNat then text "~0" else if c = '/'.toNat then text "~1" else [c]

def stepPart : Json.Step → Text
  | .member key => escapePart key
  | .item index => (Nat.toDigits 10 index).map Char.toNat

/-- The JSON pointer to a path. -/
def pointer (path : Path) : Text := path.flatMap fun step => '/'.toNat :: stepPart step

/-- What holds of every step in a Python value: characters are code points, and the length of a list
is a machine word. -/
def stepValid : Json.Step → Prop
  | .member key => ∀ c ∈ key, c < 0x110000
  | .item index => index < 2 ^ 63

lemma replacePair_cons_of_ne {first second c : Nat} (replacement rest : Text) (h : c ≠ first) :
    replacePair first second replacement (c :: rest) =
      c :: replacePair first second replacement rest := by
  cases rest with
  | nil => simp [replacePair]
  | cons b rest => simp [replacePair, h]

lemma replacePair_cons_cons_of_ne {first second b : Nat} (replacement rest : Text)
    (hsecond : b ≠ second) (hfirst : b ≠ first) :
    replacePair first second replacement (first :: b :: rest) =
      first :: b :: replacePair first second replacement rest := by
  rw [replacePair, if_neg (fun h => hsecond h.2), replacePair_cons_of_ne _ _ hfirst]

@[simp]
lemma escapePart_cons (c : Nat) (key : Text) :
    escapePart (c :: key) =
      (if c = '~'.toNat then text "~0" else if c = '/'.toNat then text "~1" else [c]) ++
        escapePart key := rfl

/-- Reading `~1` first leaves the written `~0` alone. -/
lemma replacePair_escapePart (key : Text) :
    replacePair '~'.toNat '1'.toNat (text "/") (escapePart key) =
      key.flatMap fun c => if c = '~'.toNat then text "~0" else [c] := by
  induction key with
  | nil => rfl
  | cons c key ih =>
    rw [escapePart_cons, List.flatMap_cons, ← ih]
    split_ifs with htilde hslash
    · exact replacePair_cons_cons_of_ne _ _ (by decide) (by decide)
    · subst hslash
      rfl
    · exact replacePair_cons_of_ne _ _ htilde

lemma decodePart_escapePart (key : Text) : decodePart (escapePart key) = key := by
  rw [decodePart, replacePair_escapePart]
  induction key with
  | nil => rfl
  | cons c key ih =>
    rw [List.flatMap_cons]
    split_ifs with htilde
    · subst htilde
      exact congrArg _ ih
    · exact (replacePair_cons_of_ne _ _ htilde).trans (congrArg _ ih)

/-! ## Indices -/

lemma decimalValue_digit {c : Char} (h : c.isDigit) :
    decimalValue c.toNat = some (c.toNat - '0'.toNat) := by
  have hrange : '0'.toNat ≤ c.toNat ∧ c.toNat ≤ '9'.toNat := by
    simpa [Char.isDigit, Char.le_def, UInt32.le_iff_toNat_le] using h
  obtain ⟨hlow, hhigh⟩ := hrange
  generalize c.toNat = n at hlow hhigh ⊢
  change 48 ≤ n at hlow
  change n ≤ 57 at hhigh
  interval_cases n <;> rfl

lemma digit_ne {c : Char} (h : c.isDigit) {d : Char} (hd : d.isDigit = false) :
    c.toNat ≠ d.toNat := by
  intro heq
  rw [Char.toNat_inj.1 heq, hd] at h
  cases h

lemma intOfDigits_toDigits {index : Nat} (h : index < 2 ^ 63) :
    intOfDigits ((Nat.toDigits 10 index).map Char.toNat) = some index := by
  have hlength : (Nat.toDigits 10 index).length ≤ 19 :=
    (Nat.length_toDigits_le_iff (by decide) (by decide)).2 (by omega)
  have hfew : ¬ maxStrDigits < ((Nat.toDigits 10 index).map Char.toNat).length := by
    simp only [List.length_map, maxStrDigits]
    omega
  rw [intOfDigits, if_neg hfew]
  suffices hfold : ∀ (digits : List Char) (n : Nat), (∀ c ∈ digits, c.isDigit) →
      (digits.map Char.toNat).foldlM (fun n c => (decimalValue c).map (n * 10 + ·)) n =
        some (Nat.ofDigitChars 10 digits n) by
    rw [hfold _ _ fun c hc => Nat.isDigit_of_mem_toDigits (by decide) (by decide) hc,
      Nat.ofDigitChars_ten_toDigits]
  intro digits
  induction digits with
  | nil => intro n _; rfl
  | cons c digits ih =>
    intro n hdigits
    rw [List.map_cons, List.foldlM_cons, decimalValue_digit (hdigits c List.mem_cons_self)]
    simp only [Option.map_some, Option.bind_eq_bind, Option.bind_some]
    rw [ih _ fun d hd => hdigits d (List.mem_cons_of_mem _ hd), Nat.ofDigitChars_cons,
      Nat.mul_comm n 10]

lemma isdigit_toDigits (index : Nat) : isdigit ((Nat.toDigits 10 index).map Char.toNat) = true := by
  have hall : ∀ c ∈ Nat.toDigits 10 index, (decimalValue c.toNat).isSome := fun c hc => by
    rw [decimalValue_digit (Nat.isDigit_of_mem_toDigits (by decide) (by decide) hc)]
    rfl
  simp only [isdigit, List.isEmpty_map, List.all_map, Bool.and_eq_true, Bool.not_eq_true',
    List.isEmpty_eq_false_iff, List.all_eq_true, Function.comp_apply, Bool.or_eq_true]
  exact ⟨Nat.toDigits_ne_nil, fun c hc => .inl (hall c hc)⟩

lemma escapePart_eq_self {part : Text} (h : ∀ c ∈ part, c ≠ '~'.toNat ∧ c ≠ '/'.toNat) :
    escapePart part = part := by
  induction part with
  | nil => rfl
  | cons c part ih =>
    obtain ⟨htilde, hslash⟩ := h c List.mem_cons_self
    rw [escapePart_cons, if_neg htilde, if_neg hslash,
      ih fun d hd => h d (List.mem_cons_of_mem _ hd)]
    rfl

lemma digits_plain (index : Nat) :
    ∀ c ∈ (Nat.toDigits 10 index).map Char.toNat, c ≠ '~'.toNat ∧ c ≠ '/'.toNat := by
  intro c hc
  obtain ⟨digit, hdigit, rfl⟩ := List.mem_map.1 hc
  have hisDigit := Nat.isDigit_of_mem_toDigits (by decide) (by decide) hdigit
  exact ⟨digit_ne hisDigit (by decide), digit_ne hisDigit (by decide)⟩

lemma decodePart_toDigits (index : Nat) :
    decodePart ((Nat.toDigits 10 index).map Char.toNat) = (Nat.toDigits 10 index).map Char.toNat := by
  conv_lhs => rw [← escapePart_eq_self (digits_plain index)]
  exact decodePart_escapePart _

lemma slash_notMem_stepPart (step : Json.Step) : '/'.toNat ∉ stepPart step := by
  cases step with
  | item index => exact fun hmem => (digits_plain index _ hmem).2 rfl
  | member key =>
    simp only [stepPart, escapePart, List.mem_flatMap, not_exists, not_and]
    intro c _
    split_ifs with htilde hslash
    · decide
    · decide
    · simpa using Ne.symm hslash

/-! ## The round trip -/

/-- The parts of a pointer lead to where its path leads. -/
lemma resolveParts_stepParts {place : Place} {path : Path} {v : Value}
    (hpath : ∀ step ∈ path, stepValid step) (hfind : place.value.find path = some v) :
    resolveParts place (path.map stepPart) = .ok (some ⟨place.path ++ path, v⟩) := by
  induction path generalizing place with
  | nil =>
    obtain rfl : place.value = v := by simpa using hfind
    simp [resolveParts]
  | cons step path ih =>
    obtain ⟨u, hu, hrest⟩ := Option.bind_eq_some_iff.1 hfind
    have hchild : place.child step = some ⟨place.path ++ [step], u⟩ := by
      simp [Place.child, hu]
    have hnext : resolveParts ⟨place.path ++ [step], u⟩ (path.map stepPart) =
        .ok (some ⟨place.path ++ [step] ++ path, v⟩) :=
      ih (fun s hs => hpath s (List.mem_cons_of_mem _ hs)) hrest
    rw [List.append_assoc, List.singleton_append] at hnext
    rw [List.map_cons, resolveParts]
    obtain ⟨above, value⟩ := place
    cases step with
    | member key =>
      cases value with
      | object members => simpa only [stepPart, decodePart_escapePart, hchild] using hnext
      | _ => cases hu
    | item index =>
      have hindex : index < 2 ^ 63 := hpath _ List.mem_cons_self
      cases value with
      | list items =>
        simpa only [stepPart, decodePart_toDigits, isdigit_toDigits, if_true,
          intOfDigits_toDigits hindex, hchild] using hnext
      | _ => cases hu

lemma pointer_cons (step : Json.Step) (path : Path) :
    pointer (step :: path) =
      '/'.toNat :: ['/'.toNat].intercalate ((step :: path).map stepPart) := by
  induction path generalizing step with
  | nil => simp [pointer, List.intercalate]
  | cons next path ih =>
    have hstep : pointer (step :: next :: path) =
        '/'.toNat :: (stepPart step ++ pointer (next :: path)) := rfl
    rw [hstep, ih next]
    simp [List.intercalate]

lemma stepPart_lt {step : Json.Step} (h : stepValid step) : ∀ c ∈ stepPart step, c < 0x110000 := by
  intro c hc
  cases step with
  | item index =>
    obtain ⟨digit, -, rfl⟩ := List.mem_map.1 hc
    obtain hlow | ⟨-, hhigh⟩ := digit.valid
    · exact lt_trans hlow (by decide)
    · exact hhigh
  | member key =>
    obtain ⟨d, hd, hmem⟩ := List.mem_flatMap.1 hc
    have hall : ∀ c ∈ text "~0" ++ text "~1", c < 0x110000 := by decide
    split_ifs at hmem with htilde hslash
    · exact hall c (List.mem_append_left _ hmem)
    · exact hall c (List.mem_append_right _ hmem)
    · exact (List.mem_singleton.1 hmem) ▸ h d hd

lemma pointer_lt {path : Path} (h : ∀ step ∈ path, stepValid step) :
    ∀ c ∈ pointer path, c < 0x110000 := by
  intro c hc
  obtain ⟨step, hstep, hmem⟩ := List.mem_flatMap.1 hc
  obtain rfl | hmem := List.mem_cons.1 hmem
  · decide
  · exact stepPart_lt (h step hstep) c hmem

/-- Resolving the reference to a path gives the value at that path. -/
lemma resolve_pointer {root v : Value} {path : Path} {safe : Nat → Bool} {quoted : Text}
    (hpath : ∀ step ∈ path, stepValid step) (hfind : root.find path = some v)
    (hquoted : quote safe (pointer path) = some quoted) (anchors : List (Text × Place)) :
    resolveLocalSchemaReference root ('#'.toNat :: quoted) anchors = .ok (some ⟨path, v⟩) := by
  have hunquote : unquote quoted = pointer path := unquote_quote (pointer_lt hpath) hquoted
  rw [resolveLocalSchemaReference, List.drop_one, List.tail_cons, hunquote]
  cases path with
  | nil =>
    obtain rfl : root = v := by simpa using hfind
    rfl
  | cons step path =>
    rw [pointer_cons]
    simp only [if_true]
    rw [List.splitOn_intercalate]
    · exact resolveParts_stepParts hpath hfind
    · intro part hpart
      obtain ⟨s, -, rfl⟩ := List.mem_map.1 hpart
      exact slash_notMem_stepPart s
    · simp

/-! ## Totality -/

/-- The part of a pointer names the step. -/
def Spells (part : Text) : Json.Step → Prop
  | .member key => decodePart part = key
  | .item index => isdigit (decodePart part) = true ∧ intOfDigits (decodePart part) = some index

/-- `int` refuses the digits of a text: one of them is not decimal, or there are too many. -/
def Refused (part : Text) : Prop :=
  maxStrDigits < part.length ∨ ∃ c ∈ part, decimalValue c = none

/-- On the way the parts describe, a list is asked for an index of digits that `int` refuses. -/
def AsksRefusedIndex (root : Value) (parts : List Text) : Prop :=
  ∃ before part after path items, parts = before ++ part :: after ∧
    List.Forall₂ Spells before path ∧ root.find path = some (.list items) ∧
      isdigit (decodePart part) = true ∧ Refused (decodePart part)

lemma intOfDigits_eq_none_iff {part : Text} : intOfDigits part = none ↔ Refused part := by
  unfold intOfDigits Refused
  split_ifs with hlong
  · simp [hlong]
  simp only [hlong, false_or]
  suffices hfold : ∀ n, part.foldlM (fun n c => (decimalValue c).map (n * 10 + ·)) n = none ↔
      ∃ c ∈ part, decimalValue c = none from hfold 0
  clear hlong
  induction part with
  | nil => simp
  | cons c part ih =>
    intro n
    rw [List.foldlM_cons]
    cases hc : decimalValue c with
    | none => simp [hc]
    | some d => simp [hc, ih]

lemma asksRefusedIndex_cons {v : Value} {part : Text} {parts : List Text} :
    AsksRefusedIndex v (part :: parts) ↔
      ((∃ items, v = .list items) ∧ isdigit (decodePart part) = true ∧ Refused (decodePart part)) ∨
        ∃ step u, Spells part step ∧ v.child step = some u ∧ AsksRefusedIndex u parts := by
  constructor
  · rintro ⟨before, asked, after, path, items, heq, hspells, hfind, hdigit, hrefused⟩
    cases hspells with
    | nil =>
      obtain ⟨rfl, rfl⟩ : part = asked ∧ parts = after := by simpa using heq
      obtain rfl : v = .list items := by simpa using hfind
      exact .inl ⟨⟨items, rfl⟩, hdigit, hrefused⟩
    | @cons first step before path hfirst hspells =>
      obtain ⟨rfl, rfl⟩ : part = first ∧ parts = before ++ asked :: after := by simpa using heq
      obtain ⟨u, hu, hrest⟩ := Option.bind_eq_some_iff.1 hfind
      exact .inr ⟨step, u, hfirst, hu, before, asked, after, path, items, rfl, hspells, hrest,
        hdigit, hrefused⟩
  · rintro (⟨⟨items, rfl⟩, hdigit, hrefused⟩ | ⟨step, u, hfirst, hu, hasks⟩)
    · exact ⟨[], part, parts, [], items, rfl, .nil, rfl, hdigit, hrefused⟩
    · obtain ⟨before, asked, after, path, items, rfl, hspells, hfind, hdigit, hrefused⟩ := hasks
      exact ⟨part :: before, asked, after, step :: path, items, rfl, .cons hfirst hspells,
        by simpa [Value.find_cons, hu] using hfind, hdigit, hrefused⟩

/-- The loop raises exactly when it asks `int` for an index that it refuses. -/
lemma resolveParts_returns_iff {place : Place} {parts : List Text} :
    (∃ found, resolveParts place parts = .ok found) ↔ ¬ AsksRefusedIndex place.value parts := by
  induction parts generalizing place with
  | nil => simp [resolveParts, AsksRefusedIndex]
  | cons part parts ih =>
    rw [asksRefusedIndex_cons, resolveParts]
    cases hvalue : place.value with
    | object members =>
      have hstep : (∃ step u, Spells part step ∧ place.value.child step = some u ∧
          AsksRefusedIndex u parts) ↔
          ∃ u, place.value.child (.member (decodePart part)) = some u ∧
            AsksRefusedIndex u parts := by
        constructor
        · rintro ⟨step, u, hspells, hu, hasks⟩
          cases step with
          | member key => exact ⟨u, hspells ▸ hu, hasks⟩
          | item index => simp [hvalue, Value.child] at hu
        · rintro ⟨u, hu, hasks⟩
          exact ⟨.member (decodePart part), u, rfl, hu, hasks⟩
      rw [← hvalue, hstep]
      simp only [hvalue, reduceCtorEq, exists_false, false_and, false_or, Place.child]
      cases hchild : Value.child (.object members) (.member (decodePart part)) with
      | none => simp
      | some u => simp [ih]
    | list items =>
      have hstep : (∃ step u, Spells part step ∧ place.value.child step = some u ∧
          AsksRefusedIndex u parts) ↔
          ∃ index u, (isdigit (decodePart part) = true ∧
            intOfDigits (decodePart part) = some index) ∧
              place.value.child (.item index) = some u ∧ AsksRefusedIndex u parts := by
        constructor
        · rintro ⟨step, u, hspells, hu, hasks⟩
          cases step with
          | member key => simp [hvalue, Value.child] at hu
          | item index => exact ⟨index, u, hspells, hu, hasks⟩
        · rintro ⟨index, u, hspells, hu, hasks⟩
          exact ⟨.item index, u, hspells, hu, hasks⟩
      rw [← hvalue, hstep]
      simp only [hvalue, Value.list.injEq, exists_eq', true_and, Place.child]
      by_cases hdigit : isdigit (decodePart part)
      · cases hint : intOfDigits (decodePart part) with
        | none => simp [hdigit, intOfDigits_eq_none_iff.1 hint]
        | some index =>
          have hfine : ¬ Refused (decodePart part) := fun hrefused => by
            simp [intOfDigits_eq_none_iff.2 hrefused] at hint
          cases hchild : Value.child (.list items) (.item index) with
          | none => simp [hdigit, hfine, hchild]
          | some u => simp [hdigit, hfine, hchild, ih]
      · simp [hdigit]
    | _ => simp [Value.child]

/-- Resolving inverts the encoding of every path that exists, and it returns exactly when no list
on the way is asked for an index that `int` refuses. -/
theorem resolveLocalSchemaReference_inverts_and_returns_iff (root : Value)
    (anchors : List (Text × Place)) :
    (∀ path v safe quoted, root.find path = some v → (∀ step ∈ path, stepValid step) →
      quote safe (pointer path) = some quoted →
        resolveLocalSchemaReference root ('#'.toNat :: quoted) anchors = .ok (some ⟨path, v⟩)) ∧
    ∀ fragment, (∃ found, resolveLocalSchemaReference root ('#'.toNat :: fragment) anchors =
        .ok found) ↔
      ∀ tail, unquote fragment = '/'.toNat :: tail →
        ¬ AsksRefusedIndex root (tail.splitOn '/'.toNat) := by
  refine ⟨fun path v safe quoted hfind hpath hquoted =>
    resolve_pointer hpath hfind hquoted anchors, fun fragment => ?_⟩
  rw [resolveLocalSchemaReference, List.drop_one, List.tail_cons]
  cases unquote fragment with
  | nil => simp
  | cons c tail =>
    by_cases hslash : c = '/'.toNat
    · simp [hslash, resolveParts_returns_iff, Place.root]
    · have hreturns : ∃ found, (if c = '/'.toNat then
          resolveParts (.root root) (tail.splitOn '/'.toNat)
          else .ok (anchors.lookup (c :: tail))) = .ok found := ⟨_, if_neg hslash⟩
      exact iff_of_true hreturns fun other heq => absurd (List.cons.inj heq).1 hslash

/-- A superscript two is a digit for `str.isdigit` and not for `int`. -/
theorem resolveLocalSchemaReference_raises_for_superscript :
    ¬ ∃ found, resolveLocalSchemaReference (.object [(text "enum", .list [.str (text "a")])])
      (text "#/enum/²") [] = .ok found := by
  have hraised : resolveLocalSchemaReference (.object [(text "enum", .list [.str (text "a")])])
      (text "#/enum/²") [] = .error (.invalidLiteral (text "²")) := by rfl
  rintro ⟨found, hfound⟩
  rw [hraised] at hfound
  cases hfound

theorem resolveLocalSchemaReference_escaped_key :
    resolveLocalSchemaReference (.object [(text "a/b%~", .list [.null, .bool true])])
      (text "#%2Fa%7E1b%25%7E0%2F1") [] =
        .ok (some ⟨[.member (text "a/b%~"), .item 1], .bool true⟩) :=
  (resolveLocalSchemaReference_inverts_and_returns_iff _ []).1 _ _
    (fun c => within 'a' 'z' c || within '0' '9' c) _ rfl
    (by simp [stepValid]; decide) (by rfl)

end Modall.Security
