import Modall.Library.Json
import Modall.Library.Worklist
import Modall.Security.Metadata

/-!
# Secrets in JSON values

The scanner that walks a JSON value with an explicit stack. An entry of the stack is a value and
whether the names above it make it sensitive; a member's name can switch that on, and a mode of
authentication or an expiration time switches it off.
-/
namespace Modall.Security

open Library Library.Json Library.Text

/-- `isinstance(value, (int, float)) and not isinstance(value, bool)`. -/
def isNumber : Value → Bool
  | .int _ | .float _ => true
  | _ => false

def literalKeys : List Text := ["const", "default", "enum", "example", "examples"].map text

def childIsAuthMode (context : Bool) (key : Text) : Value → Bool
  | .str value =>
    isAuthMode value &&
      (context || (isSensitiveField key && decide (text "auth" <:+: lower key)))
  | _ => false

def childIsExpirationMetadata (context : Bool) (key : Text) (child : Value) : Bool :=
  (isSensitiveField key || context) && isNumber child && isExpirationField key

/-- One literal of the list below a literal key. -/
def expandLiteral : Value → Option (List Value)
  | .str value => if looksLikeSecretCandidate value then none else some []
  | .list items => some items
  | _ => some []

/-- A member for which the scanner answers at once. -/
def memberIsSecret (context : Bool) (key : Text) (child : Value) : Bool :=
  (context && looksLikeSecretCandidate key) ||
    (isSensitiveField key && !childIsAuthMode context key child &&
      match child with
      | .str value => looksLikeSecretCandidate value
      | _ => false) ||
    (context && literalKeys.contains key && Worklist.explore expandLiteral child.nodes [child])

def nextContext (context : Bool) (key : Text) (child : Value) : Bool :=
  if childIsAuthMode context key child || childIsExpirationMetadata context key child then false
  else context || isSensitiveField key

/-- The members of an object in their order: the entries they push, or `none` for an answer. -/
def expandMembers (context : Bool) : List (Text × Value) → Option (List (Value × Bool))
  | [] => some []
  | (key, child) :: members =>
    if memberIsSecret context key child then none
    else (expandMembers context members).map ((child, nextContext context key child) :: ·)

section scanner
-- `str(float(spelling))`
variable (floatText : Text → Text)

/-- `str(value)` of a number. -/
def numberText : Value → Text
  | .int n => text (toString n)
  | .float spelling => floatText spelling
  | _ => []

def expandEntry : Value × Bool → Option (List (Value × Bool))
  | (.object members, context) => expandMembers context members
  | (.list items, context) => some (items.map (·, context))
  | (.str value, context) =>
    if (context && looksLikeSecretCandidate value) || containsObviousSecret value then none
    else some []
  | (current, context) =>
    if context && isNumber current && decide (8 ≤ (numberText floatText current).length) then none
    else some []

/-- `_contains_obvious_secret_in_json`; every value is popped at most once. -/
def containsObviousSecretInJson (initiallySensitive : Bool) (value : Value) : Bool :=
  Worklist.explore (expandEntry floatText) value.nodes [(value, initiallySensitive)]

def containsSensitiveJson (value : Value) : Bool :=
  containsObviousSecretInJson floatText false value

end scanner

/-! ## What the scanner finds -/

/-- The entries the scanner would visit in a value if it never answered early. -/
inductive Visited (value : Value) (initial : Bool) : Value → Bool → Prop where
  | root : Visited value initial value initial
  | item {items : List Value} {item : Value} {context : Bool} :
      Visited value initial (.list items) context → item ∈ items →
      Visited value initial item context
  | member {members : List (Text × Value)} {key : Text} {child : Value} {context : Bool} :
      Visited value initial (.object members) context → (key, child) ∈ members →
      Visited value initial child (nextContext context key child)

/-- What makes the scanner answer at an entry. -/
inductive Exposes (floatText : Text → Text) : Value → Bool → Prop where
  | obvious {value : Text} {context : Bool} : containsObviousSecret value = true →
      Exposes floatText (.str value) context
  | candidate {value : Text} : looksLikeSecretCandidate value = true →
      Exposes floatText (.str value) true
  | number {current : Value} : isNumber current = true →
      8 ≤ (numberText floatText current).length → Exposes floatText current true
  | member {members : List (Text × Value)} {key : Text} {child : Value} {context : Bool} :
      (key, child) ∈ members → memberIsSecret context key child = true →
      Exposes floatText (.object members) context

/-- Some entry of the value makes the scanner answer. -/
def Exposed (floatText : Text → Text) (initial : Bool) (value : Value) : Prop :=
  ∃ current context, Visited value initial current context ∧ Exposes floatText current context

section spec
variable {floatText : Text → Text}

lemma expandMembers_eq_none {context : Bool} {members : List (Text × Value)} :
    expandMembers context members = none ↔
      ∃ key child, (key, child) ∈ members ∧ memberIsSecret context key child = true := by
  induction members with
  | nil => simp [expandMembers]
  | cons member members ih =>
    obtain ⟨key, child⟩ := member
    simp only [expandMembers]
    split
    case isTrue hsecret => simpa using ⟨key, child, .inl ⟨rfl, rfl⟩, hsecret⟩
    case isFalse hclean =>
      rw [Option.map_eq_none_iff, ih]
      constructor
      · rintro ⟨k, c, hmem, hsecret⟩
        exact ⟨k, c, .tail _ hmem, hsecret⟩
      · rintro ⟨k, c, hmem, hsecret⟩
        cases hmem with
        | head => exact absurd hsecret hclean
        | tail _ hmem => exact ⟨k, c, hmem, hsecret⟩

lemma expandMembers_eq_some {context : Bool} {members : List (Text × Value)}
    {pushed : List (Value × Bool)} (h : expandMembers context members = some pushed) :
    pushed = members.map fun member => (member.2, nextContext context member.1 member.2) := by
  induction members generalizing pushed with
  | nil => simpa [expandMembers] using h.symm
  | cons member members ih =>
    obtain ⟨key, child⟩ := member
    simp only [expandMembers] at h
    split at h
    case isTrue => cases h
    case isFalse =>
      obtain ⟨rest, hrest, rfl⟩ := Option.map_eq_some_iff.mp h
      rw [ih hrest]
      rfl

/-- The scanner answers at an entry exactly when the entry exposes something. -/
lemma expandEntry_eq_none {current : Value} {context : Bool} :
    expandEntry floatText (current, context) = none ↔ Exposes floatText current context := by
  cases current with
  | object members =>
    simp only [expandEntry, expandMembers_eq_none]
    constructor
    · rintro ⟨key, child, hmem, hsecret⟩
      exact .member hmem hsecret
    · rintro (_ | _ | ⟨hnumber, _⟩ | ⟨hmem, hsecret⟩)
      · cases hnumber
      · exact ⟨_, _, hmem, hsecret⟩
  | list items =>
    simp only [expandEntry, reduceCtorEq, false_iff]
    rintro (_ | _ | ⟨hnumber, _⟩)
    cases hnumber
  | str value =>
    simp only [expandEntry]
    constructor
    · intro h
      split at h
      case isTrue hsecret =>
        obtain hcandidate | hobvious := Bool.or_eq_true _ _ ▸ hsecret
        · obtain ⟨rfl, hcandidate⟩ := Bool.and_eq_true _ _ ▸ hcandidate
          exact .candidate hcandidate
        · exact .obvious hobvious
      case isFalse => cases h
    · rintro (hobvious | hcandidate | ⟨hnumber, _⟩)
      · simp [hobvious]
      · simp [hcandidate]
      · cases hnumber
  | _ =>
    simp only [expandEntry]
    constructor
    · intro h
      split at h
      case isTrue hsecret =>
        simp only [Bool.and_eq_true, decide_eq_true_eq] at hsecret
        obtain ⟨⟨rfl, hnumber⟩, hlong⟩ := hsecret
        exact .number hnumber hlong
      case isFalse => cases h
    · rintro (_ | _ | ⟨hnumber, hlong⟩)
      simp [hnumber, hlong]

lemma expandEntry_nodes {entry : Value × Bool} {pushed : List (Value × Bool)}
    (h : expandEntry floatText entry = some pushed) :
    (pushed.map fun entry => entry.1.nodes).sum < entry.1.nodes := by
  obtain ⟨current, context⟩ := entry
  cases current with
  | object members =>
    rw [expandMembers_eq_some h]
    simp [Value.nodes, Value.memberNodes_eq, Function.comp_def]
  | list items =>
    obtain rfl : items.map (·, context) = pushed := by simpa [expandEntry] using h
    simp [Value.nodes, Value.itemNodes_eq, Function.comp_def]
  | _ =>
    simp only [expandEntry] at h
    split at h
    · cases h
    · obtain rfl : [] = pushed := by simpa using h
      simp [Value.nodes]

lemma visited_of_reaches {initial : Bool} {value : Value} {last : Value × Bool}
    (h : Worklist.Reaches (expandEntry floatText) (value, initial) last) :
    Visited value initial last.1 last.2 := by
  induction h with
  | refl => exact .root
  | @step middle last pushed _ hpushed hlast ih =>
    obtain ⟨current, context⟩ := middle
    cases current with
    | object members =>
      rw [expandMembers_eq_some hpushed, List.mem_map] at hlast
      obtain ⟨member, hmem, rfl⟩ := hlast
      exact .member ih hmem
    | list items =>
      obtain rfl : items.map (·, context) = pushed := by simpa [expandEntry] using hpushed
      obtain ⟨item, hmem, rfl⟩ := List.mem_map.mp hlast
      exact .item ih hmem
    | _ =>
      simp only [expandEntry] at hpushed
      split at hpushed
      · cases hpushed
      · obtain rfl : [] = pushed := by simpa using hpushed
        cases hlast

/-- On the way to an entry the scanner may answer before it gets there. -/
lemma Visited.reached (floatText : Text → Text) {initial context : Bool} {value current : Value}
    (h : Visited value initial current context) :
    Worklist.Answers (expandEntry floatText) (value, initial) ∨
      Worklist.Reaches (expandEntry floatText) (value, initial) (current, context) := by
  induction h with
  | root => exact .inr .refl
  | item _ hmem ih =>
    refine ih.imp_right fun hreach => .step hreach rfl ?_
    exact List.mem_map_of_mem hmem
  | @member members key child context _ hmem ih =>
    obtain hanswers | hreach := ih
    · exact .inl hanswers
    · cases hpushed : expandMembers context members with
      | none => exact .inl ⟨_, hreach, hpushed⟩
      | some pushed =>
        refine .inr (.step hreach hpushed ?_)
        rw [expandMembers_eq_some hpushed]
        exact List.mem_map.mpr ⟨_, hmem, rfl⟩

/-- The scanner answers exactly for the values that expose something. -/
theorem containsObviousSecretInJson_iff {initial : Bool} {value : Value} :
    containsObviousSecretInJson floatText initial value = true ↔
      Exposed floatText initial value := by
  rw [containsObviousSecretInJson, Worklist.explore_eq_true_iff (fun entry => entry.1.nodes)
    (fun _ _ => expandEntry_nodes) (by simp) (fun entry => entry.1.nodes_pos)]
  simp only [List.mem_singleton, exists_eq_left]
  constructor
  · rintro ⟨⟨current, context⟩, hreach, hanswer⟩
    exact ⟨current, context, visited_of_reaches hreach, expandEntry_eq_none.mp hanswer⟩
  · rintro ⟨current, context, hvisited, hexposes⟩
    obtain hanswers | hreach := hvisited.reached floatText
    · exact hanswers
    · exact ⟨_, hreach, expandEntry_eq_none.mpr hexposes⟩

/-- Whatever surrounds it, every value inside another one is visited. -/
lemma exists_visited {initial : Bool} {value current : Value} (h : value.Within current) :
    ∃ context, Visited value initial current context := by
  induction h with
  | root => exact ⟨initial, .root⟩
  | item _ hmem ih =>
    obtain ⟨context, hvisited⟩ := ih
    exact ⟨context, .item hvisited hmem⟩
  | member _ hmem ih =>
    obtain ⟨context, hvisited⟩ := ih
    exact ⟨_, .member hvisited hmem⟩

end spec

/-! ## Keys and leaves -/

/-- Some string leaf is credential-shaped. -/
def HasObviousLeaf (value : Value) : Prop :=
  ∃ leaf, value.Within (.str leaf) ∧ containsObviousSecret leaf = true

/-- Some key is credential-shaped. -/
def HasObviousKey (value : Value) : Prop :=
  ∃ members key child, value.Within (.object members) ∧ (key, child) ∈ members ∧
    containsObviousSecret key = true

/-- The scanner finds every credential-shaped leaf, in every context. -/
lemma HasObviousLeaf.exposed {floatText : Text → Text} {initial : Bool} {value : Value}
    (h : HasObviousLeaf value) : Exposed floatText initial value := by
  obtain ⟨leaf, hwithin, hobvious⟩ := h
  obtain ⟨context, hvisited⟩ := exists_visited hwithin
  exact ⟨_, context, hvisited, .obvious hobvious⟩

end Modall.Security
