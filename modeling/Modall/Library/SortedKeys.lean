import Mathlib
import Modall.Library.Dumps
import Modall.Library.Places

/-!
# Values with sorted keys

Sorting the members of a value twice is sorting them once, looking a key up finds what it found
before, and a sorted value is the one it was made of up to the order of members, once the floats are
spelled alike.
-/
namespace Modall.Library.Json

/-- The order in which members are written. -/
abbrev byKey (a b : Text × Value) : Prop := a.1 ≤ b.1

/-- The sort is stable, so the first member under a key stays the first. -/
lemma lookup_insertionSort (members : List (Text × Value)) (key : Text) :
    (members.insertionSort byKey).lookup key = members.lookup key := by
  have inserted (member : Text × Value) (rest : List (Text × Value)) :
      (rest.orderedInsert byKey member).lookup key = (member :: rest).lookup key := by
    induction rest with
    | nil => rfl
    | cons first rest ih =>
      rw [List.orderedInsert_cons]
      split
      · rfl
      case isFalse hlt =>
        rw [List.lookup_cons, ih, List.lookup_cons, List.lookup_cons, List.lookup_cons]
        grind
  induction members with
  | nil => rfl
  | cons member members ih =>
    rw [List.insertionSort_cons, inserted, List.lookup_cons, List.lookup_cons, ih]

namespace Value
variable {floatText : Text → Text}

lemma sortedItems_eq (items : List Value) :
    sortedItems floatText items = items.map (·.sorted floatText) := by
  induction items with
  | nil => rfl
  | cons item items ih => rw [sortedItems, ih, List.map_cons]

lemma sortedMembers_eq (members : List (Text × Value)) :
    sortedMembers floatText members = members.map fun m => (m.1, m.2.sorted floatText) := by
  induction members with
  | nil => rfl
  | cons member members ih => rw [sortedMembers, ih, List.map_cons]

/-- The members of a sorted object. -/
def sortMembers (floatText : Text → Text) (members : List (Text × Value)) : List (Text × Value) :=
  (members.map fun m => (m.1, m.2.sorted floatText)).insertionSort byKey

@[simp]
lemma sorted_list (items : List Value) :
    (Value.list items).sorted floatText = .list (items.map (·.sorted floatText)) := by
  rw [sorted, sortedItems_eq]

@[simp]
lemma sorted_object (members : List (Text × Value)) :
    (Value.object members).sorted floatText = .object (sortMembers floatText members) := by
  rw [sorted, sortedMembers_eq, sortMembers]

@[simp] lemma sorted_str (value : Text) : (Value.str value).sorted floatText = .str value := rfl

lemma lookup_sortMembers (members : List (Text × Value)) (key : Text) :
    (sortMembers floatText members).lookup key =
      (members.lookup key).map (·.sorted floatText) := by
  rw [sortMembers, lookup_insertionSort]
  induction members with
  | nil => rfl
  | cons member members ih =>
    rw [List.map_cons, List.lookup_cons, List.lookup_cons, ih]
    split <;> rfl

lemma sortMembers_of_fixed {members : List (Text × Value)}
    (hfixed : ∀ m ∈ members, m.2.sorted floatText = m.2) (hsorted : members.Pairwise byKey) :
    sortMembers floatText members = members := by
  have hmap : members.map (fun m => (m.1, m.2.sorted floatText)) = members.map id :=
    List.map_congr_left fun m hm => by rw [hfixed m hm]; rfl
  rw [sortMembers, hmap, List.map_id, hsorted.insertionSort_eq]

/-- What holds of a value when it holds of the values one level down holds of all values. -/
theorem childInduction {motive : Value → Prop}
    (step : ∀ v : Value, (∀ child ∈ v.children, motive child) → motive v) (v : Value) : motive v := by
  have below {child v : Value} (h : child ∈ v.children) : child.nodes < v.nodes := by
    cases v with
    | list items =>
      have hle : child.nodes ≤ (items.map nodes).sum :=
        List.single_le_sum (by simp) _ (List.mem_map_of_mem h)
      rw [nodes, itemNodes_eq]
      omega
    | object members =>
      obtain ⟨member, hmember, rfl⟩ := List.mem_map.1 h
      have hle : member.2.nodes ≤ (members.map fun m => m.2.nodes).sum :=
        List.single_le_sum (by simp) _ (List.mem_map.2 ⟨member, hmember, rfl⟩)
      rw [nodes, memberNodes_eq]
      omega
    | _ => cases h
  induction hn : v.nodes using Nat.strong_induction_on generalizing v with
  | _ n ih =>
    exact step v fun child hchild => ih child.nodes (hn ▸ below hchild) child rfl

/-- Sorting once is enough when floats are spelled as they are written. -/
theorem sorted_sorted (hfloat : ∀ spelling, floatText (floatText spelling) = floatText spelling)
    (v : Value) : (v.sorted floatText).sorted floatText = v.sorted floatText := by
  induction v using childInduction with
  | step v ih =>
    cases v with
    | float spelling => simp only [sorted, hfloat]
    | list items =>
      rw [sorted_list, sorted_list, List.map_map]
      congr 1
      exact List.map_congr_left ih
    | object members =>
      rw [sorted_object, sorted_object]
      congr 1
      refine sortMembers_of_fixed (fun m hm => ?_) (List.pairwise_insertionSort byKey _)
      rw [sortMembers, List.mem_insertionSort, List.mem_map] at hm
      obtain ⟨member, hmember, rfl⟩ := hm
      exact ih member.2 (List.mem_map_of_mem hmember)
    | _ => rfl

/-! ## The spelling of floats -/

mutual

/-- The value with its floats spelled as they are written. -/
def respell (floatText : Text → Text) : Value → Value
  | .float spelling => .float (floatText spelling)
  | .list items => .list (respellItems floatText items)
  | .object members => .object (respellMembers floatText members)
  | v => v

def respellItems (floatText : Text → Text) : List Value → List Value
  | [] => []
  | item :: items => item.respell floatText :: respellItems floatText items

def respellMembers (floatText : Text → Text) : List (Text × Value) → List (Text × Value)
  | [] => []
  | (key, child) :: members => (key, child.respell floatText) :: respellMembers floatText members

end

@[simp]
lemma respell_list (items : List Value) :
    (Value.list items).respell floatText = .list (items.map (·.respell floatText)) := by
  rw [respell]
  congr 1
  induction items with
  | nil => rfl
  | cons item items ih => rw [respellItems, ih, List.map_cons]

@[simp]
lemma respell_object (members : List (Text × Value)) :
    (Value.object members).respell floatText =
      .object (members.map fun m => (m.1, m.2.respell floatText)) := by
  rw [respell]
  congr 1
  induction members with
  | nil => rfl
  | cons member members ih => rw [respellMembers, ih, List.map_cons]

/-- A list with its items replaced one by one, behind those that are replaced already. -/
lemma reordered_list (f g : Value → Value) {items : List Value}
    (h : ∀ item ∈ items, (f item).Reordered (g item)) (before : List Value) :
    (Value.list (before ++ items.map f)).Reordered (.list (before ++ items.map g)) := by
  induction items generalizing before with
  | nil => exact .refl _
  | cons item items ih =>
    have first := Reordered.item before (items.map f) (h item List.mem_cons_self)
    have rest := ih (fun other hother => h other (List.mem_cons_of_mem _ hother))
      (before ++ [g item])
    rw [List.append_assoc, List.append_assoc] at rest
    exact first.trans rest

lemma reordered_object (f g : Value → Value) {members : List (Text × Value)}
    (h : ∀ m ∈ members, (f m.2).Reordered (g m.2)) (before : List (Text × Value)) :
    (Value.object (before ++ members.map fun m => (m.1, f m.2))).Reordered
      (.object (before ++ members.map fun m => (m.1, g m.2))) := by
  induction members generalizing before with
  | nil => exact .refl _
  | cons member members ih =>
    obtain ⟨key, child⟩ := member
    have first := Reordered.member before (members.map fun m => (m.1, f m.2)) key
      (h (key, child) List.mem_cons_self)
    have rest := ih (fun other hother => h other (List.mem_cons_of_mem _ hother))
      (before ++ [(key, g child)])
    rw [List.append_assoc, List.append_assoc] at rest
    exact first.trans rest

/-- Sorting changes the order of members and nothing else. -/
theorem reordered_sorted (v : Value) : (v.respell floatText).Reordered (v.sorted floatText) := by
  induction v using childInduction with
  | step v ih =>
    cases v with
    | list items =>
      rw [sorted_list, respell_list]
      exact reordered_list _ _ ih []
    | object members =>
      rw [sorted_object, respell_object]
      exact (reordered_object _ _ (fun m hm => ih m.2 (List.mem_map_of_mem hm)) []).trans
        (.perm (List.perm_insertionSort byKey _).symm)
    | _ =>
      simp only [respell, sorted]
      exact .refl _

end Value

end Modall.Library.Json
