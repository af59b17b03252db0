import Mathlib
import Modall.Library.Json

/-!
# Places in a JSON value

A place is a path down from the root, by keys and by indices, and the value that stands there.
-/
namespace Modall.Library.Json

/-- One step down. -/
inductive Step where
  | member (key : Text)
  | item (index : Nat)
  deriving DecidableEq

abbrev Path := List Step

namespace Value

/-- The value one step down. -/
def child : Value → Step → Option Value
  | .object members, .member key => members.lookup key
  | .list items, .item index => items[index]?
  | _, _ => none

/-- The value at the end of a path. -/
def find (v : Value) : Path → Option Value
  | [] => some v
  | step :: path => (v.child step).bind (·.find path)

@[simp]
lemma find_nil (v : Value) : v.find [] = some v := rfl

lemma find_cons (v : Value) (step : Step) (path : Path) :
    v.find (step :: path) = (v.child step).bind (·.find path) := rfl

lemma find_append (v : Value) (path path' : Path) :
    v.find (path ++ path') = (v.find path).bind (·.find path') := by
  induction path generalizing v with
  | nil => rfl
  | cons step path ih => simp [find_cons, ih, Option.bind_assoc]

lemma find_snoc {v u : Value} {path : Path} (h : v.find path = some u) (step : Step) :
    v.find (path ++ [step]) = u.child step := by
  simp [find_append, h, find_cons]


/-! ## Keys -/

lemma Within.trans {u v w : Value} (huv : u.Within v) (hvw : v.Within w) : u.Within w := by
  induction hvw with
  | root => exact huv
  | item _ hmem ih => exact .item ih hmem
  | member _ hmem ih => exact .member ih hmem

/-- The values one level down. -/
def children : Value → List Value
  | .list items => items
  | .object members => members.map Prod.snd
  | _ => []

lemma within_iff {v w : Value} : v.Within w ↔ w = v ∨ ∃ child ∈ v.children, child.Within w := by
  constructor
  · intro h
    induction h with
    | root => exact .inl rfl
    | item _ hmem ih =>
      obtain rfl | ⟨child, hchild, hwithin⟩ := ih
      · exact .inr ⟨_, hmem, .root⟩
      · exact .inr ⟨child, hchild, .item hwithin hmem⟩
    | member _ hmem ih =>
      obtain rfl | ⟨child, hchild, hwithin⟩ := ih
      · exact .inr ⟨_, List.mem_map.2 ⟨_, hmem, rfl⟩, .root⟩
      · exact .inr ⟨child, hchild, .member hwithin hmem⟩
  · rintro (rfl | ⟨child, hchild, hwithin⟩)
    · exact .root
    · refine Within.trans ?_ hwithin
      cases v with
      | list items => exact .item .root hchild
      | object members =>
        obtain ⟨⟨key, value⟩, hmem, rfl⟩ := List.mem_map.1 hchild
        exact .member .root hmem
      | _ => simp [children] at hchild

/-- Every object has each of its keys once, as in a Python dict. -/
def WellKeyed (v : Value) : Prop :=
  ∀ members, v.Within (.object members) → (members.map Prod.fst).Nodup

lemma WellKeyed.within {v u : Value} (h : v.WellKeyed) (hwithin : v.Within u) : u.WellKeyed :=
  fun members hmembers => h members (hwithin.trans hmembers)

lemma wellKeyed_object {members : List (Text × Value)} :
    (Value.object members).WellKeyed ↔
      (members.map Prod.fst).Nodup ∧ ∀ member ∈ members, member.2.WellKeyed := by
  constructor
  · exact fun h => ⟨h members .root, fun member hmem => h.within (.member .root hmem)⟩
  · rintro ⟨hnodup, hmembers⟩ others hothers
    obtain heq | ⟨child, hchild, hwithin⟩ := within_iff.1 hothers
    · cases heq
      exact hnodup
    · obtain ⟨member, hmem, rfl⟩ := List.mem_map.1 hchild
      exact hmembers member hmem others hwithin

lemma wellKeyed_list {items : List Value} :
    (Value.list items).WellKeyed ↔ ∀ item ∈ items, item.WellKeyed := by
  constructor
  · exact fun h item hmem => h.within (.item .root hmem)
  · intro hitems others hothers
    obtain heq | ⟨child, hchild, hwithin⟩ := within_iff.1 hothers
    · cases heq
    · exact hitems child hchild others hwithin

lemma wellKeyed_str (value : Text) : (Value.str value).WellKeyed := by
  intro members hmembers
  obtain heq | ⟨child, hchild, -⟩ := within_iff.1 hmembers
  · cases heq
  · cases hchild

/-- Where keys do not repeat, a member is what looking its key up finds. -/
lemma lookup_eq_some_iff_mem {β : Type} {entries : List (Text × β)} {key : Text} {value : β}
    (h : (entries.map Prod.fst).Nodup) : entries.lookup key = some value ↔ (key, value) ∈ entries := by
  induction entries with
  | nil => simp
  | cons entry entries ih =>
    obtain ⟨first, firstValue⟩ := entry
    rw [List.map_cons, List.nodup_cons] at h
    rw [List.lookup_cons, List.mem_cons]
    by_cases hkey : key = first
    · subst hkey
      have hnone : (key, value) ∉ entries := fun hmem => h.1 (List.mem_map.2 ⟨_, hmem, rfl⟩)
      simp [hnone, eq_comm]
    · simp [hkey, ih h.2, beq_false_of_ne hkey]

lemma within_of_child {v u : Value} {step : Step} (h : v.child step = some u) : v.Within u := by
  cases v with
  | object members =>
    cases step with
    | member key =>
      obtain ⟨before, after, heq, -⟩ := List.lookup_eq_some_iff.1 h
      exact .member .root (heq ▸ List.mem_append_right _ List.mem_cons_self)
    | item index => cases h
  | list items =>
    cases step with
    | member key => cases h
    | item index => exact .item .root (List.mem_of_getElem? h)
  | _ => cases h

lemma within_of_find {v u : Value} {path : Path} (h : v.find path = some u) : v.Within u := by
  induction path generalizing v with
  | nil =>
    obtain rfl : v = u := by simpa using h
    exact .root
  | cons step path ih =>
    obtain ⟨w, hw, hrest⟩ := Option.bind_eq_some_iff.1 h
    exact (within_of_child hw).trans (ih hrest)

/-! ## The order of members -/

/-- One value is the other with the members of its objects in other orders. -/
inductive Reordered : Value → Value → Prop where
  | refl (v : Value) : Reordered v v
  | trans {u v w : Value} : Reordered u v → Reordered v w → Reordered u w
  | perm {members members' : List (Text × Value)} : members.Perm members' →
      Reordered (.object members) (.object members')
  | item {item item' : Value} (before after : List Value) : Reordered item item' →
      Reordered (.list (before ++ item :: after)) (.list (before ++ item' :: after))
  | member {child child' : Value} (before after : List (Text × Value)) (key : Text) :
      Reordered child child' →
      Reordered (.object (before ++ (key, child) :: after))
        (.object (before ++ (key, child') :: after))

namespace Reordered
variable {v w : Value}

lemma symm (h : Reordered v w) : Reordered w v := by
  induction h with
  | refl v => exact .refl v
  | trans _ _ ihu ihv => exact .trans ihv ihu
  | perm hperm => exact .perm hperm.symm
  | item before after _ ih => exact .item before after ih
  | member before after key _ ih => exact .member before after key ih

lemma wellKeyed (h : Reordered v w) (hv : v.WellKeyed) : w.WellKeyed := by
  induction h with
  | refl v => exact hv
  | trans _ _ ihu ihv => exact ihv (ihu hv)
  | perm hperm =>
    obtain ⟨hnodup, hmembers⟩ := wellKeyed_object.1 hv
    exact wellKeyed_object.2 ⟨(hperm.map Prod.fst).nodup_iff.1 hnodup,
      fun member hmem => hmembers member (hperm.mem_iff.2 hmem)⟩
  | item before after _ ih =>
    rw [wellKeyed_list] at hv ⊢
    simp only [List.mem_append, List.mem_cons] at hv ⊢
    grind
  | member before after key _ ih =>
    rw [wellKeyed_object] at hv ⊢
    simp only [List.map_append, List.map_cons, List.mem_append, List.mem_cons] at hv ⊢
    refine ⟨hv.1, fun member hmem => ?_⟩
    obtain hmem | rfl | hmem := hmem
    · exact hv.2 member (.inl hmem)
    · exact ih (hv.2 _ (.inr (.inl rfl)))
    · exact hv.2 member (.inr (.inr hmem))

/-- The members of an object keep their keys, and their values up to the order. -/
lemma members {members : List (Text × Value)} (h : Reordered (.object members) w) :
    ∃ members', w = .object members' ∧
      ∀ key child, (key, child) ∈ members → ∃ child', (key, child') ∈ members' ∧
        Reordered child child' := by
  generalize hv : Value.object members = v at h
  induction h generalizing members with
  | refl v => exact ⟨members, hv.symm, fun key child hmem => ⟨child, hmem, .refl child⟩⟩
  | trans _ _ ihu ihv =>
    obtain ⟨middle, rfl, hmiddle⟩ := ihu hv
    obtain ⟨members', rfl, hmembers'⟩ := ihv rfl
    refine ⟨members', rfl, fun key child hmem => ?_⟩
    obtain ⟨child', hmem', hchild'⟩ := hmiddle key child hmem
    obtain ⟨child'', hmem'', hchild''⟩ := hmembers' key child' hmem'
    exact ⟨child'', hmem'', hchild'.trans hchild''⟩
  | perm hperm =>
    cases hv
    exact ⟨_, rfl, fun key child hmem => ⟨child, hperm.mem_iff.1 hmem, .refl child⟩⟩
  | item before after _ ih => cases hv
  | @member child child' before after key hchild ih =>
    cases hv
    refine ⟨_, rfl, fun other value hmem => ?_⟩
    simp only [List.mem_append, List.mem_cons, Prod.mk.injEq] at hmem ⊢
    obtain hmem | ⟨rfl, rfl⟩ | hmem := hmem
    · exact ⟨value, .inl hmem, .refl value⟩
    · exact ⟨child', .inr (.inl ⟨rfl, rfl⟩), hchild⟩
    · exact ⟨value, .inr (.inr hmem), .refl value⟩

/-- The items of a list keep their places, and their values up to the order. -/
lemma items {items : List Value} (h : Reordered (.list items) w) :
    ∃ items', w = .list items' ∧
      ∀ (index : Nat) item, items[index]? = some item → ∃ item', items'[index]? = some item' ∧
        Reordered item item' := by
  generalize hv : Value.list items = v at h
  induction h generalizing items with
  | refl v => exact ⟨items, hv.symm, fun index item hmem => ⟨item, hmem, .refl item⟩⟩
  | trans _ _ ihu ihv =>
    obtain ⟨middle, rfl, hmiddle⟩ := ihu hv
    obtain ⟨items', rfl, hitems'⟩ := ihv rfl
    refine ⟨items', rfl, fun index item hmem => ?_⟩
    obtain ⟨item', hmem', hitem'⟩ := hmiddle index item hmem
    obtain ⟨item'', hmem'', hitem''⟩ := hitems' index item' hmem'
    exact ⟨item'', hmem'', hitem'.trans hitem''⟩
  | perm hperm => cases hv
  | @item item item' before after hitem ih =>
    cases hv
    refine ⟨_, rfl, fun index value hvalue => ?_⟩
    obtain hlt | rfl | hgt := lt_trichotomy index before.length
    · rw [List.getElem?_append_left hlt] at hvalue ⊢
      exact ⟨value, hvalue, .refl value⟩
    · obtain rfl : item = value := by simpa using hvalue
      exact ⟨item', by simp, hitem⟩
    · refine ⟨value, ?_, .refl value⟩
      obtain ⟨offset, rfl⟩ := Nat.exists_eq_add_of_lt hgt
      rw [List.getElem?_append_right (by omega)] at hvalue ⊢
      have hoffset : before.length + offset + 1 - before.length = offset + 1 := by omega
      simpa only [hoffset, List.getElem?_cons_succ] using hvalue
  | member before after key _ ih => cases hv

/-- A value without parts stays as it is. -/
lemma eq_of_children (h : Reordered v w) (hlist : ∀ items, v ≠ .list items)
    (hobject : ∀ members, v ≠ .object members) : w = v := by
  induction h with
  | refl v => rfl
  | trans _ _ ihu ihv =>
    obtain rfl := ihu hlist hobject
    exact ihv hlist hobject
  | perm hperm => exact (hobject _ rfl).elim
  | item before after _ ih => exact (hlist _ rfl).elim
  | member before after key _ ih => exact (hobject _ rfl).elim

/-- The same path leads to the same value, up to the order. -/
lemma child (h : Reordered v w) (hv : v.WellKeyed) {step : Step} {u : Value}
    (hu : v.child step = some u) : ∃ u', w.child step = some u' ∧ Reordered u u' := by
  cases v with
  | object members =>
    cases step with
    | item index => cases hu
    | member key =>
      obtain ⟨members', rfl, hmembers⟩ := h.members
      have hnodup := (wellKeyed_object.1 hv).1
      have hnodup' := (wellKeyed_object.1 (h.wellKeyed hv)).1
      obtain ⟨u', hu', hreordered⟩ := hmembers key u ((lookup_eq_some_iff_mem hnodup).1 hu)
      exact ⟨u', (lookup_eq_some_iff_mem hnodup').2 hu', hreordered⟩
  | list items =>
    cases step with
    | member key => cases hu
    | item index =>
      obtain ⟨items', rfl, hitems⟩ := h.items
      exact hitems index u hu
  | _ => cases hu

lemma find (h : Reordered v w) (hv : v.WellKeyed) {path : Path} {u : Value}
    (hu : v.find path = some u) : ∃ u', w.find path = some u' ∧ Reordered u u' := by
  induction path generalizing v w with
  | nil =>
    obtain rfl : v = u := by simpa using hu
    exact ⟨w, rfl, h⟩
  | cons step path ih =>
    obtain ⟨middle, hmiddle, hrest⟩ := Option.bind_eq_some_iff.1 hu
    obtain ⟨middle', hmiddle', hreordered⟩ := h.child hv hmiddle
    obtain ⟨u', hu', hreordered'⟩ := ih hreordered (hv.within (within_of_child hmiddle)) hrest
    exact ⟨u', by simp [find_cons, hmiddle', hu'], hreordered'⟩

end Reordered

end Value

/-- An object of the program: where it stands in the root, which is what tells it apart from other
objects, and its value. -/
structure Place where
  path : Path
  value : Value

namespace Place

def root (v : Value) : Place := ⟨[], v⟩

/-- The place one step down. -/
def child (place : Place) (step : Step) : Option Place :=
  (place.value.child step).map fun value => ⟨place.path ++ [step], value⟩

/-- The place exists in the root. -/
def In (v : Value) (place : Place) : Prop := v.find place.path = some place.value

lemma root_in (v : Value) : (root v).In v := rfl

lemma In.child {v : Value} {place place' : Place} {step : Step} (h : place.In v)
    (hchild : place.child step = some place') : place'.In v := by
  obtain ⟨value, hvalue, rfl⟩ := Option.map_eq_some_iff.1 hchild
  exact (Value.find_snoc h step).trans hvalue

lemma child_eq_some {place place' : Place} {step : Step} (h : place.child step = some place') :
    place.value.child step = some place'.value ∧ place'.path = place.path ++ [step] := by
  obtain ⟨value, hvalue, rfl⟩ := Option.map_eq_some_iff.1 h
  exact ⟨hvalue, rfl⟩

/-- The members of an object, each with its key. -/
def members (place : Place) : List (Text × Place) :=
  match place.value with
  | .object members =>
    members.map fun member => (member.1, ⟨place.path ++ [.member member.1], member.2⟩)
  | _ => []

/-- The items of a list. -/
def items (place : Place) : List Place :=
  match place.value with
  | .list items => items.zipIdx.map fun item => ⟨place.path ++ [.item item.2], item.1⟩
  | _ => []

lemma mem_members_iff {place child : Place} {key : Text} (h : place.value.WellKeyed) :
    (key, child) ∈ place.members ↔ place.child (.member key) = some child := by
  obtain ⟨path, value⟩ := place
  obtain ⟨childPath, childValue⟩ := child
  cases value with
  | object members =>
    have hnodup := (Value.wellKeyed_object.1 h).1
    simp only [Place.members, List.mem_map, Prod.mk.injEq, mk.injEq, Prod.exists, Place.child,
      Option.map_eq_some_iff, Value.child, Value.lookup_eq_some_iff_mem hnodup]
    grind
  | _ => simp [Place.members, Place.child, Value.child]

lemma mem_items_iff {place child : Place} :
    child ∈ place.items ↔ ∃ index, place.child (.item index) = some child := by
  obtain ⟨path, value⟩ := place
  obtain ⟨childPath, childValue⟩ := child
  cases value with
  | list items =>
    simp only [Place.items, List.mem_map, mk.injEq, Prod.exists, Place.child,
      Option.map_eq_some_iff, Value.child, List.mem_zipIdx_iff_getElem?]
    grind
  | _ => simp [Place.items, Place.child, Value.child]

lemma In.wellKeyed {v : Value} {place : Place} (h : place.In v) (hv : v.WellKeyed) :
    place.value.WellKeyed :=
  hv.within (Value.within_of_find h)

lemma In.member {v : Value} {place child : Place} {key : Text} (h : place.In v) (hv : v.WellKeyed)
    (hmem : (key, child) ∈ place.members) : child.In v :=
  h.child ((mem_members_iff (h.wellKeyed hv)).1 hmem)

lemma In.item {v : Value} {place child : Place} (h : place.In v) (hmem : child ∈ place.items) :
    child.In v := by
  obtain ⟨index, hchild⟩ := mem_items_iff.1 hmem
  exact h.child hchild

/-- Two places with the same path in one value are the same. -/
lemma In.ext {v : Value} {place place' : Place} (h : place.In v) (h' : place'.In v)
    (hpath : place.path = place'.path) : place = place' := by
  obtain ⟨path, value⟩ := place
  obtain ⟨path', value'⟩ := place'
  obtain rfl : path = path' := hpath
  exact congrArg _ (Option.some.inj (h.symm.trans h'))

/-! ## All places -/

mutual

/-- The places in a value that stands at a path. -/
def below (path : Path) : Value → List Place
  | .list items => ⟨path, .list items⟩ :: itemsBelow path 0 items
  | .object members => ⟨path, .object members⟩ :: membersBelow path members
  | v => [⟨path, v⟩]

def itemsBelow (path : Path) (index : Nat) : List Value → List Place
  | [] => []
  | item :: items => below (path ++ [.item index]) item ++ itemsBelow path (index + 1) items

def membersBelow (path : Path) : List (Text × Value) → List Place
  | [] => []
  | (key, child) :: members => below (path ++ [.member key]) child ++ membersBelow path members

end

lemma mem_below_self (path : Path) (v : Value) : ⟨path, v⟩ ∈ below path v := by
  cases v <;> simp [below]

lemma below_item_subset {path : Path} {items : List Value} {index offset : Nat} {item : Value}
    (h : items[offset]? = some item) :
    below (path ++ [.item (index + offset)]) item ⊆ itemsBelow path index items := by
  induction items generalizing index offset with
  | nil => simp at h
  | cons first items ih =>
    rw [itemsBelow]
    cases offset with
    | zero =>
      obtain rfl : first = item := by simpa using h
      exact List.subset_append_left _ _
    | succ offset =>
      have hrest : below (path ++ [.item (index + 1 + offset)]) item ⊆
          itemsBelow path (index + 1) items := ih (by simpa using h)
      rw [Nat.add_assoc, Nat.add_comm 1] at hrest
      exact List.subset_append_of_subset_right _ hrest

lemma below_member_subset {path : Path} {members : List (Text × Value)} {key : Text}
    {child : Value} (h : (key, child) ∈ members) :
    below (path ++ [.member key]) child ⊆ membersBelow path members := by
  induction members with
  | nil => cases h
  | cons first members ih =>
    obtain ⟨firstKey, firstChild⟩ := first
    rw [membersBelow]
    obtain heq | hmem := List.mem_cons.1 h
    · cases heq
      exact List.subset_append_left _ _
    · exact List.subset_append_of_subset_right _ (ih hmem)

lemma below_child_subset {path : Path} {v u : Value} {step : Step} (h : v.child step = some u) :
    below (path ++ [step]) u ⊆ below path v := by
  cases v with
  | object members =>
    cases step with
    | item index => cases h
    | member key =>
      obtain ⟨before, after, heq, -⟩ := List.lookup_eq_some_iff.1 h
      have hmem : (key, u) ∈ members := heq ▸ List.mem_append_right _ List.mem_cons_self
      exact List.subset_cons_of_subset _ (below_member_subset hmem)
  | list items =>
    cases step with
    | member key => cases h
    | item index =>
      have hsub : below (path ++ [.item (0 + index)]) u ⊆ itemsBelow path 0 items :=
        below_item_subset h
      rw [Nat.zero_add] at hsub
      exact List.subset_cons_of_subset _ hsub
  | _ => cases h

/-- Every place that exists is in the list. -/
lemma mem_below {path rest : Path} {v u : Value} (h : v.find rest = some u) :
    ⟨path ++ rest, u⟩ ∈ below path v := by
  induction rest generalizing path v with
  | nil =>
    obtain rfl : v = u := by simpa using h
    simpa using mem_below_self path v
  | cons step rest ih =>
    obtain ⟨w, hw, hrest⟩ := Option.bind_eq_some_iff.1 h
    have hmem : ⟨path ++ [step] ++ rest, u⟩ ∈ below (path ++ [step]) w := ih hrest
    rw [List.append_assoc] at hmem
    exact below_child_subset hw hmem

lemma In.mem_below {v : Value} {place : Place} (h : place.In v) : place ∈ below [] v :=
  Place.mem_below h

/-! ## Places in reordered values -/

/-- The same place, up to the order of members. -/
def Reordered (place place' : Place) : Prop :=
  place.path = place'.path ∧ place.value.Reordered place'.value

namespace Reordered
variable {place place' : Place}

lemma symm (h : place.Reordered place') : place'.Reordered place := ⟨h.1.symm, h.2.symm⟩

lemma child (h : place.Reordered place') (hkeyed : place.value.WellKeyed) {step : Step}
    {below : Place} (hchild : place.child step = some below) :
    ∃ below', place'.child step = some below' ∧ below.Reordered below' := by
  obtain ⟨value, hvalue, rfl⟩ := Option.map_eq_some_iff.1 hchild
  obtain ⟨value', hvalue', hreordered⟩ := h.2.child hkeyed hvalue
  exact ⟨⟨place'.path ++ [step], value'⟩, by simp [Place.child, hvalue'], by rw [h.1], hreordered⟩

lemma member (h : place.Reordered place') (hkeyed : place.value.WellKeyed) {key : Text}
    {below : Place} (hmem : (key, below) ∈ place.members) :
    ∃ below', (key, below') ∈ place'.members ∧ below.Reordered below' := by
  obtain ⟨below', hchild', hreordered⟩ := h.child hkeyed ((mem_members_iff hkeyed).1 hmem)
  exact ⟨below', (mem_members_iff (h.2.wellKeyed hkeyed)).2 hchild', hreordered⟩

lemma item (h : place.Reordered place') (hkeyed : place.value.WellKeyed) {below : Place}
    (hmem : below ∈ place.items) : ∃ below' ∈ place'.items, below.Reordered below' := by
  obtain ⟨index, hchild⟩ := mem_items_iff.1 hmem
  obtain ⟨below', hchild', hreordered⟩ := h.child hkeyed hchild
  exact ⟨below', mem_items_iff.2 ⟨index, hchild'⟩, hreordered⟩

end Reordered

end Place

end Modall.Library.Json
