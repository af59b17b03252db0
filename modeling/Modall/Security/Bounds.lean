import Mathlib
import Modall.Library.Text

/-!
# Structural bounds

`validate_bounded_json` walks a value with an explicit stack and a running counter, and stops at the
first thing that breaks a bound. It returns exactly for the values whose depth, size and parts keep
the bounds, in whatever order their members stand.
-/
namespace Modall.Security

open Library

/-- A Python value: what JSON has, and anything else. A key that is no string is `none`. -/
inductive PyValue where
  | none
  | bool (b : Bool)
  | int (n : Int)
  | float (spelling : Text)
  | str (value : Text)
  | other
  | list (items : List PyValue)
  | dict (members : List (Option Text × PyValue))

def maxDepth : Nat := 32
def maxNodes : Nat := 4096
def maxEntries : Nat := 1024
def maxCharacters : Nat := 8192

/-- What one value asks of itself: the exception it raises, or the values to push. -/
def boundedChildren : PyValue → Except String (List PyValue)
  | .dict members =>
    if maxEntries < members.length then .error "metadata exceeds property limits"
    else if members.any fun member => member.1.all fun key => maxCharacters < key.length then
      .error "metadata contains an invalid key"
    else .ok (members.map Prod.snd)
  | .list items =>
    if maxEntries < items.length then .error "metadata exceeds item limits" else .ok items
  | .str value =>
    if maxCharacters < value.length then .error "metadata string exceeds limits" else .ok []
  | .other => .error "metadata contains a non-JSON value"
  | _ => .ok []

/-- The loop of `validate_bounded_json`. The counter goes up with every round, so it bounds the
rounds. -/
def boundedLoop : Nat → Nat → List (PyValue × Nat) → Except String Unit
  | _, _, [] => .ok ()
  | 0, _, _ :: _ => .error "metadata exceeds structural limits"
  | fuel + 1, count, (current, depth) :: stack =>
    if maxDepth < depth ∨ maxNodes < count + 1 then .error "metadata exceeds structural limits"
    else match boundedChildren current with
      | .error message => .error message
      | .ok children =>
        boundedLoop fuel (count + 1) ((children.map (·, depth + 1)).reverse ++ stack)

def validateBoundedJson (value : PyValue) : Except String Unit :=
  boundedLoop (maxNodes + 1) 0 [(value, 1)]

/-! ## The bounds -/

namespace PyValue

mutual

/-- The nesting depth; a value without parts has depth one. -/
def depth : PyValue → Nat
  | .list items => itemDepth items + 1
  | .dict members => memberDepth members + 1
  | _ => 1

def itemDepth : List PyValue → Nat
  | [] => 0
  | item :: items => max item.depth (itemDepth items)

def memberDepth : List (Option Text × PyValue) → Nat
  | [] => 0
  | (_, child) :: members => max child.depth (memberDepth members)

end

mutual

/-- The number of containers and leaves. -/
def nodes : PyValue → Nat
  | .list items => itemNodes items + 1
  | .dict members => memberNodes members + 1
  | _ => 1

def itemNodes : List PyValue → Nat
  | [] => 0
  | item :: items => item.nodes + itemNodes items

def memberNodes : List (Option Text × PyValue) → Nat
  | [] => 0
  | (_, child) :: members => child.nodes + memberNodes members

end

/-- The values that occur in a value. -/
inductive Within (v : PyValue) : PyValue → Prop where
  | root : Within v v
  | item {items : List PyValue} {item : PyValue} : Within v (.list items) → item ∈ items →
      Within v item
  | member {members : List (Option Text × PyValue)} {key : Option Text} {child : PyValue} :
      Within v (.dict members) → (key, child) ∈ members → Within v child

/-- What the bounds ask of each value by itself. -/
def Fits : PyValue → Prop
  | .dict members => members.length ≤ maxEntries ∧
      ∀ member ∈ members, ∃ key, member.1 = some key ∧ key.length ≤ maxCharacters
  | .list items => items.length ≤ maxEntries
  | .str value => value.length ≤ maxCharacters
  | .other => False
  | _ => True

/-- The recursive definition of the bounds. -/
structure Bounded (v : PyValue) : Prop where
  depth : v.depth ≤ maxDepth
  nodes : v.nodes ≤ maxNodes
  fits : ∀ u, v.Within u → u.Fits

@[simp]
lemma depth_pos (v : PyValue) : 1 ≤ v.depth := by
  cases v <;> simp [depth]

@[simp]
lemma nodes_pos (v : PyValue) : 1 ≤ v.nodes := by
  cases v <;> simp [nodes]

lemma itemDepth_le_iff {items : List PyValue} {n : Nat} :
    itemDepth items ≤ n ↔ ∀ item ∈ items, item.depth ≤ n := by
  induction items with
  | nil => simp [itemDepth]
  | cons item items ih => simp [itemDepth, Nat.max_le, ih]

lemma memberDepth_eq (members : List (Option Text × PyValue)) :
    memberDepth members = itemDepth (members.map Prod.snd) := by
  induction members with
  | nil => simp [memberDepth, itemDepth]
  | cons member members ih => simp [memberDepth, itemDepth, ih]

lemma itemNodes_eq (items : List PyValue) : itemNodes items = (items.map nodes).sum := by
  induction items with
  | nil => simp [itemNodes]
  | cons item items ih => simp [itemNodes, ih]

lemma memberNodes_eq (members : List (Option Text × PyValue)) :
    memberNodes members = itemNodes (members.map Prod.snd) := by
  induction members with
  | nil => simp [memberNodes, itemNodes]
  | cons member members ih => simp [memberNodes, itemNodes, ih]

/-- The values one level below. -/
def children : PyValue → List PyValue
  | .list items => items
  | .dict members => members.map Prod.snd
  | _ => []

lemma depth_le_iff {v : PyValue} {n : Nat} :
    v.depth ≤ n + 1 ↔ ∀ child ∈ v.children, child.depth ≤ n := by
  cases v <;> simp only [depth, children, memberDepth_eq, Nat.add_le_add_iff_right,
    itemDepth_le_iff, List.not_mem_nil, IsEmpty.forall_iff, implies_true, iff_true] <;> omega

lemma nodes_eq (v : PyValue) : v.nodes = (v.children.map nodes).sum + 1 := by
  cases v <;> simp [nodes, children, memberNodes_eq, itemNodes_eq]

lemma Within.trans {u v w : PyValue} (huv : u.Within v) (hvw : v.Within w) : u.Within w := by
  induction hvw with
  | root => exact huv
  | item _ hmem ih => exact .item ih hmem
  | member _ hmem ih => exact .member ih hmem

lemma within_child {v child : PyValue} (h : child ∈ v.children) : v.Within child := by
  cases v with
  | list items => exact .item .root h
  | dict members =>
    obtain ⟨⟨key, value⟩, hmem, rfl⟩ := List.mem_map.1 h
    exact .member .root hmem
  | _ => simp [children] at h

lemma within_iff {v w : PyValue} :
    v.Within w ↔ w = v ∨ ∃ child ∈ v.children, child.Within w := by
  constructor
  · intro h
    induction h with
    | root => exact .inl rfl
    | item _ hmem ih =>
      obtain rfl | ⟨child, hchild, hwithin⟩ := ih
      · exact .inr ⟨_, hmem, .root⟩
      · exact .inr ⟨child, hchild, .item hwithin hmem⟩
    | member _ hmem ih =>
      obtain rfl | ⟨child, hchild, hwithin⟩ := ih
      · exact .inr ⟨_, List.mem_map.2 ⟨_, hmem, rfl⟩, .root⟩
      · exact .inr ⟨child, hchild, .member hwithin hmem⟩
  · rintro (rfl | ⟨child, hchild, hwithin⟩)
    · exact .root
    · exact (within_child hchild).trans hwithin

lemma forall_within_iff {v : PyValue} {p : PyValue → Prop} :
    (∀ w, v.Within w → p w) ↔ p v ∧ ∀ child ∈ v.children, ∀ w, child.Within w → p w := by
  simp only [within_iff (v := v)]
  grind

end PyValue

open PyValue

/-! ## The loop -/

lemma boundedChildren_ok {v : PyValue} (h : v.Fits) : boundedChildren v = .ok v.children := by
  cases v with
  | dict members =>
    have hkeys : (members.any fun member => member.1.all fun key => maxCharacters < key.length) =
        false := by
      rw [List.any_eq_false]
      intro member hmem
      obtain ⟨key, hkey, hle⟩ := h.2 member hmem
      simp [hkey, hle]
    simp [boundedChildren, children, hkeys, h.1]
  | list items => simpa [boundedChildren, children, Fits] using h
  | str value => simpa [boundedChildren, children, Fits] using h
  | other => exact h.elim
  | _ => simp [boundedChildren, children]

lemma boundedChildren_error {v : PyValue} (h : ¬ v.Fits) :
    ∃ message, boundedChildren v = .error message := by
  cases v with
  | dict members =>
    simp only [boundedChildren]
    split
    · exact ⟨_, rfl⟩
    · split
      · exact ⟨_, rfl⟩
      · rename_i hlength hkeys
        refine (h ⟨by omega, fun member hmem => ?_⟩).elim
        rw [Bool.not_eq_true, List.any_eq_false] at hkeys
        have hkey := hkeys member hmem
        cases hfst : member.1 with
        | none => simp [hfst] at hkey
        | some key => exact ⟨key, rfl, by simpa [hfst] using hkey⟩
  | list items =>
    refine ⟨_, if_pos ?_⟩
    simpa [Fits] using h
  | str value =>
    refine ⟨_, if_pos ?_⟩
    simpa [Fits] using h
  | other => exact ⟨_, rfl⟩
  | _ => exact (h trivial).elim

/-- What the loop still asks of a value that waits at some depth. -/
def Waits (entry : PyValue × Nat) : Prop :=
  entry.1.depth + entry.2 ≤ maxDepth + 1 ∧ ∀ w, entry.1.Within w → w.Fits

lemma waits_iff {v : PyValue} {d : Nat} :
    Waits (v, d) ↔ d ≤ maxDepth ∧ v.Fits ∧ ∀ child ∈ v.children, Waits (child, d + 1) := by
  have hpos := v.depth_pos
  constructor
  · rintro ⟨hdepth, hfits⟩
    obtain ⟨hself, hbelow⟩ := forall_within_iff.1 hfits
    refine ⟨by simp only at hdepth; omega, hself, fun child hchild => ⟨?_, hbelow child hchild⟩⟩
    have hle : v.depth ≤ (maxDepth - d) + 1 := by simp only at hdepth; omega
    have := depth_le_iff.1 hle child hchild
    simp only at hdepth ⊢
    omega
  · rintro ⟨hd, hself, hchildren⟩
    refine ⟨?_, forall_within_iff.2 ⟨hself, fun child hchild => (hchildren child hchild).2⟩⟩
    have hle : v.depth ≤ (maxDepth - d) + 1 := by
      refine depth_le_iff.2 fun child hchild => ?_
      have := (hchildren child hchild).1
      simp only at this
      omega
    simp only
    omega

/-- The running counter leaves room for exactly the values still to come. -/
theorem boundedLoop_eq_ok_iff {fuel count : Nat} {stack : List (PyValue × Nat)}
    (hfuel : fuel + count = maxNodes + 1) :
    boundedLoop fuel count stack = .ok () ↔
      (stack = [] ∨ count + (stack.map fun entry => entry.1.nodes).sum ≤ maxNodes) ∧
        ∀ entry ∈ stack, Waits entry := by
  induction fuel generalizing count stack with
  | zero =>
    cases stack with
    | nil => simp [boundedLoop]
    | cons entry stack =>
      have hover : ¬ count + ((entry :: stack).map fun entry => entry.1.nodes).sum ≤ maxNodes := by
        omega
      simp only [boundedLoop, reduceCtorEq, List.cons_ne_nil, false_or, hover, false_and]
  | succ fuel ih =>
    obtain - | ⟨⟨v, d⟩, stack⟩ := stack
    · simp [boundedLoop]
    · rw [boundedLoop, List.forall_mem_cons, waits_iff]
      have hnodes := v.nodes_eq
      by_cases hstop : maxDepth < d ∨ maxNodes < count + 1
      · simp only [hstop, if_true, reduceCtorEq, List.map_cons, List.sum_cons, false_iff,
          List.cons_ne_nil, false_or]
        rintro ⟨hcount, ⟨hd, -⟩, -⟩
        omega
      by_cases hfits : v.Fits
      · simp only [hstop, if_false, boundedChildren_ok hfits]
        rw [ih (by omega)]
        simp only [List.append_eq_nil_iff, List.reverse_eq_nil_iff, List.map_eq_nil_iff,
          List.map_append, List.map_reverse, List.sum_append, List.sum_reverse, List.map_map,
          List.mem_append, List.mem_reverse, List.mem_map, List.map_cons, List.sum_cons,
          reduceCtorEq, false_or, Function.comp_def]
        change v.nodes = (v.children.map fun child => child.nodes).sum + 1 at hnodes
        have hd : d ≤ maxDepth := by omega
        constructor
        · rintro ⟨hcount, hall⟩
          refine ⟨?_, ⟨hd, hfits, fun child hchild => hall _ (.inl ⟨child, hchild, rfl⟩)⟩,
            fun entry hentry => hall entry (.inr hentry)⟩
          obtain ⟨hnone, rfl⟩ | hle := hcount
          · simp only [hnone, List.map_nil, List.sum_nil] at hnodes ⊢
            omega
          · omega
        · rintro ⟨hcount, ⟨-, -, hchildren⟩, hrest⟩
          refine ⟨.inr (by omega), ?_⟩
          rintro entry (⟨child, hchild, rfl⟩ | hentry)
          · exact hchildren child hchild
          · exact hrest entry hentry
      · obtain ⟨message, herror⟩ := boundedChildren_error hfits
        rw [if_neg hstop, herror]
        simp [hfits]

lemma validateBoundedJson_eq_ok_iff (v : PyValue) :
    validateBoundedJson v = .ok () ↔ v.Bounded := by
  rw [validateBoundedJson, boundedLoop_eq_ok_iff (Nat.add_zero _)]
  simp only [List.cons_ne_nil, false_or, List.map_cons, List.map_nil, List.sum_cons, List.sum_nil,
    List.forall_mem_cons, List.not_mem_nil, IsEmpty.forall_iff, implies_true, and_true, Waits,
    Nat.add_le_add_iff_right, Nat.zero_add, Nat.add_zero]
  exact ⟨fun ⟨hnodes, hdepth, hfits⟩ => ⟨hdepth, hnodes, hfits⟩,
    fun h => ⟨h.nodes, h.depth, h.fits⟩⟩

/-! ## The order of members -/

namespace PyValue

/-- One value is the other with the members of its dicts in other orders. -/
inductive Reordered : PyValue → PyValue → Prop where
  | refl (v : PyValue) : Reordered v v
  | trans {u v w : PyValue} : Reordered u v → Reordered v w → Reordered u w
  | perm {members members' : List (Option Text × PyValue)} : members.Perm members' →
      Reordered (.dict members) (.dict members')
  | item {item item' : PyValue} (before after : List PyValue) : Reordered item item' →
      Reordered (.list (before ++ item :: after)) (.list (before ++ item' :: after))
  | member {child child' : PyValue} (before after : List (Option Text × PyValue))
      (key : Option Text) : Reordered child child' →
      Reordered (.dict (before ++ (key, child) :: after)) (.dict (before ++ (key, child') :: after))

lemma Reordered.symm {u v : PyValue} (h : Reordered u v) : Reordered v u := by
  induction h with
  | refl v => exact .refl v
  | trans _ _ ihu ihv => exact .trans ihv ihu
  | perm hperm => exact .perm hperm.symm
  | item before after _ ih => exact .item before after ih
  | member before after key _ ih => exact .member before after key ih

lemma depth_le_of_forall_children {u v : PyValue}
    (h : ∀ child ∈ v.children, ∃ child' ∈ u.children, child.depth ≤ child'.depth) :
    v.depth ≤ u.depth := by
  obtain ⟨n, hn⟩ : ∃ n, u.depth = n + 1 := ⟨u.depth - 1, by have := u.depth_pos; omega⟩
  rw [hn]
  refine depth_le_iff.2 fun child hchild => ?_
  obtain ⟨child', hchild', hle⟩ := h child hchild
  exact hle.trans (depth_le_iff.1 hn.le child' hchild')

lemma Reordered.depth_le {u v : PyValue} (h : Reordered u v) : v.depth ≤ u.depth := by
  induction h with
  | refl v => exact le_rfl
  | trans _ _ ihu ihv => exact ihv.trans ihu
  | perm hperm =>
    refine depth_le_of_forall_children fun child hchild => ⟨child, ?_, le_rfl⟩
    simpa only [children, (hperm.map Prod.snd).mem_iff] using hchild
  | item before after _ ih =>
    apply depth_le_of_forall_children
    simp only [children, List.mem_append, List.mem_cons]
    grind
  | member before after key _ ih =>
    apply depth_le_of_forall_children
    simp only [children, List.map_append, List.map_cons, List.mem_append, List.mem_cons]
    grind

lemma Reordered.nodes_eq {u v : PyValue} (h : Reordered u v) : u.nodes = v.nodes := by
  induction h with
  | refl v => rfl
  | trans _ _ ihu ihv => exact ihu.trans ihv
  | perm hperm =>
    simp only [PyValue.nodes_eq (.dict _), children]
    rw [((hperm.map Prod.snd).map nodes).sum_eq]
  | item before after _ ih =>
    simp [PyValue.nodes_eq (.list _), children, ih]
  | member before after key _ ih =>
    simp [PyValue.nodes_eq (.dict _), children, ih]

lemma Reordered.fits {u v : PyValue} (h : Reordered u v) (hu : ∀ w, u.Within w → w.Fits) :
    ∀ w, v.Within w → w.Fits := by
  induction h with
  | refl v => exact hu
  | trans _ _ ihu ihv => exact ihv (ihu hu)
  | perm hperm =>
    obtain ⟨⟨hlength, hkeys⟩, hchildren⟩ := forall_within_iff.1 hu
    refine forall_within_iff.2 ⟨⟨hperm.length_eq ▸ hlength, fun member hmem => ?_⟩,
      fun child hchild => ?_⟩
    · exact hkeys member (hperm.mem_iff.2 hmem)
    · exact hchildren child ((hperm.map Prod.snd).mem_iff.2 hchild)
  | item before after _ ih =>
    obtain ⟨hself, hchildren⟩ := forall_within_iff.1 hu
    refine forall_within_iff.2 ⟨by simpa [Fits] using hself, ?_⟩
    simp only [children, List.mem_append, List.mem_cons] at hchildren ⊢
    grind
  | member before after key _ ih =>
    obtain ⟨hself, hchildren⟩ := forall_within_iff.1 hu
    refine forall_within_iff.2 ⟨?_, ?_⟩
    · simpa [Fits, or_imp, forall_and] using hself
    · simp only [children, List.map_append, List.map_cons, List.mem_append, List.mem_cons]
        at hchildren ⊢
      grind

lemma Reordered.bounded {u v : PyValue} (h : Reordered u v) (hu : u.Bounded) : v.Bounded where
  depth := h.depth_le.trans hu.depth
  nodes := h.nodes_eq ▸ hu.nodes
  fits := h.fits hu.fits

end PyValue

/-- The check returns exactly for the bounded values, and the order of members plays no part. -/
theorem validateBoundedJson_returns_iff_bounded (v : PyValue) :
    (validateBoundedJson v = .ok () ↔ v.Bounded) ∧
      ∀ u, v.Reordered u → (validateBoundedJson u = .ok () ↔ validateBoundedJson v = .ok ()) := by
  refine ⟨validateBoundedJson_eq_ok_iff v, fun u h => ?_⟩
  rw [validateBoundedJson_eq_ok_iff, validateBoundedJson_eq_ok_iff]
  exact ⟨h.symm.bounded, h.bounded⟩

theorem validateBoundedJson_swapped_members :
    validateBoundedJson (.dict [(some [98], .list [.none]), (some [97], .int 1)]) = .ok () :=
  ((validateBoundedJson_returns_iff_bounded
    (.dict [(some [97], .int 1), (some [98], .list [.none])])).2 _
      (.perm (.swap _ _ _))).2 (by rfl)

end Modall.Security
