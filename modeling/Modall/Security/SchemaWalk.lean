import Mathlib
import Modall.Security.Schemas

/-!
# What the walk through a schema finds

The walk ends, it finds every secret below a sensitive property name that can be reached, also
behind local references, and its answer does not depend on the order of members.
-/
namespace Modall.Security

open Library Library.Json Library.Text

/-! ## Strings in nested lists -/

/-- A string, directly or inside nested lists. -/
inductive HoldsString : Value → Text → Prop where
  | self (s : Text) : HoldsString (.str s) s
  | item {items : List Value} {item : Value} {s : Text} : item ∈ items → HoldsString item s →
      HoldsString (.list items) s

lemma answers_expandLiteral_iff {v : Value} :
    Worklist.Answers expandLiteral v ↔
      ∃ s, HoldsString v s ∧ looksLikeSecretCandidate s = true := by
  constructor
  · rintro ⟨last, hreach, hlast⟩
    have hholds : ∀ s, HoldsString last s → HoldsString v s := by
      clear hlast
      induction hreach with
      | refl => exact fun s h => h
      | @step middle last pushed _ hpushed hmem ih =>
        intro s hs
        cases middle with
        | list items =>
          obtain rfl : items = pushed := by simpa [expandLiteral] using hpushed
          exact ih s (.item hmem hs)
        | str value =>
          simp only [expandLiteral] at hpushed
          split at hpushed
          · cases hpushed
          · obtain rfl : [] = pushed := by simpa using hpushed
            cases hmem
        | _ =>
          obtain rfl : [] = pushed := by simpa [expandLiteral] using hpushed
          cases hmem
    cases last with
    | str value =>
      simp only [expandLiteral] at hlast
      split at hlast
      case isTrue hcandidate => exact ⟨value, hholds value (.self value), hcandidate⟩
      case isFalse => cases hlast
    | _ => simp [expandLiteral] at hlast
  · rintro ⟨s, hholds, hcandidate⟩
    induction hholds with
    | self s => exact Worklist.answers_of_none (by simp [expandLiteral, hcandidate])
    | item hmem _ ih =>
      exact (Worklist.answers_iff_of_some rfl).2 ⟨_, hmem, ih hcandidate⟩

lemma expandLiteral_nodes {v : Value} {pushed : List Value} (h : expandLiteral v = some pushed) :
    (pushed.map Value.nodes).sum < v.nodes := by
  cases v with
  | list items =>
    obtain rfl : items = pushed := by simpa [expandLiteral] using h
    simp [Value.nodes, Value.itemNodes_eq]
  | str value =>
    simp only [expandLiteral] at h
    split at h
    · cases h
    · obtain rfl : [] = pushed := by simpa using h
      simp [Value.nodes]
  | _ =>
    obtain rfl : [] = pushed := by simpa [expandLiteral] using h
    simp [Value.nodes]

lemma explore_expandLiteral_iff {v : Value} :
    Worklist.explore expandLiteral v.nodes [v] = true ↔
      ∃ s, HoldsString v s ∧ looksLikeSecretCandidate s = true := by
  rw [Worklist.explore_eq_true_iff Value.nodes (fun _ _ => expandLiteral_nodes) (by simp)
    Value.nodes_pos]
  simp only [List.mem_singleton, exists_eq_left, answers_expandLiteral_iff]

lemma HoldsString.reordered {v w : Value} {s : Text} (h : HoldsString v s) (hvw : v.Reordered w) :
    HoldsString w s := by
  induction h generalizing w with
  | self s =>
    obtain rfl := hvw.eq_of_children (by simp) (by simp)
    exact .self s
  | @item items item s hmem _ ih =>
    obtain ⟨index, hindex⟩ := List.mem_iff_getElem?.1 hmem
    obtain ⟨items', rfl, hitems⟩ := hvw.items
    obtain ⟨item', hindex', hitem⟩ := hitems index item hindex
    exact .item (List.mem_of_getElem? hindex') (ih hitem)

/-! ## The scanner and the order of members -/

section exposed
variable {floatText : Text → Text}

lemma visited_list {items : List Value} {initial context : Bool} {current : Value}
    (h : Visited (.list items) initial current context) :
    (current = .list items ∧ context = initial) ∨
      ∃ item ∈ items, Visited item initial current context := by
  induction h with
  | root => exact .inl ⟨rfl, rfl⟩
  | item _ hmem ih =>
    obtain ⟨heq, rfl⟩ | ⟨item, hitem, hvisited⟩ := ih
    · cases heq
      exact .inr ⟨_, hmem, .root⟩
    · exact .inr ⟨item, hitem, .item hvisited hmem⟩
  | member _ hmem ih =>
    obtain ⟨heq, rfl⟩ | ⟨item, hitem, hvisited⟩ := ih
    · cases heq
    · exact .inr ⟨item, hitem, .member hvisited hmem⟩

lemma visited_object {members : List (Text × Value)} {initial context : Bool} {current : Value}
    (h : Visited (.object members) initial current context) :
    (current = .object members ∧ context = initial) ∨ ∃ key child, (key, child) ∈ members ∧
      Visited child (nextContext initial key child) current context := by
  induction h with
  | root => exact .inl ⟨rfl, rfl⟩
  | item _ hmem ih =>
    obtain ⟨heq, rfl⟩ | ⟨key, child, hchild, hvisited⟩ := ih
    · cases heq
    · exact .inr ⟨key, child, hchild, .item hvisited hmem⟩
  | member _ hmem ih =>
    obtain ⟨heq, rfl⟩ | ⟨key, child, hchild, hvisited⟩ := ih
    · cases heq
      exact .inr ⟨_, _, hmem, .root⟩
    · exact .inr ⟨key, child, hchild, .member hvisited hmem⟩

lemma Visited.trans {value middle current : Value} {initial context context' : Bool}
    (h : Visited value initial middle context) (h' : Visited middle context current context') :
    Visited value initial current context' := by
  induction h' with
  | root => exact h
  | item _ hmem ih => exact .item ih hmem
  | member _ hmem ih => exact .member ih hmem

lemma exposed_list {items : List Value} {initial : Bool} :
    Exposed floatText initial (.list items) ↔ ∃ item ∈ items, Exposed floatText initial item := by
  constructor
  · rintro ⟨current, context, hvisited, hexposes⟩
    obtain ⟨rfl, rfl⟩ | ⟨item, hmem, hvisited⟩ := visited_list hvisited
    · obtain _ | _ | ⟨hnumber, _⟩ := hexposes
      cases hnumber
    · exact ⟨item, hmem, current, context, hvisited, hexposes⟩
  · rintro ⟨item, hmem, current, context, hvisited, hexposes⟩
    exact ⟨current, context, Visited.trans (.item .root hmem) hvisited, hexposes⟩

lemma exposed_object {members : List (Text × Value)} {initial : Bool} :
    Exposed floatText initial (.object members) ↔ ∃ key child, (key, child) ∈ members ∧
      (memberIsSecret initial key child = true ∨
        Exposed floatText (nextContext initial key child) child) := by
  constructor
  · rintro ⟨current, context, hvisited, hexposes⟩
    obtain ⟨rfl, rfl⟩ | ⟨key, child, hmem, hvisited⟩ := visited_object hvisited
    · obtain _ | _ | ⟨hnumber, _⟩ | ⟨hmem, hsecret⟩ := hexposes
      · cases hnumber
      · exact ⟨_, _, hmem, .inl hsecret⟩
    · exact ⟨key, child, hmem, .inr ⟨current, context, hvisited, hexposes⟩⟩
  · rintro ⟨key, child, hmem, hsecret | ⟨current, context, hvisited, hexposes⟩⟩
    · exact ⟨_, initial, .root, .member hmem hsecret⟩
    · exact ⟨current, context, Visited.trans (.member .root hmem) hvisited, hexposes⟩

/-- What a member means to the scanner does not depend on the order inside its value. -/
lemma member_reordered {child child' : Value} (h : child.Reordered child') (context : Bool)
    (key : Text) :
    memberIsSecret context key child = memberIsSecret context key child' ∧
      nextContext context key child = nextContext context key child' := by
  have hliteral : Worklist.explore expandLiteral child.nodes [child] =
      Worklist.explore expandLiteral child'.nodes [child'] := by
    rw [Bool.eq_iff_iff, explore_expandLiteral_iff, explore_expandLiteral_iff]
    exact ⟨fun ⟨s, hs, hcandidate⟩ => ⟨s, hs.reordered h, hcandidate⟩,
      fun ⟨s, hs, hcandidate⟩ => ⟨s, hs.reordered h.symm, hcandidate⟩⟩
  simp only [memberIsSecret, nextContext, hliteral]
  cases child with
  | object members =>
    obtain ⟨members', rfl, -⟩ := h.members
    exact ⟨rfl, rfl⟩
  | list items =>
    obtain ⟨items', rfl, -⟩ := h.items
    exact ⟨rfl, rfl⟩
  | _ =>
    obtain rfl := h.eq_of_children (by simp) (by simp)
    exact ⟨rfl, rfl⟩

lemma Exposed.reordered {v w : Value} {context : Bool} (hvw : v.Reordered w)
    (h : Exposed floatText context v) : Exposed floatText context w := by
  induction hvw generalizing context with
  | refl v => exact h
  | trans _ _ ihu ihv => exact ihv (ihu h)
  | perm hperm =>
    obtain ⟨key, child, hmem, hexposed⟩ := exposed_object.1 h
    exact exposed_object.2 ⟨key, child, hperm.mem_iff.1 hmem, hexposed⟩
  | @item item item' before after _ ih =>
    obtain ⟨found, hmem, hexposed⟩ := exposed_list.1 h
    rw [exposed_list]
    simp only [List.mem_append, List.mem_cons] at hmem ⊢
    obtain hmem | rfl | hmem := hmem
    · exact ⟨found, .inl hmem, hexposed⟩
    · exact ⟨item', .inr (.inl rfl), ih hexposed⟩
    · exact ⟨found, .inr (.inr hmem), hexposed⟩
  | @member child child' before after key hchild ih =>
    obtain ⟨found, value, hmem, hexposed⟩ := exposed_object.1 h
    rw [exposed_object]
    simp only [List.mem_append, List.mem_cons, Prod.mk.injEq] at hmem ⊢
    obtain hmem | ⟨rfl, rfl⟩ | hmem := hmem
    · exact ⟨found, value, .inl hmem, hexposed⟩
    · obtain ⟨hsecret, hnext⟩ := member_reordered hchild context found
      rw [hsecret, hnext] at hexposed
      exact ⟨found, child', .inr (.inl ⟨rfl, rfl⟩), hexposed.imp_right ih⟩
    · exact ⟨found, value, .inr (.inr hmem), hexposed⟩

lemma containsObviousSecretInJson_reordered {v w : Value} (h : v.Reordered w) (context : Bool) :
    containsObviousSecretInJson floatText context v =
      containsObviousSecretInJson floatText context w := by
  rw [Bool.eq_iff_iff, containsObviousSecretInJson_iff, containsObviousSecretInJson_iff]
  exact ⟨.reordered h, .reordered h.symm⟩

end exposed

/-! ## Anchors -/

lemma mem_valuesAt {current child : Place} {key : Text} :
    child ∈ valuesAt current key ↔ ∃ schemas name, current.child (.member key) = some schemas ∧
      (name, child) ∈ schemas.members := by
  unfold valuesAt
  cases current.child (.member key) <;> simp

lemma mem_schemaAt {current child : Place} {key : Text} :
    child ∈ schemaAt current key ↔ current.child (.member key) = some child ∧
      isSchema child.value = true := by
  unfold schemaAt
  cases current.child (.member key) with
  | none => simp
  | some schema =>
    by_cases hschema : isSchema schema.value = true
    · simp only [hschema, if_true, List.mem_singleton, Option.some.injEq]
      grind
    · simp only [hschema, Bool.false_eq_true, if_false, List.not_mem_nil, Option.some.injEq,
        false_iff]
      grind

lemma mem_itemsAt {current child : Place} {key : Text} :
    child ∈ itemsAt current key ↔ ∃ schemas, current.child (.member key) = some schemas ∧
      child ∈ schemas.items := by
  unfold itemsAt
  cases current.child (.member key) <;> simp

/-- The candidates below a place are members of its members, its members, or items of them. -/
lemma mem_candidates {current child : Place} :
    child ∈ candidates current ↔
      (∃ key ∈ text "properties" :: schemaMapKeys, child ∈ valuesAt current key) ∨
        (∃ key ∈ schemaKeys, child ∈ schemaAt current key) ∨
          ∃ key ∈ schemaArrayKeys, child ∈ itemsAt current key := by
  simp only [candidates, List.mem_append, List.mem_flatMap, List.mem_cons, exists_eq_or_imp,
    or_assoc]

lemma candidates_in {root : Value} {current child : Place} (hroot : root.WellKeyed)
    (hcurrent : current.In root) (h : child ∈ candidates current) : child.In root := by
  obtain ⟨key, -, hmem⟩ | ⟨key, -, hmem⟩ | ⟨key, -, hmem⟩ := mem_candidates.1 h
  · obtain ⟨schemas, name, hchild, hmem⟩ := mem_valuesAt.1 hmem
    exact (hcurrent.child hchild).member hroot hmem
  · exact hcurrent.child (mem_schemaAt.1 hmem).1
  · obtain ⟨schemas, hchild, hmem⟩ := mem_itemsAt.1 hmem
    exact (hcurrent.child hchild).item hmem

/-- The subschemas the index visits. -/
def Indexed (root : Value) : Place → Prop := Worklist.Leads candidates (.root root)

lemma Indexed.in_root {root : Value} (hroot : root.WellKeyed) {place : Place}
    (h : Indexed root place) : place.In root := by
  induction h with
  | refl => exact Place.root_in root
  | tail _ hmem ih => exact candidates_in hroot ih hmem

/-- No anchor is declared twice. -/
def Unambiguous (root : Value) : Prop :=
  (∀ place, Indexed root place → (declaredAnchors place).Nodup) ∧
    ∀ place place', Indexed root place → Indexed root place' → place ≠ place' →
      (declaredAnchors place).Disjoint (declaredAnchors place')

lemma enterAnchors_some {current : Place} {anchors table : List (Text × Place)}
    {names : List Text} (h : enterAnchors current anchors names = some table)
    (hnodup : (anchors.map Prod.fst).Nodup) :
    table = (names.map (·, current)).reverse ++ anchors ∧ (table.map Prod.fst).Nodup := by
  induction names generalizing anchors with
  | nil =>
    obtain rfl : anchors = table := by simpa [enterAnchors] using h
    exact ⟨rfl, hnodup⟩
  | cons name names ih =>
    rw [enterAnchors] at h
    split at h
    case isTrue => cases h
    case isFalse hfree =>
      have hfresh : name ∉ anchors.map Prod.fst := by
        intro hmem
        obtain ⟨entry, hentry, rfl⟩ := List.mem_map.1 hmem
        exact hfree (List.lookup_isSome_iff.2 ⟨entry, hentry, beq_self_eq_true _⟩)
      obtain ⟨rfl, htable⟩ := ih h (by simpa using ⟨by simpa using hfresh, hnodup⟩)
      exact ⟨by simp, htable⟩

lemma enterAnchors_none {current : Place} {anchors : List (Text × Place)} {names : List Text}
    (h : enterAnchors current anchors names = none) :
    ¬ (names.reverse ++ anchors.map Prod.fst).Nodup := by
  induction names generalizing anchors with
  | nil => cases h
  | cons name names ih =>
    rw [enterAnchors] at h
    split at h
    case isTrue htaken =>
      obtain ⟨entry, hentry, heq⟩ := List.lookup_isSome_iff.1 htaken
      have hmem : name ∈ anchors.map Prod.fst :=
        List.mem_map.2 ⟨entry, hentry, (beq_iff_eq.1 heq).symm⟩
      intro hnodup
      exact (List.nodup_append.1 hnodup).2.2 name (by simp) name hmem rfl
    case isFalse =>
      have := ih h
      simpa using this

/-- The entries of the table after the visits of some places, the latest first. -/
def anchorEntries (order : List Place) : List (Text × Place) :=
  (order.flatMap fun place => (declaredAnchors place).map (·, place)).reverse

lemma anchorEntries_snoc (order : List Place) (last : Place) :
    anchorEntries (order ++ [last]) =
      ((declaredAnchors last).map (·, last)).reverse ++ anchorEntries order := by
  simp [anchorEntries]

lemma map_fst_anchorEntries (order : List Place) :
    (anchorEntries order).map Prod.fst = (order.flatMap declaredAnchors).reverse := by
  simp [anchorEntries, List.map_flatMap, Function.comp_def]

lemma gather_visitCandidate {order : List Place} {table : List (Text × Place)}
    (h : Worklist.gather visitCandidate [] order = .ok table) :
    table = anchorEntries order ∧ (table.map Prod.fst).Nodup := by
  induction order using List.reverseRecOn generalizing table with
  | nil =>
    obtain rfl : [] = table := by simpa [Worklist.gather, Pure.pure, Except.pure] using h
    exact ⟨rfl, List.nodup_nil⟩
  | append_singleton order last ih =>
    rw [Worklist.gather_snoc] at h
    cases hbefore : Worklist.gather visitCandidate [] order with
    | error ended => simp [hbefore, Bind.bind, Except.bind] at h
    | ok before =>
      obtain ⟨rfl, hnodup⟩ := ih hbefore
      rw [hbefore] at h
      change (visitCandidate (anchorEntries order) last).map Prod.fst = .ok table at h
      rw [visitCandidate] at h
      split at h
      case h_1 entered hentered =>
        obtain rfl : entered = table := by simpa [Except.map] using h
        rw [anchorEntries_snoc]
        exact enterAnchors_some hentered hnodup
      case h_2 => simp [Except.map] at h

lemma nodup_flatMap_of_unambiguous {root : Value} (h : Unambiguous root) {order : List Place}
    (hnodup : (order.map Place.path).Nodup) (horder : ∀ place ∈ order, Indexed root place) :
    (order.flatMap declaredAnchors).Nodup := by
  rw [List.nodup_flatMap]
  refine ⟨fun place hplace => h.1 place (horder place hplace), ?_⟩
  apply (List.Nodup.of_map _ hnodup).pairwise_of_forall_ne
  intro place hplace place' hplace' hne
  exact h.2 place place' (horder place hplace) (horder place' hplace') hne

lemma unambiguous_of_nodup {root : Value} {order : List Place}
    (horder : ∀ place, place ∈ order ↔ Indexed root place)
    (hnodup : (order.flatMap declaredAnchors).Nodup) : Unambiguous root := by
  obtain ⟨heach, hpairs⟩ := List.nodup_flatMap.1 hnodup
  have : Std.Symm (Function.onFun List.Disjoint declaredAnchors) :=
    ⟨fun _ _ hdisjoint _ hmem hmem' => hdisjoint hmem' hmem⟩
  exact ⟨fun place hplace => heach place ((horder place).2 hplace),
    fun place place' hplace hplace' hne =>
      hpairs.forall ((horder place).2 hplace) ((horder place').2 hplace') hne⟩

lemma visitCandidate_pushes (anchors : List (Text × Place)) (current : Place)
    (anchors' : List (Text × Place)) (pushed : List Place)
    (h : visitCandidate anchors current = .ok (anchors', pushed)) : pushed = candidates current := by
  rw [visitCandidate] at h
  split at h
  · exact ((Prod.mk.inj (Except.ok.inj h)).2).symm
  · cases h

/-- The table has exactly the declared anchors, unless one is declared twice. -/
lemma indexSchemaAnchors_spec {root : Value} (hroot : root.WellKeyed) {fuel : Nat}
    {index : Option (List (Text × Place))} (h : indexSchemaAnchors fuel root = some index) :
    (∃ anchors, index = some anchors ∧ Unambiguous root ∧ ∀ anchor place,
      anchors.lookup anchor = some place ↔
        Indexed root place ∧ anchor ∈ declaredAnchors place) ∨
      index = none ∧ ¬ Unambiguous root := by
  obtain ⟨result, hresult, rfl⟩ := Option.map_eq_some_iff.1 h
  have hends := Worklist.traverse_ends visitCandidate_pushes
    (fun place place' hplace hplace' => (Indexed.in_root hroot hplace).ext
      (Indexed.in_root hroot hplace')) hresult
  cases result with
  | ok anchors =>
    obtain ⟨order, hnodup, horder, hgather⟩ := hends
    obtain ⟨rfl, hkeys⟩ := gather_visitCandidate hgather
    refine .inl ⟨_, rfl, unambiguous_of_nodup horder ?_, fun anchor place => ?_⟩
    · rwa [map_fst_anchorEntries, List.nodup_reverse] at hkeys
    · rw [Value.lookup_eq_some_iff_mem hkeys]
      simp only [anchorEntries, List.mem_reverse, List.mem_flatMap, List.mem_map, Prod.mk.injEq]
      constructor
      · rintro ⟨found, hfound, name, hname, rfl, rfl⟩
        exact ⟨(horder found).1 hfound, hname⟩
      · rintro ⟨hindexed, hanchor⟩
        exact ⟨place, (horder place).2 hindexed, anchor, hanchor, rfl, rfl⟩
  | error ended =>
    obtain ⟨order, last, anchors, hnodup, horder, hgather, hvisit⟩ := hends
    obtain ⟨rfl, -⟩ := gather_visitCandidate hgather
    refine .inr ⟨rfl, fun hunambiguous => ?_⟩
    have hflat := nodup_flatMap_of_unambiguous hunambiguous hnodup horder
    rw [visitCandidate] at hvisit
    split at hvisit
    case h_1 => cases hvisit
    case h_2 hnone =>
      apply enterAnchors_none hnone
      rw [map_fst_anchorEntries, ← List.reverse_append, List.nodup_reverse]
      rw [List.flatMap_append] at hflat
      simpa using hflat

lemma indexSchemaAnchors_isSome {root : Value} (hroot : root.WellKeyed) :
    ∃ enough, ∀ fuel ≥ enough, (indexSchemaAnchors fuel root).isSome := by
  refine ⟨Worklist.pending Place.path candidates (Place.below [] root) [] + 1, fun fuel hfuel => ?_⟩
  rw [indexSchemaAnchors, Option.isSome_map]
  refine Worklist.traverse_isSome visitCandidate_pushes
    (fun place hplace child => candidates_in hroot hplace) (fun place => Place.In.mem_below) ?_ hfuel
  simpa using Place.root_in root

/-! ## Reordered schemas: anchors and references -/

section reordered
variable {root root' : Value} {anchors anchors' : List (Text × Place)}

lemma valuesAt_reordered {place place' child : Place} {key : Text} (h : place.Reordered place')
    (hkeyed : place.value.WellKeyed) (hmem : child ∈ valuesAt place key) :
    ∃ child' ∈ valuesAt place' key, child.Reordered child' := by
  obtain ⟨schemas, name, hchild, hmem⟩ := mem_valuesAt.1 hmem
  obtain ⟨schemas', hchild', hschemas⟩ := h.child hkeyed hchild
  have hschemasKeyed : schemas.value.WellKeyed :=
    hkeyed.within (Value.within_of_child (Place.child_eq_some hchild).1)
  obtain ⟨child', hmem', hreordered⟩ := hschemas.member hschemasKeyed hmem
  exact ⟨child', mem_valuesAt.2 ⟨schemas', name, hchild', hmem'⟩, hreordered⟩

lemma itemsAt_reordered {place place' child : Place} {key : Text} (h : place.Reordered place')
    (hkeyed : place.value.WellKeyed) (hmem : child ∈ itemsAt place key) :
    ∃ child' ∈ itemsAt place' key, child.Reordered child' := by
  obtain ⟨schemas, hchild, hmem⟩ := mem_itemsAt.1 hmem
  obtain ⟨schemas', hchild', hschemas⟩ := h.child hkeyed hchild
  have hschemasKeyed : schemas.value.WellKeyed :=
    hkeyed.within (Value.within_of_child (Place.child_eq_some hchild).1)
  obtain ⟨child', hmem', hreordered⟩ := hschemas.item hschemasKeyed hmem
  exact ⟨child', mem_itemsAt.2 ⟨schemas', hchild', hmem'⟩, hreordered⟩

/-- What the walk asks about a value besides its members and items. -/
lemma kind_reordered {v w : Value} (h : v.Reordered w) :
    isDict v = isDict w ∧ isList v = isList w ∧ isSchema v = isSchema w ∧
      ∀ key, localReference key v = localReference key w := by
  cases v with
  | object members =>
    obtain ⟨members', rfl, -⟩ := h.members
    exact ⟨rfl, rfl, rfl, fun _ => rfl⟩
  | list items =>
    obtain ⟨items', rfl, -⟩ := h.items
    exact ⟨rfl, rfl, rfl, fun _ => rfl⟩
  | _ =>
    obtain rfl := h.eq_of_children (by simp) (by simp)
    exact ⟨rfl, rfl, rfl, fun _ => rfl⟩

lemma candidates_reordered {place place' child : Place} (h : place.Reordered place')
    (hkeyed : place.value.WellKeyed) (hmem : child ∈ candidates place) :
    ∃ child' ∈ candidates place', child.Reordered child' := by
  obtain ⟨key, hkey, hmem⟩ | ⟨key, hkey, hmem⟩ | ⟨key, hkey, hmem⟩ := mem_candidates.1 hmem
  · obtain ⟨child', hmem', hreordered⟩ := valuesAt_reordered h hkeyed hmem
    exact ⟨child', mem_candidates.2 (.inl ⟨key, hkey, hmem'⟩), hreordered⟩
  · obtain ⟨hchild, hschema⟩ := mem_schemaAt.1 hmem
    obtain ⟨child', hchild', hreordered⟩ := h.child hkeyed hchild
    refine ⟨child', mem_candidates.2 (.inr (.inl ⟨key, hkey, mem_schemaAt.2 ⟨hchild', ?_⟩⟩)),
      hreordered⟩
    rw [← (kind_reordered hreordered.2).2.2.1, hschema]
  · obtain ⟨child', hmem', hreordered⟩ := itemsAt_reordered h hkeyed hmem
    exact ⟨child', mem_candidates.2 (.inr (.inr ⟨key, hkey, hmem'⟩)), hreordered⟩

lemma declaredAnchors_reordered {place place' : Place} (h : place.Reordered place')
    (hkeyed : place.value.WellKeyed) : declaredAnchors place = declaredAnchors place' := by
  apply List.filterMap_congr
  intro keyword _
  cases hchild : place.value.child (.member keyword) with
  | none =>
    cases hchild' : place'.value.child (.member keyword) with
    | none => rfl
    | some child' =>
      obtain ⟨child, hcontra, -⟩ := h.2.symm.child (h.2.wellKeyed hkeyed) hchild'
      simp [hchild] at hcontra
  | some child =>
    obtain ⟨child', hchild', hreordered⟩ := h.2.child hkeyed hchild
    rw [hchild']
    cases child with
    | object members =>
      obtain ⟨members', rfl, -⟩ := hreordered.members
      rfl
    | list items =>
      obtain ⟨items', rfl, -⟩ := hreordered.items
      rfl
    | _ =>
      obtain rfl := hreordered.eq_of_children (by simp) (by simp)
      rfl

lemma Indexed.reordered (h : root.Reordered root') (hroot : root.WellKeyed) {place : Place}
    (hindexed : Indexed root place) :
    ∃ place', Indexed root' place' ∧ place.Reordered place' := by
  induction hindexed with
  | refl => exact ⟨.root root', .refl, rfl, h⟩
  | @tail middle last hmiddle hlast ih =>
    obtain ⟨middle', hmiddle', hreordered⟩ := ih
    have hkeyed := (Indexed.in_root hroot hmiddle).wellKeyed hroot
    obtain ⟨last', hlast', hreordered'⟩ := candidates_reordered hreordered hkeyed hlast
    exact ⟨last', hmiddle'.tail hlast', hreordered'⟩

lemma Unambiguous.reordered (h : root.Reordered root') (hroot : root.WellKeyed)
    (hunambiguous : Unambiguous root) : Unambiguous root' := by
  have hroot' := h.wellKeyed hroot
  refine ⟨fun place' hplace' => ?_, fun place' other' hplace' hother' hne => ?_⟩
  · obtain ⟨place, hplace, hreordered⟩ := hplace'.reordered h.symm hroot'
    rw [declaredAnchors_reordered hreordered ((hplace'.in_root hroot').wellKeyed hroot')]
    exact hunambiguous.1 place hplace
  · obtain ⟨place, hplace, hreordered⟩ := hplace'.reordered h.symm hroot'
    obtain ⟨other, hother, hreorderedOther⟩ := hother'.reordered h.symm hroot'
    rw [declaredAnchors_reordered hreordered ((hplace'.in_root hroot').wellKeyed hroot'),
      declaredAnchors_reordered hreorderedOther ((hother'.in_root hroot').wellKeyed hroot')]
    refine hunambiguous.2 place other hplace hother fun heq => hne ?_
    refine (hplace'.in_root hroot').ext (hother'.in_root hroot') ?_
    rw [hreordered.1, hreorderedOther.1, heq]

/-- The table has exactly the declared anchors. -/
def IsIndex (root : Value) (anchors : List (Text × Place)) : Prop :=
  ∀ anchor place, anchors.lookup anchor = some place ↔
    Indexed root place ∧ anchor ∈ declaredAnchors place

lemma lookup_reordered (h : root.Reordered root') (hroot : root.WellKeyed)
    (hanchors : IsIndex root anchors) (hanchors' : IsIndex root' anchors') {anchor : Text}
    {place : Place} (hlookup : anchors.lookup anchor = some place) :
    ∃ place', anchors'.lookup anchor = some place' ∧ place.Reordered place' := by
  obtain ⟨hindexed, hdeclared⟩ := (hanchors anchor place).1 hlookup
  obtain ⟨place', hindexed', hreordered⟩ := hindexed.reordered h hroot
  have hkeyed := (hindexed.in_root hroot).wellKeyed hroot
  refine ⟨place', (hanchors' anchor place').2 ⟨hindexed', ?_⟩, hreordered⟩
  rwa [← declaredAnchors_reordered hreordered hkeyed]

end reordered

end Modall.Security
