import Mathlib
import Modall.Library.SortedKeys
import Modall.Registry.OfficialItems
import Modall.Security.Endpoints
import Modall.Security.SchemaWalk

/-!
# The scanner of public metadata

`_default_metadata_scanner`: the texts of a value are percent-decoded, and what comes out is searched
for secrets and for URLs that carry some. Whether a value passes depends on its parts one by one, not
on the order of members, nor on how its floats are spelled.
-/
namespace Modall.Registry.Official

open Library Library.Json Security

/-- The rounds of `_decoded` that are left; `none` is an exception. -/
def decodedRounds : Nat → Text → Option Text
  | 0, _ => none
  | rounds + 1, value =>
    match unquoteStrict value with
    | none => none
    | some next => if next = value then some value else decodedRounds rounds next

/-- `_decoded`. -/
def decoded (value : Text) : Option Text := decodedRounds 8 value

mutual

/-- `_decoded_metadata`. -/
def decodedMetadata : Value → Option Value
  | .object members => (decodedMembers [] members).map .object
  | .list items => (decodedItems items).map .list
  | .str value => (decoded value).map .str
  | value => some value

/-- The members that are left, behind those with the `taken` keys. -/
def decodedMembers (taken : List Text) : List (Text × Value) → Option (List (Text × Value))
  | [] => some []
  | (key, child) :: members => do
    let decodedKey ← decoded key
    if decodedKey ∈ taken then none
    else
      let decodedChild ← decodedMetadata child
      let others ← decodedMembers (decodedKey :: taken) members
      return (decodedKey, decodedChild) :: others

def decodedItems : List Value → Option (List Value)
  | [] => some []
  | item :: items => do
    let decodedItem ← decodedMetadata item
    let others ← decodedItems items
    return decodedItem :: others

end

/-- An entry of the stack: what it pushes, or `none` for an answer. -/
def expandText (U : UrlPlatform) : Value → Option (List Value)
  | .object members => some (members.map (fun m => .str m.1) ++ members.map Prod.snd)
  | .list items => some items
  | .str value =>
    if containsObviousSecret value || containsSensitiveUrl U value then none else some []
  | _ => some []

section scanner
variable (P : OfficialPlatform) (U : UrlPlatform)

/-- `_default_metadata_scanner`; `none` is an exception. An entry is pushed for every key besides
those for the values. -/
def defaultMetadataScanner (value : Value) : Option Bool :=
  (decodedMetadata value).map fun decoded =>
    containsSensitiveJson P.floatText decoded ||
      Worklist.explore (expandText U) (2 * decoded.nodes) [decoded]

/-- `_run_scanner` with the default scanner, whose process ends in time. -/
def runScanner (value : Value) : Except OfficialRegistryFailureCode Bool :=
  match defaultMetadataScanner P U value with
  | none => .error .scannerFailed
  | some unsafe' => .ok unsafe'

end scanner

/-! ## Decoding -/

section decoding

lemma exists_append_of_forall₂ {α β : Type} {R : α → β → Prop} {first rest : List α} {l : List β}
    (h : List.Forall₂ R (first ++ rest) l) :
    ∃ l₁ l₂, List.Forall₂ R first l₁ ∧ List.Forall₂ R rest l₂ ∧ l = l₁ ++ l₂ := by
  induction first generalizing l with
  | nil => exact ⟨[], l, .nil, h, rfl⟩
  | cons a first ih =>
    obtain ⟨b, l, hb, hl, rfl⟩ := List.forall₂_cons_left_iff.1 h
    obtain ⟨l₁, l₂, hfirst, hrest, rfl⟩ := ih hl
    exact ⟨b :: l₁, l₂, .cons hb hfirst, hrest, rfl⟩

lemma exists_of_forall₂ {α β : Type} {R : α → β → Prop} {l : List α} {l' : List β} {a : α}
    (h : List.Forall₂ R l l') (ha : a ∈ l) : ∃ b ∈ l', R a b := by
  obtain ⟨first, rest, rfl⟩ := List.append_of_mem ha
  obtain ⟨l₁, l₂, -, hrest, rfl⟩ := exists_append_of_forall₂ h
  obtain ⟨b, l, hb, -, rfl⟩ := List.forall₂_cons_left_iff.1 hrest
  exact ⟨b, List.mem_append_right _ List.mem_cons_self, hb⟩

lemma decodedItems_eq_some {items found : List Value} :
    decodedItems items = some found ↔
      List.Forall₂ (fun item d => decodedMetadata item = some d) items found := by
  induction items generalizing found with
  | nil => simp [decodedItems, eq_comm]
  | cons item items ih =>
    simp only [decodedItems, Option.bind_eq_bind, Option.bind_eq_some_iff, Option.pure_def,
      Option.some.injEq, List.forall₂_cons_left_iff, ih]
    grind

/-- A member and what it is decoded to. -/
def MemberDecodes (m d : Text × Value) : Prop :=
  decoded m.1 = some d.1 ∧ decodedMetadata m.2 = some d.2

lemma decodedMembers_eq_some {members found : List (Text × Value)} {taken : List Text} :
    decodedMembers taken members = some found ↔ List.Forall₂ MemberDecodes members found ∧
      (found.map Prod.fst).Nodup ∧ ∀ key ∈ found.map Prod.fst, key ∉ taken := by
  induction members generalizing found taken with
  | nil =>
    simp only [decodedMembers, Option.some.injEq, List.forall₂_nil_left_iff]
    constructor
    · rintro rfl
      simp
    · exact fun h => h.1.symm
  | cons member members ih =>
    obtain ⟨key, child⟩ := member
    simp only [decodedMembers, Option.bind_eq_bind, Option.bind_eq_some_iff]
    constructor
    · rintro ⟨decodedKey, hkey, h⟩
      split at h
      case isTrue => cases h
      case isFalse hfree =>
        simp only [Option.bind_eq_some_iff, Option.pure_def, Option.some.injEq] at h
        obtain ⟨decodedChild, hchild, others, hothers, rfl⟩ := h
        obtain ⟨hall, hnodup, hdisjoint⟩ := ih.1 hothers
        refine ⟨.cons ⟨hkey, hchild⟩ hall, ?_, ?_⟩
        · rw [List.map_cons, List.nodup_cons]
          exact ⟨fun hmem => hdisjoint _ hmem List.mem_cons_self, hnodup⟩
        · rintro k (_ | ⟨_, hk⟩)
          · exact hfree
          · exact fun htaken => hdisjoint k hk (List.mem_cons_of_mem _ htaken)
    · rintro ⟨hall, hnodup, hdisjoint⟩
      obtain ⟨⟨decodedKey, decodedChild⟩, others, ⟨hkey, hchild⟩, hrest, rfl⟩ :=
        List.forall₂_cons_left_iff.1 hall
      rw [List.map_cons, List.nodup_cons] at hnodup
      refine ⟨decodedKey, hkey, ?_⟩
      rw [if_neg (hdisjoint decodedKey List.mem_cons_self)]
      have hothers : decodedMembers (decodedKey :: taken) members = some others := by
        refine ih.2 ⟨hrest, hnodup.2, fun k hk htaken => ?_⟩
        obtain rfl | htaken := List.mem_cons.1 htaken
        · exact hnodup.1 hk
        · exact hdisjoint k (List.mem_cons_of_mem _ hk) htaken
      simp only at hchild
      simp [hchild, hothers]

lemma decodedMetadata_list {items : List Value} {d : Value} :
    decodedMetadata (.list items) = some d ↔ ∃ found, d = .list found ∧
      List.Forall₂ (fun item d => decodedMetadata item = some d) items found := by
  simp only [decodedMetadata, Option.map_eq_some_iff, decodedItems_eq_some]
  grind

lemma decodedMetadata_object {members : List (Text × Value)} {d : Value} :
    decodedMetadata (.object members) = some d ↔ ∃ found, d = .object found ∧
      List.Forall₂ MemberDecodes members found ∧ (found.map Prod.fst).Nodup := by
  simp only [decodedMetadata, Option.map_eq_some_iff, decodedMembers_eq_some]
  grind

/-- The order of members makes no difference to whether a value is decoded, and that is all that can
differ in what it is decoded to. -/
lemma decodedMetadata_reordered {v w d : Value} (hvw : v.Reordered w)
    (h : decodedMetadata v = some d) : ∃ d', decodedMetadata w = some d' ∧ d.Reordered d' := by
  induction hvw generalizing d with
  | refl v => exact ⟨d, h, .refl d⟩
  | trans _ _ ihu ihv =>
    obtain ⟨e, he, hde⟩ := ihu h
    obtain ⟨f, hf, hef⟩ := ihv he
    exact ⟨f, hf, hde.trans hef⟩
  | @perm members members' hperm =>
    obtain ⟨found, rfl, hall, hnodup⟩ := decodedMetadata_object.1 h
    obtain ⟨found', hall', hperm'⟩ := List.perm_comp_forall₂ hperm.symm hall
    refine ⟨.object found', decodedMetadata_object.2 ⟨found', rfl, hall', ?_⟩, .perm hperm'.symm⟩
    exact (hperm'.map Prod.fst).nodup_iff.2 hnodup
  | @item item item' before after _ ih =>
    obtain ⟨found, rfl, hall⟩ := decodedMetadata_list.1 h
    obtain ⟨first, rest, hfirst, hrest, rfl⟩ := exists_append_of_forall₂ hall
    obtain ⟨e, others, he, hothers, rfl⟩ := List.forall₂_cons_left_iff.1 hrest
    obtain ⟨e', he', hee'⟩ := ih he
    exact ⟨_, decodedMetadata_list.2 ⟨_, rfl, List.rel_append hfirst (.cons he' hothers)⟩,
      .item first others hee'⟩
  | @member child child' before after key _ ih =>
    obtain ⟨found, rfl, hall, hnodup⟩ := decodedMetadata_object.1 h
    obtain ⟨first, rest, hfirst, hrest, rfl⟩ := exists_append_of_forall₂ hall
    obtain ⟨⟨k, e⟩, others, ⟨hk, he⟩, hothers, rfl⟩ := List.forall₂_cons_left_iff.1 hrest
    obtain ⟨e', he', hee'⟩ := ih he
    refine ⟨.object (first ++ (k, e') :: others), decodedMetadata_object.2 ⟨_, rfl, ?_, ?_⟩,
      .member first others k hee'⟩
    · exact List.rel_append hfirst (.cons ⟨hk, he'⟩ hothers)
    · simpa using hnodup

/-- Floats are not decoded. -/
lemma decodedMetadata_respell {floatText : Text → Text} {v d : Value}
    (h : decodedMetadata v = some d) :
    decodedMetadata (v.respell floatText) = some (d.respell floatText) := by
  induction v using Value.childInduction generalizing d with
  | step v ih =>
    cases v with
    | list items =>
      obtain ⟨found, rfl, hall⟩ := decodedMetadata_list.1 h
      rw [Value.respell_list, Value.respell_list]
      refine decodedMetadata_list.2 ⟨_, rfl, ?_⟩
      rw [List.forall₂_map_left_iff, List.forall₂_map_right_iff]
      exact ((List.forall₂_and_left items found).2 ⟨fun item hmem => hmem, hall⟩).imp fun item d hd =>
        ih item hd.1 hd.2
    | object members =>
      obtain ⟨found, rfl, hall, hnodup⟩ := decodedMetadata_object.1 h
      rw [Value.respell_object, Value.respell_object]
      refine decodedMetadata_object.2 ⟨_, rfl, ?_, by simpa [Function.comp_def] using hnodup⟩
      rw [List.forall₂_map_left_iff, List.forall₂_map_right_iff]
      exact ((List.forall₂_and_left members found).2 ⟨fun m hmem => hmem, hall⟩).imp fun m d hd =>
        ⟨hd.2.1, ih m.2 (List.mem_map_of_mem hd.1) hd.2.2⟩
    | str value =>
      obtain ⟨found, hfound, rfl⟩ := Option.map_eq_some_iff.1 h
      simp [Value.respell, decodedMetadata, hfound]
    | _ =>
      obtain rfl := Option.some.inj h
      rfl

end decoding

/-! ## What passes -/

section passes
variable {P : OfficialPlatform} {U : UrlPlatform}

lemma expandText_size {v : Value} {pushed : List Value} (h : expandText U v = some pushed) :
    (pushed.map fun v => 2 * v.nodes - 1).sum < 2 * v.nodes - 1 := by
  have doubled (values : List Value) :
      (values.map fun v => 2 * v.nodes - 1).sum + values.length =
        2 * (values.map Value.nodes).sum := by
    induction values with
    | nil => rfl
    | cons v values ih =>
      have := v.nodes_pos
      simp only [List.map_cons, List.sum_cons, List.length_cons]
      omega
  cases v with
  | object members =>
    obtain rfl := Option.some.inj h
    have hkeys : ((members.map fun m => Value.str m.1).map fun v => 2 * v.nodes - 1).sum =
        members.length := by
      simp [Value.nodes, Function.comp_def]
    have := doubled (members.map Prod.snd)
    rw [List.map_append, List.sum_append, hkeys, Value.nodes, Value.memberNodes_eq]
    simp only [List.length_map, List.map_map, Function.comp_def] at this ⊢
    omega
  | list items =>
    obtain rfl : items = pushed := by simpa [expandText] using h
    have := doubled items
    rw [Value.nodes, Value.itemNodes_eq]
    omega
  | str value =>
    simp only [expandText] at h
    split at h
    · cases h
    · obtain rfl : [] = pushed := by simpa using h
      simp [Value.nodes]
  | _ =>
    obtain rfl : [] = pushed := by simpa [expandText] using h
    simp [Value.nodes]

lemma explore_expandText_iff {v : Value} :
    Worklist.explore (expandText U) (2 * v.nodes) [v] = true ↔
      Worklist.Answers (expandText U) v := by
  rw [Worklist.explore_eq_true_iff (fun v => 2 * v.nodes - 1) (fun _ _ => expandText_size)
    (by simp) (fun v => by have := v.nodes_pos; omega)]
  simp

/-- A decoded value in which the scanner finds nothing, below names that are sensitive or not. -/
def Clean (P : OfficialPlatform) (U : UrlPlatform) (context : Bool) (v : Value) : Prop :=
  ¬ Exposed P.floatText context v ∧ ¬ Worklist.Answers (expandText U) v

lemma clean_list {context : Bool} {items : List Value} :
    Clean P U context (.list items) ↔ ∀ item ∈ items, Clean P U context item := by
  rw [Clean, exposed_list, Worklist.answers_iff_of_some (show expandText U _ = some items from rfl)]
  simp only [Clean]
  grind

/-- What the scanner asks of a member by itself. -/
def CleanMember (P : OfficialPlatform) (U : UrlPlatform) (context : Bool) (m : Text × Value) :
    Prop :=
  memberIsSecret context m.1 m.2 = false ∧ ¬ Worklist.Answers (expandText U) (.str m.1) ∧
    Clean P U (nextContext context m.1 m.2) m.2

lemma clean_object {context : Bool} {members : List (Text × Value)} :
    Clean P U context (.object members) ↔ ∀ m ∈ members, CleanMember P U context m := by
  rw [Clean, exposed_object, Worklist.answers_iff_of_some
    (show expandText U (.object members) = some _ from rfl)]
  simp only [List.mem_append, List.mem_map, CleanMember, Clean]
  constructor
  · rintro ⟨hexposed, htext⟩ m hm
    have hsecret : memberIsSecret context m.1 m.2 = false := by
      by_contra hsecret
      exact hexposed ⟨m.1, m.2, hm, .inl (by simpa using hsecret)⟩
    exact ⟨hsecret, fun hkey => htext ⟨_, .inl ⟨m, hm, rfl⟩, hkey⟩,
      fun hchild => hexposed ⟨m.1, m.2, hm, .inr hchild⟩,
      fun hchild => htext ⟨_, .inr ⟨m, hm, rfl⟩, hchild⟩⟩
  · intro h
    constructor
    · rintro ⟨key, child, hm, hsecret | hchild⟩
      · rw [(h _ hm).1] at hsecret
        cases hsecret
      · exact (h _ hm).2.2.1 hchild
    · rintro ⟨v, ⟨m, hm, rfl⟩ | ⟨m, hm, rfl⟩, hanswers⟩
      · exact (h m hm).2.1 hanswers
      · exact (h m hm).2.2.2 hanswers

lemma exposed_float {floatText : Text → Text} {context : Bool} {spelling : Text} :
    Exposed floatText context (.float spelling) ↔
      context = true ∧ 8 ≤ (floatText spelling).length := by
  constructor
  · rintro ⟨current, below, hvisited, hexposes⟩
    obtain ⟨rfl, rfl⟩ : current = .float spelling ∧ below = context := by
      clear hexposes
      induction hvisited with
      | root => exact ⟨rfl, rfl⟩
      | item _ _ ih => cases ih.1
      | member _ _ ih => cases ih.1
    cases hexposes with
    | number _ hlong => exact ⟨rfl, hlong⟩
  · rintro ⟨rfl, hlong⟩
    exact ⟨_, true, .root, .number rfl hlong⟩

lemma clean_float {context : Bool} {spelling : Text} :
    Clean P U context (.float spelling) ↔
      ¬ (context = true ∧ 8 ≤ (P.floatText spelling).length) := by
  rw [Clean, exposed_float, Worklist.answers_iff_of_some
    (show expandText U (.float spelling) = some [] from rfl)]
  simp

lemma Clean.reordered {v w : Value} {context : Bool} (hvw : v.Reordered w)
    (h : Clean P U context v) : Clean P U context w := by
  induction hvw generalizing context with
  | refl v => exact h
  | trans _ _ ihu ihv => exact ihv (ihu h)
  | perm hperm => exact clean_object.2 fun m hm => clean_object.1 h m (hperm.mem_iff.2 hm)
  | @item item item' before after _ ih =>
    rw [clean_list] at h ⊢
    simp only [List.mem_append, List.mem_cons] at h ⊢
    grind
  | @member child child' before after key hchild ih =>
    rw [clean_object] at h ⊢
    rintro m hm
    simp only [List.mem_append, List.mem_cons] at h hm
    obtain hm | rfl | hm := hm
    · exact h m (.inl hm)
    · obtain ⟨hsecret, hkey, hclean⟩ := h (key, child) (.inr (.inl rfl))
      obtain ⟨hsame, hnext⟩ := member_reordered hchild context key
      exact ⟨hsame ▸ hsecret, hkey, ih (by rw [← hnext]; exact hclean)⟩
    · exact h m (.inr (.inr hm))

section respell
variable {floatText : Text → Text}

lemma holdsString_respell {v : Value} {s : Text} :
    HoldsString (v.respell floatText) s ↔ HoldsString v s := by
  induction v using Value.childInduction with
  | step v ih =>
    cases v with
    | list items =>
      rw [Value.respell_list]
      constructor
      · rintro ⟨_⟩
        case item hmem hholds =>
          obtain ⟨item, hitem, rfl⟩ := List.mem_map.1 hmem
          exact .item hitem ((ih item hitem).1 hholds)
      · rintro ⟨_⟩
        case item hmem hholds =>
          exact .item (List.mem_map_of_mem hmem) ((ih _ hmem).2 hholds)
    | object members =>
      rw [Value.respell_object]
      exact ⟨nofun, nofun⟩
    | float spelling => exact ⟨nofun, nofun⟩
    | _ => rfl

/-- The spelling of floats does not matter to what a member means. -/
lemma member_respell (child : Value) (context : Bool) (key : Text) :
    memberIsSecret context key (child.respell floatText) = memberIsSecret context key child ∧
      nextContext context key (child.respell floatText) = nextContext context key child := by
  have hliteral : Worklist.explore expandLiteral (child.respell floatText).nodes
      [child.respell floatText] = Worklist.explore expandLiteral child.nodes [child] := by
    rw [Bool.eq_iff_iff, explore_expandLiteral_iff, explore_expandLiteral_iff]
    simp only [holdsString_respell]
  simp only [memberIsSecret, nextContext, hliteral]
  cases child with
  | object members =>
    rw [Value.respell_object]
    exact ⟨rfl, rfl⟩
  | list items =>
    rw [Value.respell_list]
    exact ⟨rfl, rfl⟩
  | _ => exact ⟨rfl, rfl⟩

end respell

/-- Nor does it matter to the value, as long as a float that is written is read as itself. -/
lemma Clean.respell (hfloat : ∀ s, P.floatText (P.floatText s) = P.floatText s) {v : Value}
    {context : Bool} (h : Clean P U context v) : Clean P U context (v.respell P.floatText) := by
  induction v using Value.childInduction generalizing context with
  | step v ih =>
    cases v with
    | list items =>
      rw [Value.respell_list, clean_list]
      intro item hitem
      obtain ⟨item, hmem, rfl⟩ := List.mem_map.1 hitem
      exact ih item hmem (clean_list.1 h item hmem)
    | object members =>
      rw [Value.respell_object, clean_object]
      intro m hm
      obtain ⟨m, hmem, rfl⟩ := List.mem_map.1 hm
      obtain ⟨hsecret, hkey, hclean⟩ := clean_object.1 h m hmem
      obtain ⟨hsame, hnext⟩ := @member_respell P.floatText m.2 context m.1
      refine ⟨hsame.trans hsecret, hkey, ?_⟩
      dsimp only
      rw [hnext]
      exact ih m.2 (List.mem_map_of_mem hmem) hclean
    | float spelling =>
      rw [Value.respell, clean_float, hfloat]
      exact clean_float.1 h
    | _ => exact h

/-- What the scanner lets through. -/
def Passes (P : OfficialPlatform) (U : UrlPlatform) (v : Value) : Prop :=
  ∃ d, decodedMetadata v = some d ∧ Clean P U false d

theorem runScanner_eq_false_iff {v : Value} : runScanner P U v = .ok false ↔ Passes P U v := by
  have hscan (d : Value) : (containsSensitiveJson P.floatText d ||
      Worklist.explore (expandText U) (2 * d.nodes) [d]) = false ↔ Clean P U false d := by
    rw [Bool.or_eq_false_iff, ← Bool.not_eq_true, ← Bool.not_eq_true, containsSensitiveJson,
      containsObviousSecretInJson_iff, explore_expandText_iff, Clean]
  cases hdecoded : decodedMetadata v with
  | none => simp [runScanner, defaultMetadataScanner, Passes, hdecoded]
  | some d => simp [runScanner, defaultMetadataScanner, Passes, hdecoded, hscan]

/-- A list passes when its items do: nothing is asked of them together. -/
lemma passes_list {items : List Value} :
    Passes P U (.list items) ↔ ∀ item ∈ items, Passes P U item := by
  constructor
  · rintro ⟨d, hdecoded, hclean⟩ item hitem
    obtain ⟨found, rfl, hall⟩ := decodedMetadata_list.1 hdecoded
    obtain ⟨e, he, hdecodes⟩ := exists_of_forall₂ hall hitem
    exact ⟨e, hdecodes, clean_list.1 hclean e he⟩
  · intro h
    choose! decode hdecode using h
    refine ⟨.list (items.map decode), decodedMetadata_list.2 ⟨_, rfl, ?_⟩, clean_list.2 ?_⟩
    · rw [List.forall₂_map_right_iff, List.forall₂_same]
      exact fun item hitem => (hdecode item hitem).1
    · intro d hd
      obtain ⟨item, hitem, rfl⟩ := List.mem_map.1 hd
      exact (hdecode item hitem).2

/-- The name of the list of servers is neither sensitive nor encoded. -/
lemma passes_servers {members : List (Text × Value)} {servers : List Value}
    (h : Passes P U (.object members)) (hmem : (text "servers", .list servers) ∈ members) :
    Passes P U (.list servers) := by
  obtain ⟨d, hdecoded, hclean⟩ := h
  obtain ⟨found, rfl, hall, -⟩ := decodedMetadata_object.1 hdecoded
  obtain ⟨⟨key, child⟩, he, hkey, hchild⟩ := exists_of_forall₂ hall hmem
  have hplain : decoded (text "servers") = some (text "servers") := by decide +kernel
  obtain rfl : text "servers" = key := Option.some.inj (hplain.symm.trans hkey)
  obtain ⟨ds, rfl, -⟩ := decodedMetadata_list.1 hchild
  exact ⟨_, hchild, (clean_object.1 hclean _ he).2.2⟩

/-- A value that passes passes again as it is stored. -/
theorem Passes.sorted (hfloat : ∀ s, P.floatText (P.floatText s) = P.floatText s) {v : Value}
    (h : Passes P U v) : Passes P U (v.sorted P.floatText) := by
  obtain ⟨d, hdecoded, hclean⟩ := h
  obtain ⟨d', hdecoded', hreordered⟩ := decodedMetadata_reordered
    (Value.reordered_sorted v) (decodedMetadata_respell hdecoded)
  exact ⟨d', hdecoded', (hclean.respell hfloat).reordered hreordered⟩

end passes

end Modall.Registry.Official
