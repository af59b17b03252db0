import Modall.Security.SchemaWalk

/-!
# The answer about a schema

The walk ends, its answer is the same for every order of members, and it finds what can be reached
below a sensitive property name.
-/
namespace Modall.Security

open Library Library.Json Library.Text

/-! ## References in reordered schemas -/

lemma resolveParts_reordered {place place' : Place} (h : place.Reordered place')
    (hkeyed : place.value.WellKeyed) {parts : List Text} {found : Option Place}
    (hfound : resolveParts place parts = .ok found) :
    ∃ found', resolveParts place' parts = .ok found' ∧
      Option.Rel Place.Reordered found found' := by
  induction parts generalizing place place' with
  | nil =>
    obtain rfl : some place = found := by simpa [resolveParts] using hfound
    exact ⟨some place', rfl, .some h⟩
  | cons part parts ih =>
    have hstep : ∀ {result} step, (∀ below, place.child step = some below →
        resolveParts below parts = .ok found) → (place.child step = none → found = none) →
        (∀ below', place'.child step = some below' → result = resolveParts below' parts) →
        (place'.child step = none → result = .ok none) →
        ∃ found', result = .ok found' ∧ Option.Rel Place.Reordered found found' := by
      intro result step hsome hnone hsome' hnone'
      cases hchild : place.child step with
      | none =>
        have hchild' : place'.child step = none := by
          by_contra hcontra
          obtain ⟨below', hbelow'⟩ := Option.ne_none_iff_exists'.1 hcontra
          obtain ⟨below, hbelow, -⟩ := h.symm.child (h.2.wellKeyed hkeyed) hbelow'
          simp [hchild] at hbelow
        rw [hnone hchild]
        exact ⟨none, hnone' hchild', .none⟩
      | some below =>
        obtain ⟨below', hchild', hreordered⟩ := h.child hkeyed hchild
        have hbelowKeyed : below.value.WellKeyed :=
          hkeyed.within (Value.within_of_child (Place.child_eq_some hchild).1)
        rw [hsome' below' hchild']
        exact ih hreordered hbelowKeyed (hsome below hchild)
    obtain ⟨path, value⟩ := place
    obtain ⟨path', value'⟩ := place'
    cases value with
    | object members =>
      obtain ⟨members', rfl, -⟩ := h.2.members
      rw [resolveParts] at hfound ⊢
      apply hstep (.member (decodePart part))
      · intro below hbelow
        simpa [hbelow] using hfound
      · intro hnone
        simpa [hnone, eq_comm] using hfound
      · intro below hbelow
        simp [hbelow]
      · intro hnone
        simp [hnone]
    | list items =>
      obtain ⟨items', rfl, -⟩ := h.2.items
      rw [resolveParts] at hfound ⊢
      by_cases hdigit : isdigit (decodePart part) = true
      · cases hint : intOfDigits (decodePart part) with
        | none => simp [hdigit, hint] at hfound
        | some index =>
          simp only [hdigit, if_true, hint] at hfound ⊢
          apply hstep (.item index)
          · intro below hbelow
            simpa [hbelow] using hfound
          · intro hnone
            simpa [hnone, eq_comm] using hfound
          · intro below hbelow
            simp [hbelow]
          · intro hnone
            simp [hnone]
      · obtain rfl : none = found := by simpa [hdigit] using hfound
        exact ⟨none, by simp [hdigit], .none⟩
    | _ =>
      obtain rfl := h.2.eq_of_children (by simp) (by simp)
      obtain rfl : none = found := by simpa [resolveParts] using hfound
      exact ⟨none, rfl, .none⟩

section reordered
variable {root root' : Value} {anchors anchors' : List (Text × Place)}

lemma resolve_reordered (h : root.Reordered root') (hroot : root.WellKeyed)
    (hanchors : IsIndex root anchors) (hanchors' : IsIndex root' anchors') {reference : Text}
    {found : Option Place} (hfound : resolveLocalSchemaReference root reference anchors = .ok found) :
    ∃ found', resolveLocalSchemaReference root' reference anchors' = .ok found' ∧
      Option.Rel Place.Reordered found found' := by
  have hplace : (Place.root root).Reordered (.root root') := ⟨rfl, h⟩
  unfold resolveLocalSchemaReference at hfound ⊢
  generalize unquote (reference.drop 1) = fragment at hfound ⊢
  cases fragment with
  | nil =>
    obtain rfl : some (.root root) = found := by simpa using hfound
    exact ⟨_, rfl, .some hplace⟩
  | cons c rest =>
    by_cases hslash : c = '/'.toNat
    · simp only [hslash, if_true] at hfound ⊢
      exact resolveParts_reordered hplace hroot hfound
    · simp only [hslash, if_false] at hfound ⊢
      obtain rfl : anchors.lookup (c :: rest) = found := by simpa using hfound
      refine ⟨_, rfl, ?_⟩
      cases hlookup : anchors.lookup (c :: rest) with
      | some place =>
        obtain ⟨place', hlookup', hreordered⟩ :=
          lookup_reordered h hroot hanchors hanchors' hlookup
        rw [hlookup']
        exact .some hreordered
      | none =>
        cases hlookup' : anchors'.lookup (c :: rest) with
        | none => exact .none
        | some place' =>
          obtain ⟨place, hcontra, -⟩ :=
            lookup_reordered h.symm (h.wellKeyed hroot) hanchors' hanchors hlookup'
          simp [hlookup] at hcontra

/-- Whether resolving raises does not depend on the anchors. -/
lemma resolve_returns (h : root.Reordered root') (hroot : root.WellKeyed) {reference : Text}
    (hreturns : ∃ found, resolveLocalSchemaReference root reference anchors = .ok found) :
    ∃ found', resolveLocalSchemaReference root' reference anchors' = .ok found' := by
  have hplace : (Place.root root).Reordered (.root root') := ⟨rfl, h⟩
  obtain ⟨found, hfound⟩ := hreturns
  unfold resolveLocalSchemaReference at hfound ⊢
  generalize unquote (reference.drop 1) = fragment at hfound ⊢
  cases fragment with
  | nil => exact ⟨_, rfl⟩
  | cons c rest =>
    by_cases hslash : c = '/'.toNat
    · simp only [hslash, if_true] at hfound ⊢
      obtain ⟨found', hfound', -⟩ := resolveParts_reordered hplace hroot hfound
      exact ⟨found', hfound'⟩
    · exact ⟨_, if_neg hslash⟩

lemma resolveParts_in {place place' : Place} (hplace : place.In root) {parts : List Text}
    (h : resolveParts place parts = .ok (some place')) : place'.In root := by
  induction parts generalizing place with
  | nil =>
    obtain rfl : place = place' := by simpa [resolveParts] using h
    exact hplace
  | cons part parts ih =>
    rw [resolveParts] at h
    split at h
    case h_1 =>
      split at h
      case h_1 below hbelow => exact ih (hplace.child hbelow) h
      case h_2 => cases h
    case h_2 =>
      split_ifs at h
      · split at h
        case h_1 => cases h
        case h_2 =>
          split at h
          case h_1 below hbelow => exact ih (hplace.child hbelow) h
          case h_2 => cases h
      · cases h
    case h_3 => cases h

lemma resolve_in (hroot : root.WellKeyed) (hanchors : IsIndex root anchors) {reference : Text}
    {place : Place} (h : resolveLocalSchemaReference root reference anchors = .ok (some place)) :
    place.In root := by
  unfold resolveLocalSchemaReference at h
  split at h
  case h_1 =>
    obtain rfl : .root root = place := by simpa using h
    exact Place.root_in root
  case h_2 c rest _ =>
    split_ifs at h
    · exact resolveParts_in (Place.root_in root) h
    · exact ((hanchors (c :: rest) place).1 (Except.ok.inj h)).1.in_root hroot

/-! ## The walk through reordered schemas -/

/-- The same entry, up to the order of members. -/
def EntryReordered (entry entry' : Entry) : Prop :=
  entry.1.Reordered entry'.1 ∧ entry.2 = entry'.2

/-- Each entry of one list has its like in the other. -/
def Covers (pushed pushed' : List Entry) : Prop :=
  ∀ entry ∈ pushed, ∃ entry' ∈ pushed', EntryReordered entry entry'

lemma covers_members {child child' : Place} (h : child.Reordered child')
    (hkeyed : child.value.WellKeyed) (flag : Text → Bool) :
    Covers (child.members.map fun member => (member.2, flag member.1))
      (child'.members.map fun member => (member.2, flag member.1)) := by
  intro entry hentry
  obtain ⟨⟨key, below⟩, hmem, rfl⟩ := List.mem_map.1 hentry
  obtain ⟨below', hmem', hreordered⟩ := h.member hkeyed hmem
  exact ⟨_, List.mem_map.2 ⟨_, hmem', rfl⟩, hreordered, rfl⟩

lemma covers_items {child child' : Place} (h : child.Reordered child')
    (hkeyed : child.value.WellKeyed) (sensitive : Bool) :
    Covers (child.items.map (·, sensitive)) (child'.items.map (·, sensitive)) := by
  intro entry hentry
  obtain ⟨below, hmem, rfl⟩ := List.mem_map.1 hentry
  obtain ⟨below', hmem', hreordered⟩ := h.item hkeyed hmem
  exact ⟨_, List.mem_map.2 ⟨_, hmem', rfl⟩, hreordered, rfl⟩

lemma memberExposes_reordered {libraries : Libraries} {child child' : Value}
    (h : child.Reordered child') (sensitive : Bool) (key : Text) :
    memberExposes libraries sensitive key child = memberExposes libraries sensitive key child' := by
  have hwrapped : (Value.object [(key, child)]).Reordered (.object [(key, child')]) :=
    .member [] [] key h
  simp only [memberExposes, containsSensitiveJson, containsObviousSecretInJson_reordered h,
    containsObviousSecretInJson_reordered hwrapped]
  cases child with
  | object members =>
    obtain ⟨members', rfl, -⟩ := h.members
    rfl
  | list items =>
    obtain ⟨items', rfl, -⟩ := h.items
    rfl
  | _ =>
    obtain rfl := h.eq_of_children (by simp) (by simp)
    rfl

lemma visitMember_reordered {libraries : Libraries} (h : root.Reordered root')
    (hroot : root.WellKeyed) (hanchors : IsIndex root anchors) (hanchors' : IsIndex root' anchors')
    {child child' : Place} (hchild : child.Reordered child') (hkeyed : child.value.WellKeyed)
    {sensitive : Bool} {key : Text} {pushed : List Entry}
    (hpushed : visitMember libraries root anchors sensitive key child = .ok pushed) :
    ∃ pushed', visitMember libraries root' anchors' sensitive key child' = .ok pushed' ∧
      Covers pushed pushed' := by
  obtain ⟨hdict, hlist, hschema, hlocal⟩ := kind_reordered hchild.2
  unfold visitMember at hpushed ⊢
  rw [← hlocal, ← hdict, ← hlist, ← hschema, ← memberExposes_reordered hchild.2]
  split at hpushed
  case h_1 reference hreference =>
    split at hpushed
    case h_1 => cases hpushed
    case h_2 target htarget =>
      obtain rfl := Except.ok.inj hpushed
      obtain ⟨target', htarget', hrel⟩ := resolve_reordered h hroot hanchors hanchors' htarget
      refine ⟨target'.toList.map (·, true), by simp [htarget'], ?_⟩
      cases hrel with
      | none => simp [Covers]
      | some hreordered => simpa [Covers] using ⟨hreordered, rfl⟩
  case h_2 =>
    simp only
    split_ifs at hpushed ⊢
    all_goals obtain rfl := Except.ok.inj hpushed
    · exact ⟨_, rfl, covers_members hchild hkeyed fun name => sensitive || isSensitiveField name⟩
    · exact ⟨_, rfl, covers_members hchild hkeyed fun pattern =>
        sensitive || patternMatchesSensitiveField libraries pattern⟩
    · exact ⟨_, rfl, covers_members hchild hkeyed fun name => sensitive || isSensitiveField name⟩
    · exact ⟨_, rfl, covers_members hchild hkeyed fun _ => sensitive⟩
    · exact ⟨_, rfl, by simpa [Covers] using ⟨hchild, rfl⟩⟩
    · exact ⟨_, rfl, covers_items hchild hkeyed sensitive⟩
    · exact ⟨_, rfl, by simp [Covers]⟩

end reordered

/-! ## Visits -/

section visits
variable {libraries : Libraries} {root : Value} {anchors : List (Text × Place)}

lemma visitMembers_ok {sensitive : Bool} {members : List (Text × Place)} {pushed : List Entry}
    (h : visitMembers libraries root anchors sensitive members = .ok pushed) :
    (∀ key child, (key, child) ∈ members → ∃ some_pushed,
      visitMember libraries root anchors sensitive key child = .ok some_pushed ∧
        some_pushed ⊆ pushed) ∧
      ∀ entry ∈ pushed, ∃ key child some_pushed, (key, child) ∈ members ∧
        visitMember libraries root anchors sensitive key child = .ok some_pushed ∧
          entry ∈ some_pushed := by
  induction members generalizing pushed with
  | nil =>
    obtain rfl : [] = pushed := by simpa [visitMembers] using h
    simp
  | cons member members ih =>
    obtain ⟨key, child⟩ := member
    rw [visitMembers] at h
    split at h
    case h_1 => cases h
    case h_2 first hfirst =>
      cases hrest : visitMembers libraries root anchors sensitive members with
      | error ending => simp [hrest, Except.map] at h
      | ok rest =>
        obtain rfl : first ++ rest = pushed := by simpa [hrest, Except.map] using h
        obtain ⟨hall, hfrom⟩ := ih hrest
        refine ⟨fun key' child' hmem => ?_, fun entry hentry => ?_⟩
        · obtain heq | hmem := List.mem_cons.1 hmem
          · cases heq
            exact ⟨first, hfirst, List.subset_append_left _ _⟩
          · obtain ⟨some_pushed, hvisit, hsub⟩ := hall key' child' hmem
            exact ⟨some_pushed, hvisit, List.subset_append_of_subset_right _ hsub⟩
        · obtain hentry | hentry := List.mem_append.1 hentry
          · exact ⟨key, child, first, List.mem_cons_self, hfirst, hentry⟩
          · obtain ⟨key', child', some_pushed, hmem, hvisit, hin⟩ := hfrom entry hentry
            exact ⟨key', child', some_pushed, List.mem_cons_of_mem _ hmem, hvisit, hin⟩

lemma visitMembers_isOk {sensitive : Bool} {members : List (Text × Place)}
    (h : ∀ key child, (key, child) ∈ members → ∃ pushed,
      visitMember libraries root anchors sensitive key child = .ok pushed) :
    ∃ pushed, visitMembers libraries root anchors sensitive members = .ok pushed := by
  induction members with
  | nil => exact ⟨[], rfl⟩
  | cons member members ih =>
    obtain ⟨key, child⟩ := member
    obtain ⟨first, hfirst⟩ := h key child List.mem_cons_self
    obtain ⟨rest, hrest⟩ := ih fun key' child' hmem => h key' child' (List.mem_cons_of_mem _ hmem)
    exact ⟨first ++ rest, by simp [visitMembers, hfirst, hrest, Except.map]⟩

/-- The entries a visit pushes, where it does not end the walk. -/
def pushes (libraries : Libraries) (root : Value) (anchors : List (Text × Place)) (entry : Entry) :
    List Entry :=
  match visitEntry libraries root anchors entry with
  | .ok pushed => pushed
  | .error _ => []

lemma mem_pushes {entry entry' : Entry} :
    entry' ∈ pushes libraries root anchors entry ↔
      ∃ pushed, visitEntry libraries root anchors entry = .ok pushed ∧ entry' ∈ pushed := by
  unfold pushes
  cases visitEntry libraries root anchors entry <;> simp

lemma visitSchema_pushes (gathered : Unit) (entry : Entry) (gathered' : Unit) (pushed : List Entry)
    (h : visitSchema libraries root anchors gathered entry = .ok (gathered', pushed)) :
    pushed = pushes libraries root anchors entry := by
  unfold visitSchema at h
  unfold pushes
  cases hvisit : visitEntry libraries root anchors entry with
  | ok pushed' => simpa [hvisit, Except.map, eq_comm] using h
  | error ending => simp [hvisit, Except.map] at h

lemma visitMember_in (hroot : root.WellKeyed) (hanchors : IsIndex root anchors) {child : Place}
    (hchild : child.In root) {sensitive : Bool} {key : Text} {pushed : List Entry}
    (h : visitMember libraries root anchors sensitive key child = .ok pushed) :
    ∀ entry ∈ pushed, entry.1.In root := by
  have hmembers : ∀ flag : Text → Bool,
      ∀ entry ∈ child.members.map fun member => (member.2, flag member.1), entry.1.In root := by
    intro flag entry hentry
    obtain ⟨⟨name, below⟩, hmem, rfl⟩ := List.mem_map.1 hentry
    exact hchild.member hroot hmem
  unfold visitMember at h
  split at h
  case h_1 reference hreference =>
    split at h
    case h_1 => cases h
    case h_2 target htarget =>
      obtain rfl := Except.ok.inj h
      cases target with
      | none => simp
      | some place => simpa using resolve_in hroot hanchors htarget
  case h_2 =>
    split_ifs at h
    all_goals obtain rfl := Except.ok.inj h
    · exact hmembers fun name => sensitive || isSensitiveField name
    · exact hmembers fun pattern => sensitive || patternMatchesSensitiveField libraries pattern
    · exact hmembers fun name => sensitive || isSensitiveField name
    · exact hmembers fun _ => sensitive
    · simpa using hchild
    · intro entry hentry
      obtain ⟨below, hmem, rfl⟩ := List.mem_map.1 hentry
      exact hchild.item hmem
    · simp

/-- What a visit pushes, one of its members pushes. -/
lemma visitEntry_pushed {current : Place} {sensitive : Bool} {pushed : List Entry} {entry : Entry}
    (h : visitEntry libraries root anchors (current, sensitive) = .ok pushed)
    (hmem : entry ∈ pushed) :
    ∃ key child some_pushed, (key, child) ∈ current.members ∧
      visitMember libraries root anchors sensitive key child = .ok some_pushed ∧
        entry ∈ some_pushed := by
  simp only [visitEntry] at h
  split at h
  case h_1 => exact (visitMembers_ok h).2 entry hmem
  all_goals
    split at h
    · cases h
    · obtain rfl := Except.ok.inj h
      cases hmem

lemma pushes_in (hroot : root.WellKeyed) (hanchors : IsIndex root anchors) {entry entry' : Entry}
    (hentry : entry.1.In root) (h : entry' ∈ pushes libraries root anchors entry) :
    entry'.1.In root := by
  obtain ⟨pushed, hvisit, hmem⟩ := mem_pushes.1 h
  obtain ⟨key, child, some_pushed, hmember, hpushed, hin⟩ := visitEntry_pushed hvisit hmem
  exact visitMember_in hroot hanchors (hentry.member hroot hmember) hpushed _ hin

end visits

section reordered
variable {libraries : Libraries} {root root' : Value} {anchors anchors' : List (Text × Place)}

/-- A visit that does not end the walk does not end it in another order either. -/
lemma visitEntry_reordered (h : root.Reordered root') (hroot : root.WellKeyed)
    (hanchors : IsIndex root anchors) (hanchors' : IsIndex root' anchors') {entry entry' : Entry}
    (hentry : EntryReordered entry entry') (hkeyed : entry.1.value.WellKeyed) {pushed : List Entry}
    (hpushed : visitEntry libraries root anchors entry = .ok pushed) :
    ∃ pushed', visitEntry libraries root' anchors' entry' = .ok pushed' ∧ Covers pushed pushed' := by
  obtain ⟨current, sensitive⟩ := entry
  obtain ⟨current', sensitive'⟩ := entry'
  obtain ⟨hcurrent, rfl⟩ : current.Reordered current' ∧ sensitive = sensitive' := hentry
  have hbelow : ∀ key child, (key, child) ∈ current.members → child.value.WellKeyed :=
    fun key child hmem => hkeyed.within (Value.within_of_child
      (Place.child_eq_some ((Place.mem_members_iff hkeyed).1 hmem)).1)
  cases hvalue : current.value with
  | object members =>
    obtain ⟨members', hvalue', -⟩ := Value.Reordered.members (hvalue ▸ hcurrent.2)
    simp only [visitEntry, hvalue, hvalue'] at hpushed ⊢
    obtain ⟨hall, hfrom⟩ := visitMembers_ok hpushed
    have hok : ∃ pushed', visitMembers libraries root' anchors' sensitive current'.members =
        .ok pushed' := by
      refine visitMembers_isOk fun key child' hmem' => ?_
      obtain ⟨child, hmem, hchild⟩ := hcurrent.symm.member (hcurrent.2.wellKeyed hkeyed) hmem'
      obtain ⟨some_pushed, hvisit, -⟩ := hall key child hmem
      obtain ⟨some_pushed', hvisit', -⟩ := visitMember_reordered h hroot hanchors hanchors'
        hchild.symm (hbelow key child hmem) hvisit
      exact ⟨some_pushed', hvisit'⟩
    obtain ⟨pushed', hpushed'⟩ := hok
    refine ⟨pushed', hpushed', fun entry hmem => ?_⟩
    obtain ⟨key, child, some_pushed, hmember, hvisit, hin⟩ := hfrom entry hmem
    obtain ⟨child', hmember', hchild⟩ := hcurrent.member hkeyed hmember
    obtain ⟨some_pushed', hvisit', hcovers⟩ := visitMember_reordered h hroot hanchors hanchors'
      hchild (hbelow key child hmember) hvisit
    obtain ⟨entry', hin', hreordered⟩ := hcovers entry hin
    obtain ⟨others, hothers, hsub⟩ := (visitMembers_ok hpushed').1 key child' hmember'
    obtain rfl := Except.ok.inj (hvisit'.symm.trans hothers)
    exact ⟨entry', hsub hin', hreordered⟩
  | list items =>
    obtain ⟨items', hvalue', -⟩ := Value.Reordered.items (hvalue ▸ hcurrent.2)
    simp only [visitEntry, hvalue, hvalue', isNumber, Bool.and_false, Bool.false_and,
      Bool.false_eq_true, if_false] at hpushed ⊢
    exact ⟨[], rfl, Except.ok.inj hpushed ▸ by simp [Covers]⟩
  | _ =>
    have hvalue' := Value.Reordered.eq_of_children (hvalue ▸ hcurrent.2) (by simp) (by simp)
    refine ⟨pushed, ?_, fun entry hmem => ?_⟩
    · simpa only [visitEntry, hvalue, hvalue'] using hpushed
    · obtain ⟨key, child, some_pushed, hmember, -⟩ := visitEntry_pushed hpushed hmem
      simp [Place.members, hvalue] at hmember

/-! ## Quiet schemas -/

/-- The entries the walk comes to. -/
def Walked (libraries : Libraries) (root : Value) (anchors : List (Text × Place)) : Entry → Prop :=
  Worklist.Leads (pushes libraries root anchors) (.root root, false)

lemma Walked.in_root (hroot : root.WellKeyed) (hanchors : IsIndex root anchors) {entry : Entry}
    (h : Walked libraries root anchors entry) : entry.1.In root := by
  induction h with
  | refl => exact Place.root_in root
  | tail _ hmem ih => exact pushes_in hroot hanchors ih hmem

/-- No visit ends the walk. -/
def Clean (libraries : Libraries) (root : Value) (anchors : List (Text × Place)) : Prop :=
  ∀ entry, Walked libraries root anchors entry →
    ∃ pushed, visitEntry libraries root anchors entry = .ok pushed

lemma Walked.reordered (h : root.Reordered root') (hroot : root.WellKeyed)
    (hanchors : IsIndex root anchors) (hanchors' : IsIndex root' anchors') {entry : Entry}
    (hwalked : Walked libraries root anchors entry) :
    ∃ entry', Walked libraries root' anchors' entry' ∧ EntryReordered entry entry' := by
  induction hwalked with
  | refl => exact ⟨(.root root', false), .refl, ⟨rfl, h⟩, rfl⟩
  | @tail middle last hmiddle hlast ih =>
    obtain ⟨middle', hmiddle', hreordered⟩ := ih
    have hkeyed := (Walked.in_root hroot hanchors hmiddle).wellKeyed hroot
    obtain ⟨pushed, hpushed, hmem⟩ := mem_pushes.1 hlast
    obtain ⟨pushed', hpushed', hcovers⟩ :=
      visitEntry_reordered h hroot hanchors hanchors' hreordered hkeyed hpushed
    obtain ⟨last', hmem', hreordered'⟩ := hcovers last hmem
    exact ⟨last', hmiddle'.tail (mem_pushes.2 ⟨pushed', hpushed', hmem'⟩), hreordered'⟩

lemma Clean.reordered (h : root.Reordered root') (hroot : root.WellKeyed)
    (hanchors : IsIndex root anchors) (hanchors' : IsIndex root' anchors')
    (hclean : Clean libraries root anchors) : Clean libraries root' anchors' := by
  intro entry' hwalked'
  obtain ⟨entry, hwalked, hreordered⟩ :=
    hwalked'.reordered h.symm (h.wellKeyed hroot) hanchors' hanchors
  obtain ⟨pushed, hpushed⟩ := hclean entry hwalked
  have hkeyed := (hwalked.in_root hroot hanchors).wellKeyed hroot
  obtain ⟨pushed', hpushed', -⟩ := visitEntry_reordered h hroot hanchors hanchors'
    ⟨hreordered.1.symm, hreordered.2.symm⟩ hkeyed hpushed
  exact ⟨pushed', hpushed'⟩

lemma exists_isIndex (hroot : root.WellKeyed) (h : Unambiguous root) :
    ∃ anchors, IsIndex root anchors := by
  obtain ⟨enough, henough⟩ := indexSchemaAnchors_isSome hroot
  obtain ⟨index, hindex⟩ := Option.isSome_iff_exists.1 (henough enough le_rfl)
  obtain ⟨anchors, -, -, hanchors⟩ | ⟨-, hambiguous⟩ := indexSchemaAnchors_spec hroot hindex
  · exact ⟨anchors, hanchors⟩
  · exact (hambiguous h).elim

/-- There is nothing to find: no anchor is declared twice and no visit ends the walk. -/
def Quiet (libraries : Libraries) (root : Value) : Prop :=
  Unambiguous root ∧ ∀ anchors, IsIndex root anchors → Clean libraries root anchors

lemma Quiet.reordered (h : root.Reordered root') (hroot : root.WellKeyed)
    (hquiet : Quiet libraries root) : Quiet libraries root' := by
  obtain ⟨anchors, hanchors⟩ := exists_isIndex hroot hquiet.1
  exact ⟨hquiet.1.reordered h hroot, fun _ hanchors' =>
    (hquiet.2 anchors hanchors).reordered h hroot hanchors hanchors'⟩

lemma quiet_iff (hroot : root.WellKeyed) (hunambiguous : Unambiguous root)
    (hanchors : IsIndex root anchors) :
    Quiet libraries root ↔ Clean libraries root anchors :=
  ⟨fun h => h.2 anchors hanchors, fun h => ⟨hunambiguous, fun _ hanchors' =>
    h.reordered (.refl root) hroot hanchors hanchors'⟩⟩

end reordered

/-- Every local reference in the schema resolves without an error. -/
def ResolvesReferences (root : Value) : Prop :=
  ∀ (place : Place) (key : Text) (child : Place) (reference : Text), place.In root →
    (key, child) ∈ place.members → localReference key child.value = some reference →
      ∃ found, resolveLocalSchemaReference root reference [] = .ok found

section answer
variable {libraries : Libraries} {root root' : Value} {anchors : List (Text × Place)}

lemma ResolvesReferences.reordered (h : root.Reordered root') (hroot : root.WellKeyed)
    (hresolves : ResolvesReferences root) : ResolvesReferences root' := by
  intro place' key child' reference hplace' hmem' hreference
  have hroot' := h.wellKeyed hroot
  obtain ⟨value, hvalue, hreordered⟩ := h.symm.find hroot' hplace'
  have hplace : place'.Reordered ⟨place'.path, value⟩ := ⟨rfl, hreordered⟩
  obtain ⟨child, hmem, hchild⟩ := hplace.member (hplace'.wellKeyed hroot') hmem'
  rw [(kind_reordered hchild.2).2.2.2 key] at hreference
  exact resolve_returns h hroot
    (hresolves ⟨place'.path, value⟩ key child reference hvalue hmem hreference)

lemma visitMember_error (hroot : root.WellKeyed) (hresolves : ResolvesReferences root)
    {place child : Place} (hplace : place.In root) {key : Text} (hmem : (key, child) ∈ place.members)
    {sensitive : Bool} {ending : Ending}
    (h : visitMember libraries root anchors sensitive key child = .error ending) :
    ending = .secret := by
  unfold visitMember at h
  split at h
  case h_1 reference hreference =>
    have hlocal : localReference key child.value = some reference := by
      cases sensitive with
      | true => exact hreference
      | false => cases hreference
    obtain ⟨found, hfound⟩ : ∃ found, resolveLocalSchemaReference root reference anchors =
        .ok found :=
      resolve_returns (.refl root) hroot (hresolves place key child reference hplace hmem hlocal)
    rw [hfound] at h
    cases h
  case h_2 =>
    split_ifs at h
    all_goals cases h
    rfl

/-- Where references resolve, a visit ends the walk for a secret only. -/
lemma visitEntry_error (hroot : root.WellKeyed) (hresolves : ResolvesReferences root)
    {entry : Entry} (hentry : entry.1.In root) {ending : Ending}
    (h : visitEntry libraries root anchors entry = .error ending) : ending = .secret := by
  obtain ⟨current, sensitive⟩ := entry
  have hmembers : ∀ members, (∀ member ∈ members, member ∈ current.members) →
      visitMembers libraries root anchors sensitive members = .error ending →
        ending = .secret := by
    intro members
    induction members with
    | nil => intro _ hcontra; cases hcontra
    | cons member members ih =>
      intro hsub herror
      obtain ⟨key, child⟩ := member
      rw [visitMembers] at herror
      split at herror
      case h_1 ending' hfirst =>
        obtain rfl := Except.error.inj herror
        exact visitMember_error hroot hresolves hentry (hsub _ List.mem_cons_self) hfirst
      case h_2 first hfirst =>
        cases hrest : visitMembers libraries root anchors sensitive members with
        | ok pushed => simp [hrest, Except.map] at herror
        | error ending' =>
          obtain rfl : ending' = ending := by simpa [hrest, Except.map] using herror
          exact ih (fun member hmem => hsub member (List.mem_cons_of_mem _ hmem)) hrest
  simp only [visitEntry] at h
  split at h
  case h_1 => exact hmembers current.members (fun _ hmem => hmem) h
  all_goals
    split_ifs at h
    exact (Except.error.inj h).symm

/-- Every table of the declared anchors gives the same visits. -/
lemma pushes_congr {anchors' : List (Text × Place)} (h : IsIndex root anchors)
    (h' : IsIndex root anchors') :
    pushes libraries root anchors = pushes libraries root anchors' := by
  have hlookup : ∀ anchor, anchors.lookup anchor = anchors'.lookup anchor := by
    intro anchor
    ext place
    exact (h anchor place).trans (h' anchor place).symm
  have hresolve : ∀ reference, resolveLocalSchemaReference root reference anchors =
      resolveLocalSchemaReference root reference anchors' := by
    intro reference
    simp only [resolveLocalSchemaReference, hlookup]
  have hmembers : ∀ sensitive members, visitMembers libraries root anchors sensitive members =
      visitMembers libraries root anchors' sensitive members := by
    intro sensitive members
    induction members with
    | nil => rfl
    | cons member members ih => simp only [visitMembers, visitMember, hresolve, ih]
  funext entry
  simp only [pushes, visitEntry, hmembers]

/-- The second loop ends as well, with enough fuel for every table of the declared anchors. -/
lemma traverse_visitSchema_isSome (libraries : Libraries) (hroot : root.WellKeyed) :
    ∃ enough, ∀ fuel ≥ enough, ∀ anchors, IsIndex root anchors →
      (Worklist.traverse (visitSchema libraries root anchors) mark fuel [] ()
        [(.root root, false)]).isSome := by
  by_cases hexists : ∃ anchors, IsIndex root anchors
  · obtain ⟨table, htable⟩ := hexists
    let entries := (Place.below [] root).flatMap fun place => [(place, false), (place, true)]
    refine ⟨Worklist.pending mark (pushes libraries root table) entries [] + 1,
      fun fuel hfuel anchors hanchors => ?_⟩
    rw [pushes_congr htable hanchors] at hfuel
    refine Worklist.traverse_isSome visitSchema_pushes
      (fun entry hentry entry' => pushes_in hroot hanchors hentry) (fun entry hentry => ?_) ?_ hfuel
    · obtain ⟨place, flag⟩ := entry
      refine List.mem_flatMap.2 ⟨place, hentry.mem_below, ?_⟩
      cases flag <;> simp
    · simpa using Place.root_in root
  · exact ⟨0, fun fuel _ anchors hanchors => (hexists ⟨anchors, hanchors⟩).elim⟩

/-- How the second loop ends. -/
lemma traverse_visitSchema_ends (hroot : root.WellKeyed) (hanchors : IsIndex root anchors)
    {fuel : Nat} {result : Except Ending Unit}
    (h : Worklist.traverse (visitSchema libraries root anchors) mark fuel [] ()
      [(.root root, false)] = some result) :
    (result = .ok () ∧ Clean libraries root anchors) ∨
      ∃ ending entry, result = .error ending ∧ Walked libraries root anchors entry ∧
        visitEntry libraries root anchors entry = .error ending := by
  have hends := Worklist.traverse_ends visitSchema_pushes (fun entry entry' hentry hentry' hmark =>
    Prod.ext ((Walked.in_root hroot hanchors hentry).ext (Walked.in_root hroot hanchors hentry')
      (Prod.mk.inj hmark).1) (Prod.mk.inj hmark).2) h
  cases result with
  | ok gathered =>
    obtain ⟨order, -, horder, hgather⟩ := hends
    refine .inl ⟨rfl, fun entry hwalked => ?_⟩
    obtain ⟨before, after, hvisit⟩ :=
      Worklist.exists_visit_of_gather hgather ((horder entry).2 hwalked)
    unfold visitSchema at hvisit
    cases hentry : visitEntry libraries root anchors entry with
    | ok pushed => exact ⟨pushed, rfl⟩
    | error ending => simp [hentry, Except.map] at hvisit
  | error ending =>
    obtain ⟨order, last, gathered, -, horder, -, hvisit⟩ := hends
    refine .inr ⟨ending, last, rfl, horder last (by simp), ?_⟩
    unfold visitSchema at hvisit
    cases hentry : visitEntry libraries root anchors last with
    | ok pushed => simp [hentry, Except.map] at hvisit
    | error ending' => simpa [hentry, Except.map] using hvisit

/-- With enough fuel, the answer is whether there is something to find. -/
lemma containsSensitiveSchema_eq (libraries : Libraries) (hroot : root.WellKeyed)
    (hresolves : ResolvesReferences root) :
    ∃ enough, ∀ fuel ≥ enough, ∃ answer,
      containsSensitiveSchema libraries fuel root = some (.ok answer) ∧
        (answer = true ↔ ¬ Quiet libraries root) := by
  obtain ⟨enough, henough⟩ := indexSchemaAnchors_isSome hroot
  obtain ⟨enough', henough'⟩ := traverse_visitSchema_isSome libraries hroot
  refine ⟨max enough enough', fun fuel hfuel => ?_⟩
  obtain ⟨index, hindex⟩ := Option.isSome_iff_exists.1
    (henough fuel (le_trans (le_max_left _ _) hfuel))
  obtain ⟨anchors, rfl, hunambiguous, hanchors⟩ | ⟨rfl, hambiguous⟩ :=
    indexSchemaAnchors_spec hroot hindex
  · obtain ⟨result, hresult⟩ := Option.isSome_iff_exists.1
      (henough' fuel (le_trans (le_max_right _ _) hfuel) anchors hanchors)
    rw [quiet_iff hroot hunambiguous hanchors]
    obtain ⟨rfl, hclean⟩ | ⟨ending, entry, rfl, hwalked, hvisit⟩ :=
      traverse_visitSchema_ends hroot hanchors hresult
    · exact ⟨false, by simp [containsSensitiveSchema, hindex, hresult], by simp [hclean]⟩
    · obtain rfl := visitEntry_error hroot hresolves (hwalked.in_root hroot hanchors) hvisit
      refine ⟨true, by simp [containsSensitiveSchema, hindex, hresult], ?_⟩
      refine iff_of_true rfl fun hclean => ?_
      obtain ⟨pushed, hpushed⟩ := hclean entry hwalked
      simp [hvisit] at hpushed
  · refine ⟨true, by simp [containsSensitiveSchema, hindex], ?_⟩
    exact iff_of_true rfl fun hquiet => hambiguous hquiet.1

end answer

/-! ## What can be reached -/

/-- What a local reference refers to, for some reading of the anchors that are declared. -/
def Refers (root : Value) (reference : Text) (target : Place) : Prop :=
  ∃ anchors : List (Text × Place), (∀ anchor place, anchors.lookup anchor = some place →
    Indexed root place ∧ anchor ∈ declaredAnchors place) ∧
      resolveLocalSchemaReference root reference anchors = .ok (some target)

/-- The subschemas that can be reached from the root, each with whether it is under a sensitive
property name, its own or that of one above it. -/
inductive Reached (libraries : Libraries) (root : Value) : Place → Bool → Prop where
  | root : Reached libraries root (.root root) false
  | property {current schemas child : Place} {sensitive : Bool} {name : Text} :
      Reached libraries root current sensitive →
      current.child (.member (text "properties")) = some schemas →
      (name, child) ∈ schemas.members →
      Reached libraries root child (sensitive || isSensitiveField name)
  | patternProperty {current schemas child : Place} {sensitive : Bool} {pattern : Text} :
      Reached libraries root current sensitive →
      current.child (.member (text "patternProperties")) = some schemas →
      (pattern, child) ∈ schemas.members →
      Reached libraries root child (sensitive || patternMatchesSensitiveField libraries pattern)
  | dependentSchema {current schemas child : Place} {sensitive : Bool} {name : Text} :
      Reached libraries root current sensitive →
      current.child (.member (text "dependentSchemas")) = some schemas →
      (name, child) ∈ schemas.members →
      Reached libraries root child (sensitive || isSensitiveField name)
  | definition {current schemas child : Place} {sensitive : Bool} {key name : Text} :
      Reached libraries root current sensitive → key ∈ [text "$defs", text "definitions"] →
      current.child (.member key) = some schemas → (name, child) ∈ schemas.members →
      Reached libraries root child sensitive
  | keyword {current child : Place} {sensitive : Bool} {key : Text} :
      Reached libraries root current sensitive → key ∈ schemaKeys →
      current.child (.member key) = some child → isDict child.value = true →
      Reached libraries root child sensitive
  | branch {current schemas child : Place} {sensitive : Bool} {key : Text} :
      Reached libraries root current sensitive → key ∈ schemaArrayKeys →
      current.child (.member key) = some schemas → child ∈ schemas.items →
      Reached libraries root child sensitive
  | reference {current child target : Place} {key reference : Text} :
      Reached libraries root current true → current.child (.member key) = some child →
      localReference key child.value = some reference → Refers root reference target →
      Reached libraries root target true

/-- A string that looks like a secret stands as a literal or as an annotation of a subschema. -/
inductive Carries : Value → Prop where
  | literal {v child : Value} {key s : Text} : key ∈ literalKeys →
      v.child (.member key) = some child → HoldsString child s →
      looksLikeSecretCandidate s = true → Carries v
  | annotation {v : Value} {key s : Text} : key ∈ annotationKeys →
      v.child (.member key) = some (.str s) → looksLikeSecretCandidate s = true → Carries v

section reached
variable {libraries : Libraries} {root : Value} {anchors : List (Text × Place)}

/-- In a walk that nothing ends, the members of a subschema are visited, and what they push is. -/
lemma Clean.member (hclean : Clean libraries root anchors) (hroot : root.WellKeyed)
    (hanchors : IsIndex root anchors) {current child : Place} {sensitive : Bool} {key : Text}
    (hwalked : Walked libraries root anchors (current, sensitive))
    (hchild : current.child (.member key) = some child) :
    ∃ pushed, visitMember libraries root anchors sensitive key child = .ok pushed ∧
      ∀ entry ∈ pushed, Walked libraries root anchors entry := by
  obtain ⟨pushed, hpushed⟩ := hclean _ hwalked
  have hkeyed := (hwalked.in_root hroot hanchors).wellKeyed hroot
  have hmem := (Place.mem_members_iff hkeyed).2 hchild
  have hvisit := hpushed
  cases hvalue : current.value with
  | object members =>
    simp only [visitEntry, hvalue] at hvisit
    obtain ⟨some_pushed, hmember, hsub⟩ := (visitMembers_ok hvisit).1 key child hmem
    exact ⟨some_pushed, hmember, fun entry hentry =>
      hwalked.tail (mem_pushes.2 ⟨pushed, hpushed, hsub hentry⟩)⟩
  | _ => simp [Place.members, hvalue] at hmem

lemma localReference_eq_none {key : Text} (h : key ∉ referenceKeys) (v : Value) :
    localReference key v = none := by
  cases v with
  | str reference => simp [localReference, h]
  | _ => rfl

lemma isDict_of_mem_members {place child : Place} {key : Text} (h : (key, child) ∈ place.members) :
    isDict place.value = true := by
  cases hvalue : place.value with
  | object members => rfl
  | _ => simp [Place.members, hvalue] at h

lemma isList_of_mem_items {place child : Place} (h : child ∈ place.items) :
    isList place.value = true := by
  cases hvalue : place.value with
  | list items => rfl
  | _ => simp [Place.items, hvalue] at h

/-- A member that holds no reference is told apart by its key. -/
lemma visitMember_eq {key : Text} (h : key ∉ referenceKeys) (sensitive : Bool) (child : Place) :
    visitMember libraries root anchors sensitive key child =
      if key = text "properties" ∧ isDict child.value then
        .ok (child.members.map fun (name, schema) => (schema, sensitive || isSensitiveField name))
      else if key = text "patternProperties" ∧ isDict child.value then
        .ok (child.members.map fun (pattern, schema) =>
          (schema, sensitive || patternMatchesSensitiveField libraries pattern))
      else if key = text "dependentSchemas" ∧ isDict child.value then
        .ok (child.members.map fun (name, schema) => (schema, sensitive || isSensitiveField name))
      else if schemaMapKeys.contains key ∧ isDict child.value then
        .ok (child.members.map fun (_, schema) => (schema, sensitive))
      else if schemaKeys.contains key ∧ isSchema child.value then .ok [(child, sensitive)]
      else if schemaArrayKeys.contains key ∧ isList child.value then
        .ok (child.items.map (·, sensitive))
      else if memberExposes libraries sensitive key child.value then .error .secret
      else .ok [] := by
  simp only [visitMember, localReference_eq_none h, ite_self]

lemma visitMember_definition {key : Text} (hkey : key ∈ [text "$defs", text "definitions"])
    {child : Place} (hdict : isDict child.value = true) (sensitive : Bool) :
    visitMember libraries root anchors sensitive key child =
      .ok (child.members.map fun (_, schema) => (schema, sensitive)) := by
  have hkeys : ∀ key ∈ [text "$defs", text "definitions"], key ∉ referenceKeys ∧
      key ≠ text "properties" ∧ key ≠ text "patternProperties" ∧ key ≠ text "dependentSchemas" ∧
      schemaMapKeys.contains key = true := by decide +kernel
  obtain ⟨hreference, hproperties, hpattern, hdependent, hmap⟩ := hkeys key hkey
  rw [visitMember_eq hreference, if_neg (hproperties ·.1), if_neg (hpattern ·.1),
    if_neg (hdependent ·.1), if_pos ⟨hmap, hdict⟩]

lemma visitMember_keyword {key : Text} (hkey : key ∈ schemaKeys) {child : Place}
    (hdict : isDict child.value = true) (sensitive : Bool) :
    visitMember libraries root anchors sensitive key child = .ok [(child, sensitive)] := by
  have hkeys : ∀ key ∈ schemaKeys, key ∉ referenceKeys ∧ key ≠ text "properties" ∧
      key ≠ text "patternProperties" ∧ key ≠ text "dependentSchemas" ∧
      schemaMapKeys.contains key = false ∧ schemaKeys.contains key = true := by decide +kernel
  obtain ⟨hreference, hproperties, hpattern, hdependent, hmap, hsingle⟩ := hkeys key hkey
  have hschema : isSchema child.value = true := by
    cases hvalue : child.value <;> simp_all [isDict, isSchema]
  rw [visitMember_eq hreference, if_neg (hproperties ·.1), if_neg (hpattern ·.1),
    if_neg (hdependent ·.1), if_neg (fun h => Bool.false_ne_true (hmap.symm.trans h.1)),
    if_pos ⟨hsingle, hschema⟩]

lemma visitMember_branch {key : Text} (hkey : key ∈ schemaArrayKeys) {child : Place}
    (hlist : isList child.value = true) (sensitive : Bool) :
    visitMember libraries root anchors sensitive key child =
      .ok (child.items.map (·, sensitive)) := by
  have hkeys : ∀ key ∈ schemaArrayKeys, key ∉ referenceKeys ∧ key ≠ text "properties" ∧
      key ≠ text "patternProperties" ∧ key ≠ text "dependentSchemas" ∧
      schemaMapKeys.contains key = false ∧ schemaKeys.contains key = false ∧
      schemaArrayKeys.contains key = true := by decide +kernel
  obtain ⟨hreference, hproperties, hpattern, hdependent, hmap, hsingle, harray⟩ := hkeys key hkey
  rw [visitMember_eq hreference, if_neg (hproperties ·.1), if_neg (hpattern ·.1),
    if_neg (hdependent ·.1), if_neg (fun h => Bool.false_ne_true (hmap.symm.trans h.1)),
    if_neg (fun h => Bool.false_ne_true (hsingle.symm.trans h.1)),
    if_pos ⟨harray, hlist⟩]

lemma visitMember_plain {key : Text} (hkey : key ∈ literalKeys ++ annotationKeys) (child : Place)
    (sensitive : Bool) :
    visitMember libraries root anchors sensitive key child =
      if memberExposes libraries sensitive key child.value then .error .secret else .ok [] := by
  have hkeys : ∀ key ∈ literalKeys ++ annotationKeys, key ∉ referenceKeys ∧
      key ≠ text "properties" ∧ key ≠ text "patternProperties" ∧ key ≠ text "dependentSchemas" ∧
      schemaMapKeys.contains key = false ∧ schemaKeys.contains key = false ∧
      schemaArrayKeys.contains key = false := by decide +kernel
  obtain ⟨hreference, hproperties, hpattern, hdependent, hmap, hsingle, harray⟩ := hkeys key hkey
  rw [visitMember_eq hreference, if_neg (hproperties ·.1), if_neg (hpattern ·.1),
    if_neg (hdependent ·.1), if_neg (fun h => Bool.false_ne_true (hmap.symm.trans h.1)),
    if_neg (fun h => Bool.false_ne_true (hsingle.symm.trans h.1)),
    if_neg (fun h => Bool.false_ne_true (harray.symm.trans h.1))]

/-- With no anchor declared twice, a reference has one reading. -/
lemma Refers.resolve {reference : Text} {target : Place} (h : Refers root reference target)
    (hanchors : IsIndex root anchors) :
    resolveLocalSchemaReference root reference anchors = .ok (some target) := by
  obtain ⟨table, htable, hresolve⟩ := h
  unfold resolveLocalSchemaReference at hresolve ⊢
  generalize unquote (reference.drop 1) = fragment at hresolve ⊢
  cases fragment with
  | nil => exact hresolve
  | cons c rest =>
    by_cases hslash : c = '/'.toNat
    · simpa only [hslash, if_true] using hresolve
    · simp only [hslash, if_false, Except.ok.injEq] at hresolve ⊢
      exact (hanchors (c :: rest) target).2 (htable (c :: rest) target hresolve)

/-- Where nothing ends the walk, it comes to everything that can be reached. -/
lemma Reached.walked (hroot : root.WellKeyed) (hanchors : IsIndex root anchors)
    (hclean : Clean libraries root anchors) {place : Place} {sensitive : Bool}
    (h : Reached libraries root place sensitive) :
    Walked libraries root anchors (place, sensitive) := by
  induction h with
  | root => exact .refl
  | property _ hchild hmem ih =>
    obtain ⟨pushed, hpushed, hwalked⟩ := hclean.member hroot hanchors ih hchild
    rw [visitMember_eq (by decide +kernel), if_pos ⟨rfl, isDict_of_mem_members hmem⟩] at hpushed
    obtain rfl := Except.ok.inj hpushed
    exact hwalked _ (List.mem_map.2 ⟨_, hmem, rfl⟩)
  | patternProperty _ hchild hmem ih =>
    obtain ⟨pushed, hpushed, hwalked⟩ := hclean.member hroot hanchors ih hchild
    rw [visitMember_eq (by decide +kernel), if_neg (fun hkey => absurd hkey.1 (by decide +kernel)),
      if_pos ⟨rfl, isDict_of_mem_members hmem⟩] at hpushed
    obtain rfl := Except.ok.inj hpushed
    exact hwalked _ (List.mem_map.2 ⟨_, hmem, rfl⟩)
  | dependentSchema _ hchild hmem ih =>
    obtain ⟨pushed, hpushed, hwalked⟩ := hclean.member hroot hanchors ih hchild
    rw [visitMember_eq (by decide +kernel), if_neg (fun hkey => absurd hkey.1 (by decide +kernel)),
      if_neg (fun hkey => absurd hkey.1 (by decide +kernel)),
      if_pos ⟨rfl, isDict_of_mem_members hmem⟩] at hpushed
    obtain rfl := Except.ok.inj hpushed
    exact hwalked _ (List.mem_map.2 ⟨_, hmem, rfl⟩)
  | definition _ hkey hchild hmem ih =>
    obtain ⟨pushed, hpushed, hwalked⟩ := hclean.member hroot hanchors ih hchild
    rw [visitMember_definition hkey (isDict_of_mem_members hmem)] at hpushed
    obtain rfl := Except.ok.inj hpushed
    exact hwalked _ (List.mem_map.2 ⟨_, hmem, rfl⟩)
  | keyword _ hkey hchild hdict ih =>
    obtain ⟨pushed, hpushed, hwalked⟩ := hclean.member hroot hanchors ih hchild
    rw [visitMember_keyword hkey hdict] at hpushed
    obtain rfl := Except.ok.inj hpushed
    exact hwalked _ List.mem_cons_self
  | branch _ hkey hchild hmem ih =>
    obtain ⟨pushed, hpushed, hwalked⟩ := hclean.member hroot hanchors ih hchild
    rw [visitMember_branch hkey (isList_of_mem_items hmem)] at hpushed
    obtain rfl := Except.ok.inj hpushed
    exact hwalked _ (List.mem_map.2 ⟨_, hmem, rfl⟩)
  | reference _ hchild hlocal hrefers ih =>
    obtain ⟨pushed, hpushed, hwalked⟩ := hclean.member hroot hanchors ih hchild
    simp only [visitMember, if_true, hlocal, hrefers.resolve hanchors] at hpushed
    obtain rfl := Except.ok.inj hpushed
    exact hwalked _ (by simp)

lemma HoldsString.exposed {floatText : Text → Text} {v : Value} {s : Text} (h : HoldsString v s)
    (hcandidate : looksLikeSecretCandidate s = true) : Exposed floatText true v := by
  induction h with
  | self s => exact ⟨.str s, true, .root, .candidate hcandidate⟩
  | item hmem _ ih => exact exposed_list.2 ⟨_, hmem, ih hcandidate⟩

/-- What a subschema carries below a sensitive name ends the walk. -/
lemma Carries.not_clean (hroot : root.WellKeyed) (hanchors : IsIndex root anchors) {place : Place}
    (hcarries : Carries place.value) (hwalked : Walked libraries root anchors (place, true)) :
    ¬ Clean libraries root anchors := by
  intro hclean
  have hplain : ∀ key child, key ∈ literalKeys ++ annotationKeys →
      place.value.child (.member key) = some child →
        memberExposes libraries true key child = false := by
    intro key child hkey hchild
    have hplace : place.child (.member key) = some ⟨place.path ++ [.member key], child⟩ := by
      simp [Place.child, hchild]
    obtain ⟨pushed, hpushed, -⟩ := hclean.member hroot hanchors hwalked hplace
    rw [visitMember_plain hkey] at hpushed
    split at hpushed
    · cases hpushed
    case isFalse hexposes => simpa using hexposes
  cases hcarries with
  | literal hkey hchild hholds hcandidate =>
    have hexposes := hplain _ _ (List.mem_append_left _ hkey) hchild
    simp [memberExposes, hkey,
      containsObviousSecretInJson_iff.2 (hholds.exposed hcandidate)] at hexposes
  | annotation hkey hchild hcandidate =>
    have hexposes := hplain _ _ (List.mem_append_right _ hkey) hchild
    simp [memberExposes, hkey, hcandidate] at hexposes

lemma Reached.not_quiet (hroot : root.WellKeyed) {place : Place}
    (h : Reached libraries root place true) (hcarries : Carries place.value) :
    ¬ Quiet libraries root := by
  intro hquiet
  obtain ⟨anchors, hanchors⟩ := exists_isIndex hroot hquiet.1
  have hclean := hquiet.2 anchors hanchors
  exact hcarries.not_clean hroot hanchors (h.walked hroot hanchors hclean) hclean

end reached

/-! ## The answer -/

/-- A JSON schema as the program holds it: an object has each key once. -/
structure Schema where
  value : Value
  keyed : value.WellKeyed

open Classical in
/-- The walk ends with an answer, the answer is the same for every order of members, and it is yes
whenever something that looks like a secret can be reached below a sensitive property name. -/
theorem containsSensitiveSchema_finds_reachable (libraries : Libraries) (schema : Schema)
    (hresolves : ResolvesReferences schema.value) :
    ∃ answer : Bool,
      (∀ schema' : Schema, schema.value.Reordered schema'.value → ∃ enough, ∀ fuel ≥ enough,
        containsSensitiveSchema libraries fuel schema'.value = some (.ok answer)) ∧
      ((∃ place, Reached libraries schema.value place true ∧ Carries place.value) →
        answer = true) := by
  refine ⟨decide (¬ Quiet libraries schema.value), fun schema' hreordered => ?_, ?_⟩
  · have hquiet : Quiet libraries schema.value ↔ Quiet libraries schema'.value :=
      ⟨.reordered hreordered schema.keyed, .reordered hreordered.symm schema'.keyed⟩
    obtain ⟨enough, henough⟩ := containsSensitiveSchema_eq libraries schema'.keyed
      (hresolves.reordered hreordered schema.keyed)
    refine ⟨enough, fun fuel hfuel => ?_⟩
    obtain ⟨answer, hanswer, hiff⟩ := henough fuel hfuel
    rw [hanswer]
    congr 2
    rw [Bool.eq_iff_iff, hiff, ← hquiet, decide_eq_true_eq]
  · rintro ⟨place, hreached, hcarries⟩
    exact decide_eq_true (hreached.not_quiet schema.keyed hcarries)

/-- The definition `a` refers to itself, and the secret is behind the reference to it. -/
def circularSchema : Value :=
  .object [(text "properties", .object [(text "api_key",
      .object [(text "$ref", .str (text "#/$defs/a"))])]),
    (text "$defs", .object [(text "a", .object [(text "not",
        .object [(text "$ref", .str (text "#/$defs/a"))]),
      (text "enum", .list [.str (text "q7Xz9LmK2pRt")])])])]

lemma circularSchema_keyed : circularSchema.WellKeyed := by
  have hkeys : text "properties" ≠ text "$defs" ∧ text "not" ≠ text "enum" := by decide +kernel
  simp [circularSchema, Value.wellKeyed_object, Value.wellKeyed_list, Value.wellKeyed_str, hkeys]

lemma circularSchema_resolves : ResolvesReferences circularSchema := by
  have hall : ((Place.below [] circularSchema).all fun place => place.members.all fun member =>
      (localReference member.1 member.2.value).all fun reference =>
        (resolveLocalSchemaReference circularSchema reference []).toOption.isSome) = true := by
    decide +kernel
  intro place key child reference hplace hmem hreference
  have hone := List.all_eq_true.1 (List.all_eq_true.1 hall place hplace.mem_below) _ hmem
  rw [hreference] at hone
  cases hresolve : resolveLocalSchemaReference circularSchema reference [] with
  | ok found => exact ⟨found, rfl⟩
  | error error => simp [hresolve, Except.toOption] at hone

theorem containsSensitiveSchema_circular :
    ∃ enough, ∀ fuel ≥ enough,
      containsSensitiveSchema ⟨fun _ => none, id⟩ fuel circularSchema = some (.ok true) := by
  obtain ⟨answer, hanswer, hfinds⟩ := containsSensitiveSchema_finds_reachable ⟨fun _ => none, id⟩
    ⟨circularSchema, circularSchema_keyed⟩ circularSchema_resolves
  have hname : (false || isSensitiveField (text "api_key")) = true := by decide +kernel
  have hproperty : Reached ⟨fun _ => none, id⟩ circularSchema
      ⟨[.member (text "properties"), .member (text "api_key")],
        .object [(text "$ref", .str (text "#/$defs/a"))]⟩ true :=
    hname ▸ .property .root rfl (List.mem_singleton.2 rfl)
  have hchild : (⟨[.member (text "properties"), .member (text "api_key")],
      .object [(text "$ref", .str (text "#/$defs/a"))]⟩ : Place).child (.member (text "$ref")) =
        some ⟨[.member (text "properties"), .member (text "api_key"), .member (text "$ref")],
          .str (text "#/$defs/a")⟩ := rfl
  have hreference : Reached ⟨fun _ => none, id⟩ circularSchema
      ⟨[.member (text "$defs"), .member (text "a")],
        .object [(text "not", .object [(text "$ref", .str (text "#/$defs/a"))]),
          (text "enum", .list [.str (text "q7Xz9LmK2pRt")])]⟩ true :=
    .reference hproperty hchild rfl ⟨[], by simp, rfl⟩
  have hkey : text "enum" ∈ literalKeys := by decide +kernel
  have hcarries : Carries (.object [(text "not", .object [(text "$ref", .str (text "#/$defs/a"))]),
      (text "enum", .list [.str (text "q7Xz9LmK2pRt")])]) :=
    .literal hkey rfl (.item List.mem_cons_self (.self (text "q7Xz9LmK2pRt"))) (by decide +kernel)
  obtain rfl := hfinds ⟨_, hreference, hcarries⟩
  exact hanswer ⟨circularSchema, circularSchema_keyed⟩ (.refl _)

end Modall.Security
