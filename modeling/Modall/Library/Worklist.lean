import Mathlib

/-!
# Searching with an explicit stack

A loop that pops an entry, either answers at once or pushes the entries below it, and goes on until
the stack is empty. It answers yes exactly when it can reach an entry that answers.
-/
namespace Modall.Library.Worklist

variable {σ : Type} {expand : σ → Option (List σ)}

/-- The loop. `expand` gives the entries to push, or `none` for an answer; the entry pushed last is
popped first. -/
def explore (expand : σ → Option (List σ)) : Nat → List σ → Bool
  | _, [] => false
  | 0, _ :: _ => false
  | fuel + 1, entry :: stack =>
    match expand entry with
    | none => true
    | some pushed => explore expand fuel (pushed.reverse ++ stack)

inductive Reaches (expand : σ → Option (List σ)) (entry : σ) : σ → Prop where
  | refl : Reaches expand entry entry
  | step {middle last : σ} {pushed : List σ} : Reaches expand entry middle →
      expand middle = some pushed → last ∈ pushed → Reaches expand entry last

/-- The loop finds something below this entry. -/
def Answers (expand : σ → Option (List σ)) (entry : σ) : Prop :=
  ∃ last, Reaches expand entry last ∧ expand last = none

lemma Reaches.head {entry middle last : σ} {pushed : List σ} (hexpand : expand entry = some pushed)
    (hmem : middle ∈ pushed) (h : Reaches expand middle last) : Reaches expand entry last := by
  induction h with
  | refl => exact .step .refl hexpand hmem
  | step _ hmiddle hlast ih => exact .step ih hmiddle hlast

lemma Reaches.cases_head {entry last : σ} (h : Reaches expand entry last) :
    last = entry ∨ ∃ pushed, expand entry = some pushed ∧
      ∃ middle ∈ pushed, Reaches expand middle last := by
  induction h with
  | refl => exact .inl rfl
  | step hreach hmiddle hlast ih =>
    right
    obtain rfl | ⟨pushed, hexpand, middle, hmem, hrest⟩ := ih
    · exact ⟨_, hmiddle, _, hlast, .refl⟩
    · exact ⟨pushed, hexpand, middle, hmem, .step hrest hmiddle hlast⟩

lemma answers_of_none {entry : σ} (h : expand entry = none) : Answers expand entry :=
  ⟨entry, .refl, h⟩

lemma answers_iff_of_some {entry : σ} {pushed : List σ} (h : expand entry = some pushed) :
    Answers expand entry ↔ ∃ middle ∈ pushed, Answers expand middle := by
  constructor
  · rintro ⟨last, hreach, hlast⟩
    obtain rfl | ⟨pushed', hexpand, middle, hmem, hrest⟩ := hreach.cases_head
    · simp [hlast] at h
    · obtain rfl : pushed = pushed' := by simpa [h] using hexpand
      exact ⟨middle, hmem, last, hrest, hlast⟩
  · rintro ⟨middle, hmem, last, hreach, hlast⟩
    exact ⟨last, hreach.head h hmem, hlast⟩

/-- With as much fuel as the entries are large together, the loop answers yes exactly when one of
them does. -/
theorem explore_eq_true_iff (size : σ → Nat)
    (hsize : ∀ entry pushed, expand entry = some pushed → (pushed.map size).sum < size entry)
    {fuel : Nat} {stack : List σ} (hfuel : (stack.map size).sum ≤ fuel)
    (hpos : ∀ entry, 0 < size entry) :
    explore expand fuel stack = true ↔ ∃ entry ∈ stack, Answers expand entry := by
  induction fuel generalizing stack with
  | zero =>
    cases stack with
    | nil => simp [explore]
    | cons entry stack =>
      have := hpos entry
      simp only [List.map_cons, List.sum_cons] at hfuel
      omega
  | succ fuel ih =>
    cases stack with
    | nil => simp [explore]
    | cons entry stack =>
      simp only [explore]
      cases hexpand : expand entry with
      | none => simp [answers_of_none hexpand]
      | some pushed =>
        have hlt := hsize entry pushed hexpand
        have hsum : ((pushed.reverse ++ stack).map size).sum ≤ fuel := by
          simp only [List.map_cons, List.sum_cons] at hfuel
          simp only [List.map_append, List.sum_append, List.map_reverse, List.sum_reverse]
          omega
        rw [ih hsum]
        simp only [List.mem_append, List.mem_reverse, List.mem_cons, or_and_right, exists_or,
          exists_eq_left, answers_iff_of_some hexpand]

/-! ## Marking what has been seen -/

section traverse
variable {σ κ α β : Type} {visit : α → σ → Except β (α × List σ)} {key : σ → κ}
  {next : σ → List σ}

/-- The loop that visits the entries of each key once. A visit ends the loop with a result, or it
updates what has been gathered and gives the entries to push. `none` says that the loop is still
running when the fuel is used up. -/
def traverse [DecidableEq κ] (visit : α → σ → Except β (α × List σ)) (key : σ → κ) :
    Nat → List κ → α → List σ → Option (Except β α)
  | _, _, gathered, [] => some (.ok gathered)
  | 0, _, _, _ :: _ => none
  | fuel + 1, seen, gathered, entry :: stack =>
    if key entry ∈ seen then traverse visit key fuel seen gathered stack
    else match visit gathered entry with
      | .error result => some (.error result)
      | .ok (gathered', pushed) =>
        traverse visit key fuel (key entry :: seen) gathered' (pushed.reverse ++ stack)

/-- The entries a visit can lead to. -/
def Leads (next : σ → List σ) : σ → σ → Prop :=
  Relation.ReflTransGen fun entry entry' => entry' ∈ next entry

/-- The visits of a list of entries, one after the other. -/
def gather (visit : α → σ → Except β (α × List σ)) (gathered : α) (entries : List σ) :
    Except β α :=
  entries.foldlM (fun gathered entry => (visit gathered entry).map Prod.fst) gathered

lemma gather_snoc (gathered : α) (entries : List σ) (entry : σ) :
    gather visit gathered (entries ++ [entry]) =
      gather visit gathered entries >>= fun g => (visit g entry).map Prod.fst := by
  simp [gather]

/-- Every entry of the list has been visited. -/
lemma exists_visit_of_gather {start gathered : α} {entries : List σ}
    (h : gather visit start entries = .ok gathered) {entry : σ} (hmem : entry ∈ entries) :
    ∃ before after, visit before entry = .ok after := by
  induction entries using List.reverseRecOn generalizing gathered with
  | nil => cases hmem
  | append_singleton entries last ih =>
    rw [gather_snoc] at h
    cases hbefore : gather visit start entries with
    | error ended => simp [hbefore, Bind.bind, Except.bind] at h
    | ok before =>
      obtain hmem | hmem := List.mem_append.1 hmem
      · exact ih hbefore hmem
      · obtain rfl := List.mem_singleton.1 hmem
        cases hvisit : visit before entry with
        | ok after => exact ⟨before, after, hvisit⟩
        | error ended => simp [hbefore, hvisit, Bind.bind, Except.bind, Except.map] at h

/-- How far the loop has come: `done` are the entries visited, in this order. -/
structure Traversed (visit : α → σ → Except β (α × List σ)) (key : σ → κ) (next : σ → List σ)
    (start : α) (root : σ) (seen : List κ) (gathered : α) (stack done : List σ) : Prop where
  seen_eq : seen = (done.map key).reverse
  nodup : (done.map key).Nodup
  reached : ∀ entry ∈ done ++ stack, Leads next root entry
  started : root ∈ done ++ stack
  closed : ∀ entry ∈ done, ∀ entry' ∈ next entry, entry' ∈ done ++ stack
  gathers : gather visit start done = .ok gathered

namespace Traversed
variable {start gathered gathered' : α} {root entry : σ} {seen : List κ}
  {stack done pushed : List σ}

lemma mem_seen (h : Traversed visit key next start root seen gathered stack done) {k : κ} :
    k ∈ seen ↔ ∃ entry ∈ done, key entry = k := by
  simp [h.seen_eq]

/-- An entry that has been seen is dropped. -/
lemma skip (h : Traversed visit key next start root seen gathered (entry :: stack) done)
    (hkey : ∀ entry entry', Leads next root entry → Leads next root entry' →
      key entry = key entry' → entry = entry')
    (hseen : key entry ∈ seen) :
    Traversed visit key next start root seen gathered stack done := by
  have hdone : entry ∈ done := by
    obtain ⟨other, hother, heq⟩ := h.mem_seen.1 hseen
    have hsame := hkey other entry (h.reached other (by simp [hother]))
      (h.reached entry (by simp)) heq
    exact hsame ▸ hother
  refine ⟨h.seen_eq, h.nodup, fun e he => h.reached e ?_, ?_, fun e he e' he' => ?_, h.gathers⟩
  · simp only [List.mem_append, List.mem_cons] at he ⊢
    tauto
  · have := h.started
    simp only [List.mem_append, List.mem_cons] at this ⊢
    grind
  · have := h.closed e he e' he'
    simp only [List.mem_append, List.mem_cons] at this ⊢
    grind

/-- An entry that has not been seen is visited. -/
lemma visited (h : Traversed visit key next start root seen gathered (entry :: stack) done)
    (hnext : ∀ g e g' pushed, visit g e = .ok (g', pushed) → pushed = next e)
    (hfresh : key entry ∉ seen) (hvisit : visit gathered entry = .ok (gathered', pushed)) :
    Traversed visit key next start root (key entry :: seen) gathered' (pushed.reverse ++ stack)
      (done ++ [entry]) := by
  obtain rfl := hnext _ _ _ _ hvisit
  have hreached : Leads next root entry := h.reached entry (by simp)
  refine ⟨by simp [h.seen_eq], ?_, fun e he => ?_, ?_, fun e he e' he' => ?_, ?_⟩
  · rw [List.map_append, List.nodup_append]
    refine ⟨h.nodup, by simp, fun k hk k' hk' => ?_⟩
    obtain rfl : k' = key entry := by simpa using hk'
    rintro rfl
    exact hfresh (h.mem_seen.2 (by simpa using hk))
  · simp only [List.mem_append, List.mem_reverse, List.mem_singleton] at he
    obtain (he | rfl) | he | he := he
    · exact h.reached e (by simp [he])
    · exact hreached
    · exact hreached.tail he
    · exact h.reached e (by simp [he])
  · have := h.started
    simp only [List.mem_append, List.mem_cons, List.mem_reverse] at this ⊢
    grind
  · simp only [List.mem_append, List.mem_singleton] at he
    obtain he | rfl := he
    · have := h.closed e he e' he'
      simp only [List.mem_append, List.mem_cons, List.mem_reverse] at this ⊢
      grind
    · simp [he']
  · rw [gather_snoc, h.gathers]
    exact congrArg (Except.map Prod.fst) hvisit

end Traversed

/-- How the loop can end: every entry it leads to has been visited, each once, or the visit of one
of them, after some others, ended it. -/
def Ends (visit : α → σ → Except β (α × List σ)) (key : σ → κ) (next : σ → List σ) (start : α)
    (root : σ) : Except β α → Prop
  | .ok gathered => ∃ order, (order.map key).Nodup ∧
      (∀ entry, entry ∈ order ↔ Leads next root entry) ∧ gather visit start order = .ok gathered
  | .error result => ∃ order last gathered, ((order ++ [last]).map key).Nodup ∧
      (∀ entry ∈ order ++ [last], Leads next root entry) ∧
        gather visit start order = .ok gathered ∧ visit gathered last = .error result

section spec
variable {start gathered : α} {root : σ} {seen : List κ} {stack done : List σ}

lemma Traversed.ends_ok (h : Traversed visit key next start root seen gathered [] done) :
    Ends visit key next start root (.ok gathered) := by
  refine ⟨done, h.nodup, fun entry => ⟨fun he => h.reached entry (by simpa using he),
    fun hleads => ?_⟩, h.gathers⟩
  induction hleads with
  | refl => simpa using h.started
  | tail _ hstep ih => simpa using h.closed _ ih _ hstep

lemma Traversed.ends_error {entry : σ} {result : β}
    (h : Traversed visit key next start root seen gathered (entry :: stack) done)
    (hfresh : key entry ∉ seen) (hvisit : visit gathered entry = .error result) :
    Ends visit key next start root (.error result) := by
  refine ⟨done, entry, gathered, ?_, fun e he => h.reached e ?_, h.gathers, hvisit⟩
  · rw [List.map_append, List.nodup_append]
    refine ⟨h.nodup, by simp, fun k hk k' hk' => ?_⟩
    obtain rfl : k' = key entry := by simpa using hk'
    rintro rfl
    exact hfresh (h.mem_seen.2 (by simpa using hk))
  · simp only [List.mem_append, List.mem_cons] at he ⊢
    grind

/-- However far it has come, the loop ends in one of the two ways. -/
lemma Traversed.ends [DecidableEq κ]
    (hnext : ∀ g e g' pushed, visit g e = .ok (g', pushed) → pushed = next e)
    (hkey : ∀ entry entry', Leads next root entry → Leads next root entry' →
      key entry = key entry' → entry = entry')
    {fuel : Nat} {result : Except β α}
    (h : Traversed visit key next start root seen gathered stack done)
    (hresult : traverse visit key fuel seen gathered stack = some result) :
    Ends visit key next start root result := by
  induction fuel generalizing seen gathered stack done with
  | zero =>
    cases stack with
    | nil =>
      obtain rfl : .ok gathered = result := by simpa [traverse] using hresult
      exact h.ends_ok
    | cons entry stack => simp [traverse] at hresult
  | succ fuel ih =>
    cases stack with
    | nil =>
      obtain rfl : .ok gathered = result := by simpa [traverse] using hresult
      exact h.ends_ok
    | cons entry stack =>
      rw [traverse] at hresult
      split at hresult
      case isTrue hseen => exact ih (h.skip hkey hseen) hresult
      case isFalse hfresh =>
        cases hvisit : visit gathered entry with
        | error ended =>
          obtain rfl : .error ended = result := by simpa [hvisit] using hresult
          exact h.ends_error hfresh hvisit
        | ok visited =>
          obtain ⟨gathered', pushed⟩ := visited
          rw [hvisit] at hresult
          exact ih (h.visited hnext hfresh hvisit) hresult

theorem traverse_ends [DecidableEq κ]
    (hnext : ∀ g e g' pushed, visit g e = .ok (g', pushed) → pushed = next e)
    (hkey : ∀ entry entry', Leads next root entry → Leads next root entry' →
      key entry = key entry' → entry = entry')
    {fuel : Nat} {result : Except β α} (h : traverse visit key fuel [] start [root] = some result) :
    Ends visit key next start root result := by
  have hstart : Traversed visit key next start root [] start [root] [] := by
    refine ⟨rfl, by simp, ?_, by simp, by simp, rfl⟩
    simp only [List.nil_append, List.mem_singleton, forall_eq]
    exact .refl
  exact hstart.ends hnext hkey h

end spec

/-! ## Termination -/

variable [DecidableEq κ]

/-- What the entries that have not been seen can still push, and one more for each of them. -/
def pending (key : σ → κ) (next : σ → List σ) (entries : List σ) (seen : List κ) : Nat :=
  ((entries.filter (key · ∉ seen)).map fun entry => (next entry).length + 1).sum

lemma pending_cons (first : σ) (entries : List σ) (seen : List κ) :
    pending key next (first :: entries) seen =
      (if key first ∈ seen then 0 else (next first).length + 1) + pending key next entries seen := by
  by_cases hseen : key first ∈ seen <;> simp [pending, hseen]

lemma pending_mono (key : σ → κ) (next : σ → List σ) (entries : List σ) (k : κ) (seen : List κ) :
    pending key next entries (k :: seen) ≤ pending key next entries seen := by
  induction entries with
  | nil => simp [pending]
  | cons first entries ih =>
    rw [pending_cons, pending_cons]
    grind

lemma pending_lt (next : σ → List σ) {entries : List σ} {seen : List κ} {entry : σ} (hmem : entry ∈ entries)
    (hfresh : key entry ∉ seen) :
    pending key next entries (key entry :: seen) + (next entry).length + 1 ≤
      pending key next entries seen := by
  induction entries with
  | nil => cases hmem
  | cons first entries ih =>
    rw [pending_cons, pending_cons]
    obtain rfl | hmem := List.mem_cons.1 hmem
    · have := pending_mono key next entries (key entry) seen
      simp only [List.mem_cons, true_or, if_true, hfresh, if_false]
      omega
    · have := ih hmem
      grind

/-- A loop whose entries keep a property that only finitely many entries have ends. -/
theorem traverse_isSome
    (hnext : ∀ g e g' pushed, visit g e = .ok (g', pushed) → pushed = next e)
    {P : σ → Prop} (hclosed : ∀ entry, P entry → ∀ entry' ∈ next entry, P entry')
    {entries : List σ} (hentries : ∀ entry, P entry → entry ∈ entries)
    {fuel : Nat} {seen : List κ} {gathered : α} {stack : List σ}
    (hstack : ∀ entry ∈ stack, P entry)
    (hfuel : pending key next entries seen + stack.length ≤ fuel) :
    (traverse visit key fuel seen gathered stack).isSome := by
  induction fuel generalizing seen gathered stack with
  | zero =>
    cases stack with
    | nil => simp [traverse]
    | cons entry stack => simp at hfuel
  | succ fuel ih =>
    cases stack with
    | nil => simp [traverse]
    | cons entry stack =>
      rw [List.forall_mem_cons] at hstack
      rw [List.length_cons] at hfuel
      rw [traverse]
      split
      case isTrue => exact ih hstack.2 (by omega)
      case isFalse hfresh =>
        cases hvisit : visit gathered entry with
        | error ended => rfl
        | ok visited =>
          obtain ⟨gathered', pushed⟩ := visited
          obtain rfl := hnext _ _ _ _ hvisit
          have hlt := pending_lt next (hentries entry hstack.1) hfresh
          refine ih (fun e he => ?_) ?_
          · rw [List.mem_append, List.mem_reverse] at he
            exact he.elim (hclosed entry hstack.1 e) (hstack.2 e)
          · rw [List.length_append, List.length_reverse]
            omega

end traverse

end Modall.Library.Worklist
