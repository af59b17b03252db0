import Mathlib
import Modall.Library.Transition

/-!
# Row locks and the wait-for graph

Transactions as scripts of lock requests. A lock is held until its transaction ends, unless a
savepoint taken before it is rolled back; `skipLocked` takes rows that nobody holds and never waits.
Which rows a statement finds is up to the data, so a script may go on in two ways, take any of the
free rows it selects, and end at any point.

`Script.Always` states what holds at every point of a script of the locks held there and of the
request to come, and carries over to all interleavings.
-/
namespace Modall.Library.Locking

variable {ι Row : Type}

inductive Mode where
  | shared | exclusive
deriving DecidableEq

def Mode.Conflicts (a b : Mode) : Prop := a = .exclusive ∨ b = .exclusive

inductive Script (Row : Type) where
  | done
  | lock (mode : Mode) (row : Row) (next : Script Row)
  /-- `FOR UPDATE SKIP LOCKED` with a `LIMIT`. -/
  | skipLocked (rows : List Row) (limit : Nat) (next : List Row → Script Row)
  /-- Roll back to the savepoint after which the row was locked. -/
  | release (row : Row) (next : Script Row)
  | either (left right : Script Row)

abbrev Held (Row : Type) := List (Row × Mode)

structure State (ι Row : Type) where
  held : ι → Held Row
  script : ι → Script Row

/-- Nobody else holds the row in a mode that conflicts. -/
def State.Free (s : State ι Row) (i : ι) (mode : Mode) (row : Row) : Prop :=
  ∀ j, j ≠ i → ∀ m, (row, m) ∈ s.held j → ¬ mode.Conflicts m

/-- The transactions begin with nothing locked. -/
def State.Begins (scripts : ι → Script Row) (s : State ι Row) : Prop := s = ⟨fun _ => [], scripts⟩

/-- Rows that one selection locks. -/
def taking (rows : List Row) : Held Row := rows.map fun row => (row, .exclusive)

lemma mem_taking {rows : List Row} {row : Row} {m : Mode} :
    (row, m) ∈ taking rows ↔ row ∈ rows ∧ m = .exclusive := by
  simp [taking, eq_comm]

def Held.without [DecidableEq Row] (held : Held Row) (row : Row) : Held Row :=
  held.filter fun entry => entry.1 ≠ row

section steps
variable [DecidableEq ι] [DecidableEq Row]

def State.put (s : State ι Row) (i : ι) (held : Held Row) (script : Script Row) : State ι Row :=
  ⟨Function.update s.held i held, Function.update s.script i script⟩

/-- One transaction goes on; it may end, and then releases its locks, at any point. -/
inductive Step (s : State ι Row) (i : ι) : State ι Row → Prop where
  | locks (mode row next) : s.script i = .lock mode row next → s.Free i mode row →
      Step s i (s.put i ((row, mode) :: s.held i) next)
  | skips (rows limit next) (taken : List Row) : s.script i = .skipLocked rows limit next →
      taken.length ≤ limit → (∀ row ∈ taken, row ∈ rows ∧ s.Free i .exclusive row) →
      Step s i (s.put i (taking taken ++ s.held i) (next taken))
  | releases (row next) : s.script i = .release row next →
      Step s i (s.put i ((s.held i).without row) next)
  | left (left right) : s.script i = .either left right → Step s i (s.put i (s.held i) left)
  | right (left right) : s.script i = .either left right → Step s i (s.put i (s.held i) right)
  | ends : Step s i (s.put i [] .done)

end steps

/-- A transaction waits for another that holds the row it wants. -/
def Waits (s : State ι Row) (i j : ι) : Prop :=
  ∃ mode row next m, s.script i = .lock mode row next ∧ j ≠ i ∧ (row, m) ∈ s.held j ∧
    mode.Conflicts m

def Deadlocked (s : State ι Row) : Prop := ∃ i, Relation.TransGen (Waits s) i i

/-! ## What holds in every state -/

/-- No two transactions hold a row in conflicting modes. -/
def Exclusive (s : State ι Row) : Prop :=
  ∀ i j, j ≠ i → ∀ row m m', (row, m) ∈ s.held i → (row, m') ∈ s.held j → ¬ m.Conflicts m'

/-- The property of the locks held and of what is to come holds all along a script. -/
def Script.Always [DecidableEq Row] (P : Held Row → Script Row → Prop) (held : Held Row) :
    Script Row → Prop
  | .done => P held .done
  | .lock mode row next => P held (.lock mode row next) ∧ next.Always P ((row, mode) :: held)
  | .skipLocked rows limit next => P held (.skipLocked rows limit next) ∧
      ∀ taken : List Row, taken.length ≤ limit → (∀ row ∈ taken, row ∈ rows) →
        (next taken).Always P (taking taken ++ held)
  | .release row next => P held (.release row next) ∧ next.Always P (held.without row)
  | .either left right => P held (.either left right) ∧ left.Always P held ∧ right.Always P held

section reachable
variable {s t : State ι Row} {i : ι}

lemma Script.Always.now [DecidableEq Row] {P : Held Row → Script Row → Prop} {held : Held Row}
    {script : Script Row} (h : script.Always P held) : P held script := by
  cases script with
  | done => exact h
  | lock | skipLocked | release | either => exact h.1

lemma Mode.Conflicts.symm {a b : Mode} (h : a.Conflicts b) : b.Conflicts a := Or.symm h

variable [DecidableEq ι]

@[simp] lemma State.put_held_self (held : Held Row) (script : Script Row) :
    (s.put i held script).held i = held := Function.update_self ..

@[simp] lemma State.put_script_self (held : Held Row) (script : Script Row) :
    (s.put i held script).script i = script := Function.update_self ..

lemma State.put_held_of_ne {j : ι} (h : j ≠ i) (held : Held Row) (script : Script Row) :
    (s.put i held script).held j = s.held j := Function.update_of_ne h ..

lemma State.put_script_of_ne {j : ι} (h : j ≠ i) (held : Held Row) (script : Script Row) :
    (s.put i held script).script j = s.script j := Function.update_of_ne h ..

/-- What a transaction holds after its step, nobody else holds in a conflicting mode. -/
lemma Exclusive.put (h : Exclusive s) {held : Held Row} {script : Script Row}
    (hheld : ∀ row m, (row, m) ∈ held → (row, m) ∈ s.held i ∨ s.Free i m row) :
    Exclusive (s.put i held script) := by
  have hmine : ∀ j, j ≠ i → ∀ row m m', (row, m) ∈ held → (row, m') ∈ s.held j →
      ¬ m.Conflicts m' := by
    intro j hne row m m' hrow hother
    obtain hold | hfree := hheld row m hrow
    · exact h i j hne row m m' hold hother
    · exact hfree j hne m' hother
  intro a b hne row m m' ha hb
  by_cases hai : a = i
  · subst hai
    rw [State.put_held_self] at ha
    rw [State.put_held_of_ne hne] at hb
    exact hmine b hne row m m' ha hb
  · rw [State.put_held_of_ne hai] at ha
    by_cases hbi : b = i
    · subst hbi
      rw [State.put_held_self] at hb
      exact fun hconflict => hmine a hai row m' m hb ha hconflict.symm
    · rw [State.put_held_of_ne hbi] at hb
      exact h a b hne row m m' ha hb

variable [DecidableEq Row]

theorem Step.exclusive (hstep : Step s i t) (h : Exclusive s) : Exclusive t := by
  cases hstep with
  | locks mode row next hscript hfree =>
    refine h.put fun row' m hrow => ?_
    obtain heq | hold := List.mem_cons.mp hrow
    · cases heq
      exact .inr hfree
    · exact .inl hold
  | skips rows limit next taken hscript hlimit htaken =>
    refine h.put fun row m hrow => ?_
    obtain hnew | hold := List.mem_append.mp hrow
    · obtain ⟨hmem, rfl⟩ := mem_taking.mp hnew
      exact .inr (htaken row hmem).2
    · exact .inl hold
  | releases row next hscript => exact h.put fun _ _ hrow => .inl (List.mem_filter.mp hrow).1
  | left | right => exact h.put fun _ _ hrow => .inl hrow
  | ends => exact h.put fun _ _ hrow => absurd hrow List.not_mem_nil

/-- A step takes a script to a later point of it. -/
theorem Step.always {P : ι → Held Row → Script Row → Prop} (hdone : ∀ j, P j [] .done)
    (hstep : Step s i t) (h : ∀ j, (s.script j).Always (P j) (s.held j)) :
    ∀ j, (t.script j).Always (P j) (t.held j) := by
  have hput : ∀ held script, Script.Always (P i) held script →
      ∀ j, ((s.put i held script).script j).Always (P j) ((s.put i held script).held j) := by
    intro held script hscript j
    by_cases hj : j = i
    · subst hj
      rwa [State.put_held_self, State.put_script_self]
    · rw [State.put_held_of_ne hj, State.put_script_of_ne hj]
      exact h j
  have hi := h i
  cases hstep with
  | locks mode row next hscript =>
    rw [hscript] at hi
    exact hput _ _ hi.2
  | skips rows limit next taken hscript hlimit htaken =>
    rw [hscript] at hi
    exact hput _ _ (hi.2 taken hlimit fun row hrow => (htaken row hrow).1)
  | releases row next hscript =>
    rw [hscript] at hi
    exact hput _ _ hi.2
  | left left right hscript =>
    rw [hscript] at hi
    exact hput _ _ hi.2.1
  | right left right hscript =>
    rw [hscript] at hi
    exact hput _ _ hi.2.2
  | ends => exact hput _ _ (hdone i)

/-- What holds all along every script holds in every state that is reached. -/
theorem always_of_reachable {P : ι → Held Row → Script Row → Prop} {scripts : ι → Script Row}
    (hdone : ∀ i, P i [] .done) (hscripts : ∀ i, (scripts i).Always (P i) [])
    (h : Reachable (State.Begins scripts) Step s) :
    Exclusive s ∧ ∀ i, P i (s.held i) (s.script i) := by
  have hkept : Exclusive s ∧ ∀ i, (s.script i).Always (P i) (s.held i) := by
    refine h.invariant (I := fun s => Exclusive s ∧ ∀ i, (s.script i).Always (P i) (s.held i)) ?_
      fun s i t hs hstep => ⟨hstep.exclusive hs.1, hstep.always hdone hs.2⟩
    rintro s rfl
    exact ⟨fun _ _ _ _ _ _ hrow => absurd hrow List.not_mem_nil, hscripts⟩
  exact ⟨hkept.1, fun i => (hkept.2 i).now⟩

end reachable

/-! ## Cycles -/

section cycles
variable {R : ι → ι → Prop}

/-- On a cycle every edge leads to a node with an edge of its own. -/
lemma transGen_leading {i : ι} (h : Relation.TransGen R i i) :
    Relation.TransGen (fun a b => R a b ∧ ∃ c, R b c) i i := by
  have hleads : ∀ j, Relation.TransGen R i j → (∃ c, R j c) →
      Relation.TransGen (fun a b => R a b ∧ ∃ c, R b c) i j := by
    intro j hpath
    induction hpath with
    | single hedge => exact fun hnext => .single ⟨hedge, hnext⟩
    | tail hpath hedge ih => exact fun hnext => (ih ⟨_, hedge⟩).tail ⟨hedge, hnext⟩
  obtain ⟨c, hedge, -⟩ := Relation.TransGen.head'_iff.mp h
  exact hleads i h ⟨c, hedge⟩

/-- A cycle whose edges lead back and forth between two kinds of nodes is a cycle on the nodes of
one kind, two edges at a time. -/
theorem transGen_pairs {A B : ι → Prop} (hdisjoint : ∀ i, A i → ¬ B i)
    (hedge : ∀ i j, R i j → A i ∧ B j ∨ B i ∧ A j) {i : ι} (h : Relation.TransGen R i i) :
    ∃ j, B j ∧ Relation.TransGen (fun a c => B a ∧ B c ∧ ∃ b, A b ∧ R a b ∧ R b c) j j := by
  have hpaths : ∀ {a c}, Relation.TransGen R a c → B c →
      (B a → Relation.TransGen (fun a c => B a ∧ B c ∧ ∃ b, A b ∧ R a b ∧ R b c) a c) ∧
      (A a → R a c ∨ ∃ b, R a b ∧
        Relation.TransGen (fun a c => B a ∧ B c ∧ ∃ b, A b ∧ R a b ∧ R b c) b c) := by
    intro a c hpath hc
    induction hpath using Relation.TransGen.head_induction_on with
    | single hac =>
      refine ⟨fun ha => ?_, fun _ => .inl hac⟩
      obtain ⟨ha', -⟩ | ⟨-, hc'⟩ := hedge _ _ hac
      · exact absurd ha (hdisjoint _ ha')
      · exact absurd hc (hdisjoint _ hc')
    | @head a b hab _ ih =>
      refine ⟨fun ha => ?_, fun ha => .inr ⟨b, hab, ih.1 ?_⟩⟩
      · obtain ⟨ha', -⟩ | ⟨-, hb⟩ := hedge _ _ hab
        · exact absurd ha (hdisjoint _ ha')
        · obtain hbc | ⟨d, hbd, hdc⟩ := ih.2 hb
          · exact .single ⟨ha, hc, b, hb, hab, hbc⟩
          · obtain ⟨-, hd⟩ | ⟨hb', -⟩ := hedge _ _ hbd
            · exact .head ⟨ha, hd, b, hb, hab, hbd⟩ hdc
            · exact absurd hb' (hdisjoint _ hb)
      · obtain ⟨-, hb⟩ | ⟨ha', -⟩ := hedge _ _ hab
        · exact hb
        · exact absurd ha' (hdisjoint _ ha)
  obtain ⟨j, hij, hji⟩ := Relation.TransGen.head'_iff.mp h
  obtain ⟨hi, hj⟩ | ⟨hi, -⟩ := hedge _ _ hij
  · obtain rfl | hpath := Relation.reflTransGen_iff_eq_or_transGen.mp hji
    · exact absurd hj (hdisjoint _ hi)
    · exact ⟨j, hj, (hpaths (hpath.tail hij) hj).1 hj⟩
  · exact ⟨i, hi, (hpaths h hi).1 hi⟩

end cycles

end Modall.Library.Locking
