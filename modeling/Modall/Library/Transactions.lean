import Mathlib
import Modall.Library.Transition

/-!
# Concurrent transactions on one table

Scripts of statements that run as transactions: a statement reads what is committed at that moment
and the changes of its own transaction (read committed), a lock that serializes some of the
transactions is held until its transaction ends, and any number of callers interleave statement by
statement. A transaction may be rolled back at any moment, and its deletions of last resort then
follow, one transaction each.

`Script.wp` is the precondition of a script under any such interference, as long as the others keep
an invariant of the committed rows and, while the script holds the lock, only delete. A script is
`Safe` when it keeps the invariant too and inserts under the lock only; if all scripts are, the
invariant holds in every state that is reached.
-/
namespace Modall.Library.Transactions

variable {Row Key Time Failure α β : Type}

/-- A transaction's statements, with what follows each of them. -/
inductive Script (Row Time Failure α : Type) where
  | ret (value : α)
  | raise (failure : Failure)
  | now (next : Time → Script Row Time Failure α)
  | lock (next : Script Row Time Failure α)
  | read (next : List Row → Script Row Time Failure α)
  | delete (p : Row → Bool) (next : Script Row Time Failure α)
  | insert (row : Row) (next : Script Row Time Failure α)
  /-- Should the transaction be rolled back, the rows are deleted then. -/
  | onRollback (p : Row → Bool) (next : Script Row Time Failure α)

namespace Script

def bind (script : Script Row Time Failure α) (next : α → Script Row Time Failure β) :
    Script Row Time Failure β :=
  match script with
  | .ret value => next value
  | .raise failure => .raise failure
  | .now k => .now fun t => (k t).bind next
  | .lock k => .lock (k.bind next)
  | .read k => .read fun rows => (k rows).bind next
  | .delete p k => .delete p (k.bind next)
  | .insert row k => .insert row (k.bind next)
  | .onRollback p k => .onRollback p (k.bind next)

instance : Monad (Script Row Time Failure) where
  pure := .ret
  bind := .bind

/-- The statements by themselves. -/
def clock : Script Row Time Failure Time := .now .ret
def acquire : Script Row Time Failure Unit := .lock (.ret ())
def select : Script Row Time Failure (List Row) := .read .ret
def deleteWhere (p : Row → Bool) : Script Row Time Failure Unit := .delete p (.ret ())
def add (row : Row) : Script Row Time Failure Unit := .insert row (.ret ())
def registerAfterRollback (p : Row → Bool) : Script Row Time Failure Unit := .onRollback p (.ret ())
def fail (failure : Failure) : Script Row Time Failure α := .raise failure

/-- What a computation without statements returns or raises. -/
def attempt (value : Except Failure α) : Script Row Time Failure α :=
  match value with
  | .ok value => .ret value
  | .error failure => .raise failure

end Script

/-- What a transaction has changed, and what is to follow a rollback. -/
structure Changes (Row Key : Type) where
  deleted : List Key
  inserted : List Row
  cleanups : List (Row → Bool)

def Changes.none : Changes Row Key := ⟨[], [], []⟩

section view
variable [DecidableEq Key] (key : Row → Key)

/-- The rows as the transaction sees them, and as its commit leaves them. -/
def Changes.view (c : Changes Row Key) (rows : List Row) : List Row :=
  rows.filter (fun row => key row ∉ c.deleted) ++ c.inserted

/-- The rows that match are deleted, as far as the transaction sees them. -/
def Changes.deleteWhere (c : Changes Row Key) (rows : List Row) (p : Row → Bool) :
    Changes Row Key :=
  { c with
    deleted := c.deleted ++ ((c.view key rows).filter p).map key
    inserted := c.inserted.filter fun row => !p row }

variable {key}

/-- Rows another transaction deletes are not seen any more. -/
lemma Changes.view_mono (c : Changes Row Key) {rows rows' : List Row} (h : rows'.Sublist rows) :
    (c.view key rows').Sublist (c.view key rows) :=
  (h.filter _).append_right c.inserted

lemma Changes.view_of_nil {c : Changes Row Key} (h : c.inserted = []) (rows : List Row) :
    (c.view key rows).Sublist rows := by
  rw [Changes.view, h, List.append_nil]
  exact List.filter_sublist

lemma Changes.deleteWhere_of_nil {c : Changes Row Key} (h : c.inserted = []) (rows : List Row)
    (p : Row → Bool) : (c.deleteWhere key rows p).inserted = [] := by
  simp [Changes.deleteWhere, h]

/-- What is left after a deletion was there, and does not match. -/
lemma Changes.mem_view_deleteWhere {c : Changes Row Key} {rows : List Row} {p : Row → Bool}
    {row : Row} (h : row ∈ (c.deleteWhere key rows p).view key rows) :
    row ∈ c.view key rows ∧ p row = false := by
  simp only [view, deleteWhere, List.mem_append, List.mem_filter, List.mem_map, decide_eq_true_eq,
    not_or, not_exists, not_and] at h ⊢
  grind

end view

/-- A caller's transaction, and the transactions to follow it. -/
structure Caller (Row Key Time Failure : Type) where
  changes : Changes Row Key
  script : Script Row Time Failure Unit
  queue : List (Row → Bool)

/-- The caller when its transaction has ended. -/
def Caller.next : List (Row → Bool) → Option (Caller Row Key Time Failure)
  | [] => none
  | p :: queue => some ⟨.none, .deleteWhere p, queue⟩

structure World (ι Row Key Time Failure : Type) where
  rows : List Row
  clock : Time
  holder : Option ι
  callers : ι → Option (Caller Row Key Time Failure)

inductive Label (ι : Type) where
  | begins (i : ι) | ticks | executes (i : ι) | commits (i : ι) | rollsBack (i : ι)

section steps
variable {ι : Type} [DecidableEq ι] [DecidableEq Key] (key : Row → Key)

/-- One statement of a caller: the caller after it, and whether it holds the lock then. A statement
that waits for the lock cannot be executed. -/
def execute (w : World ι Row Key Time Failure) (i : ι) (c : Caller Row Key Time Failure) :
    Option (Caller Row Key Time Failure × Option ι) :=
  match c.script with
  | .ret _ => none
  | .raise _ => none
  | .now k => some ({ c with script := k w.clock }, w.holder)
  | .lock k =>
    if w.holder = none ∨ w.holder = some i then some ({ c with script := k }, some i) else none
  | .read k => some ({ c with script := k (c.changes.view key w.rows) }, w.holder)
  | .delete p k =>
    some ({ c with changes := c.changes.deleteWhere key w.rows p, script := k }, w.holder)
  | .insert row k =>
    some ({ c with changes.inserted := c.changes.inserted ++ [row], script := k }, w.holder)
  | .onRollback p k =>
    some ({ c with changes.cleanups := c.changes.cleanups ++ [p], script := k }, w.holder)

/-- The lock once the caller's transaction has ended. -/
def World.released (w : World ι Row Key Time Failure) (i : ι) : Option ι :=
  if w.holder = some i then none else w.holder

omit [DecidableEq Key] in
lemma released_ne {w : World ι Row Key Time Failure} {i j : ι} (hne : j ≠ i) :
    w.released i = some j ↔ w.holder = some j := by
  unfold World.released
  split
  case isTrue hholder => simp [hholder, hne.symm]
  case isFalse => rfl

omit [DecidableEq Key] in
lemma released_self {w : World ι Row Key Time Failure} (i : ι) : w.released i ≠ some i := by
  unfold World.released
  split
  · nofun
  case isFalse hholder => exact hholder

/-- The steps of all callers; `calls` are the scripts they run. -/
inductive Step [LE Time] (calls : Script Row Time Failure Unit → Prop) :
    World ι Row Key Time Failure → Label ι → World ι Row Key Time Failure → Prop where
  | begins (w) (i : ι) (script : Script Row Time Failure Unit) : calls script →
      w.callers i = none →
      Step calls w (.begins i)
        { w with callers := Function.update w.callers i (some ⟨.none, script, []⟩) }
  | ticks (w) (t : Time) : w.clock ≤ t → Step calls w .ticks { w with clock := t }
  | executes (w) (i : ι) (c c' : Caller Row Key Time Failure) (holder : Option ι) :
      w.callers i = some c → execute key w i c = some (c', holder) →
      Step calls w (.executes i)
        { w with holder := holder, callers := Function.update w.callers i (some c') }
  | commits (w) (i : ι) (c : Caller Row Key Time Failure) : w.callers i = some c →
      c.script = .ret () →
      Step calls w (.commits i)
        { w with
          rows := c.changes.view key w.rows
          holder := w.released i
          callers := Function.update w.callers i (Caller.next c.queue) }
  | rollsBack (w) (i : ι) (c : Caller Row Key Time Failure) : w.callers i = some c →
      Step calls w (.rollsBack i)
        { w with
          holder := w.released i
          callers := Function.update w.callers i (Caller.next (c.queue ++ c.changes.cleanups)) }

end steps

/-- What a script comes to on its own, while the table holds the same rows; the readings of its clock
are given in turn. -/
def Script.outcome (rows : List Row) (script : Script Row Time Failure α) (readings : List Time) :
    Option (Except Failure α) :=
  match script, readings with
  | .ret value, _ => some (.ok value)
  | .raise failure, _ => some (.error failure)
  | .now k, t :: later => (k t).outcome rows later
  | .now _, [] => none
  | .read k, readings => (k rows).outcome rows readings
  | .lock k, readings | .delete _ k, readings | .insert _ k, readings | .onRollback _ k, readings =>
    k.outcome rows readings

/-! ## Preconditions -/

/-- Where a transaction stands: the committed rows, the clock, whether it holds the lock, and its
own changes. -/
structure Point (Row Key Time : Type) where
  rows : List Row
  clock : Time
  held : Bool
  changes : Changes Row Key

section wp
variable [Preorder Time] [DecidableEq Key] (key : Row → Key) (inv : List Row → Time → Prop)

/-- What the other callers may do between two statements. -/
structure Rely (s s' : Point Row Key Time) : Prop where
  clock : s.clock ≤ s'.clock
  inv : inv s'.rows s'.clock
  held : s'.held = s.held
  changes : s'.changes = s.changes
  sublist : s.held = true → s'.rows.Sublist s.rows

omit [DecidableEq Key] in
lemma Rely.trans {inv : List Row → Time → Prop} {s t u : Point Row Key Time}
    (h : Rely inv s t) (g : Rely inv t u) : Rely inv s u where
  clock := le_trans h.clock g.clock
  inv := g.inv
  held := g.held.trans h.held
  changes := g.changes.trans h.changes
  sublist hheld := (g.sublist (h.held.trans hheld)).trans (h.sublist hheld)

omit [DecidableEq Key] in
lemma Rely.again {inv : List Row → Time → Prop} {s t : Point Row Key Time} (h : Rely inv s t) :
    Rely inv t t := ⟨le_rfl, h.inv, rfl, rfl, fun _ => .refl _⟩

/-- The precondition of a script: whatever the others do before each of its statements, it ends with
`post`, and inserts under the lock only. -/
def Script.wp (script : Script Row Time Failure α) (post : α → Point Row Key Time → Prop)
    (s : Point Row Key Time) : Prop :=
  match script with
  | .ret value => post value s
  | .raise _ => True
  | .now k => ∀ s', Rely inv s s' → (k s'.clock).wp post s'
  | .lock k => ∀ s', Rely inv s s' → k.wp post { s' with held := true }
  | .read k => ∀ s', Rely inv s s' → (k (s'.changes.view key s'.rows)).wp post s'
  | .delete p k => ∀ s', Rely inv s s' →
      k.wp post { s' with changes := s'.changes.deleteWhere key s'.rows p }
  | .insert row k => s.held = true ∧ ∀ s', Rely inv s s' →
      k.wp post { s' with changes.inserted := s'.changes.inserted ++ [row] }
  | .onRollback p k =>
      k.wp post { s with changes.cleanups := s.changes.cleanups ++ [p] }

/-- The transaction may commit, now and later. -/
def Committable (s : Point Row Key Time) : Prop :=
  ∀ s', Rely inv s s' → inv (s'.changes.view key s'.rows) s'.clock ∧
    (s.held = false → s.changes.inserted = [])

def Script.Safe (script : Script Row Time Failure Unit) (s : Point Row Key Time) : Prop :=
  script.wp key inv (fun _ => Committable key inv) s

variable {key inv} {s t : Point Row Key Time}

lemma Committable.rely (h : Committable key inv s) (hrely : Rely inv s t) :
    Committable key inv t := by
  intro u hu
  obtain ⟨hinv, hinserted⟩ := h u (hrely.trans hu)
  exact ⟨hinv, fun hheld => hrely.changes ▸ hinserted (hrely.held ▸ hheld)⟩

namespace Script

theorem wp_bind (script : Script Row Time Failure α) (next : α → Script Row Time Failure β)
    (post : β → Point Row Key Time → Prop) (s : Point Row Key Time) :
    (script >>= next).wp key inv post s =
      script.wp key inv (fun value => (next value).wp key inv post) s := by
  show (script.bind next).wp key inv post s = _
  induction script generalizing s with
  | ret | raise => rfl
  | now k ih | read k ih => simp only [Script.bind, wp, ih]
  | lock k ih | delete p k ih | insert row k ih | onRollback p k ih =>
    simp only [Script.bind, wp, ih]

/-! ### The statements -/

section statements
variable {post : α → Point Row Key Time → Prop}

@[simp] lemma wp_pure (value : α) :
    (pure value : Script Row Time Failure α).wp key inv post s = post value s := rfl

@[simp] lemma wp_fail (failure : Failure) :
    (fail failure : Script Row Time Failure α).wp key inv post s = True := rfl

@[simp] lemma wp_clock {post : Time → Point Row Key Time → Prop} :
    (clock : Script Row Time Failure Time).wp key inv post s =
      ∀ t, Rely inv s t → post t.clock t := rfl

@[simp] lemma wp_acquire {post : Unit → Point Row Key Time → Prop} :
    (acquire : Script Row Time Failure Unit).wp key inv post s =
      ∀ t, Rely inv s t → post () { t with held := true } := rfl

@[simp] lemma wp_select {post : List Row → Point Row Key Time → Prop} :
    (select : Script Row Time Failure (List Row)).wp key inv post s =
      ∀ t, Rely inv s t → post (t.changes.view key t.rows) t := rfl

@[simp] lemma wp_deleteWhere (p : Row → Bool) {post : Unit → Point Row Key Time → Prop} :
    (deleteWhere p : Script Row Time Failure Unit).wp key inv post s =
      ∀ t, Rely inv s t → post () { t with changes := t.changes.deleteWhere key t.rows p } := rfl

@[simp] lemma wp_add (row : Row) {post : Unit → Point Row Key Time → Prop} :
    (add row : Script Row Time Failure Unit).wp key inv post s = (s.held = true ∧
      ∀ t, Rely inv s t → post () { t with changes.inserted := t.changes.inserted ++ [row] }) := rfl

@[simp] lemma wp_registerAfterRollback (p : Row → Bool) {post : Unit → Point Row Key Time → Prop} :
    (registerAfterRollback p : Script Row Time Failure Unit).wp key inv post s =
      post () { s with changes.cleanups := s.changes.cleanups ++ [p] } := rfl

lemma wp_attempt {value : Except Failure α} (h : ∀ a, value = .ok a → post a s) :
    (attempt value : Script Row Time Failure α).wp key inv post s := by
  cases value with
  | ok a => exact h a rfl
  | error failure => trivial

end statements

/-- What the others do does not invalidate a precondition. -/
theorem wp_rely {script : Script Row Time Failure α} {post : α → Point Row Key Time → Prop}
    (hpost : ∀ value s t, Rely inv s t → post value s → post value t)
    (h : script.wp key inv post s) (hrely : Rely inv s t) : script.wp key inv post t := by
  induction script generalizing s t with
  | ret value => exact hpost value s t hrely h
  | raise => trivial
  | now k | lock k | read k | delete p k => exact fun u hu => h u (hrely.trans hu)
  | insert row k => exact ⟨hrely.held.trans h.1, fun u hu => h.2 u (hrely.trans hu)⟩
  | onRollback p k ih =>
    refine ih h ?_
    exact ⟨hrely.clock, hrely.inv, hrely.held, by rw [hrely.changes], hrely.sublist⟩

theorem wp_mono {script : Script Row Time Failure α} {post post' : α → Point Row Key Time → Prop}
    (h : script.wp key inv post s) (hpost : ∀ value t, post value t → post' value t) :
    script.wp key inv post' s := by
  induction script generalizing s with
  | ret value => exact hpost value s h
  | raise => trivial
  | now k ih => exact fun t ht => ih _ (h t ht)
  | lock k ih => exact fun t ht => ih (h t ht)
  | read k ih => exact fun t ht => ih _ (h t ht)
  | delete p k ih => exact fun t ht => ih (h t ht)
  | insert row k ih => exact ⟨h.1, fun t ht => ih (h.2 t ht)⟩
  | onRollback p k ih => exact ih h

theorem Safe.rely {script : Script Row Time Failure Unit} (h : script.Safe key inv s)
    (hrely : Rely inv s t) : script.Safe key inv t :=
  wp_rely (fun _ _ _ hst hpost => Committable.rely hpost hst) h hrely

end Script

/-! ## Runs -/

variable {ι : Type} [DecidableEq ι]

/-- Where a caller's transaction stands. -/
def World.point (w : World ι Row Key Time Failure) (i : ι) (c : Caller Row Key Time Failure) :
    Point Row Key Time :=
  ⟨w.rows, w.clock, decide (w.holder = some i), c.changes⟩

variable (key inv) in
/-- The committed rows keep the invariant, and so will every caller. -/
structure World.Kept (w : World ι Row Key Time Failure) : Prop where
  rows : inv w.rows w.clock
  holds : ∀ i, w.holder = some i → w.callers i ≠ none
  safe : ∀ i c, w.callers i = some c → c.script.Safe key inv (w.point i c)

/-- An invariant that time and deletions leave. -/
structure Lasting (inv : List Row → Time → Prop) : Prop where
  later : ∀ {rows : List Row} {t u : Time}, inv rows t → t ≤ u → inv rows u
  fewer : ∀ {rows rows' : List Row} {t : Time}, inv rows t → rows'.Sublist rows → inv rows' t

/-- A transaction that inserts nothing may commit. -/
lemma Committable.of_nil (hlasting : Lasting inv) (h : s.changes.inserted = []) :
    Committable key inv s := by
  intro t ht
  refine ⟨hlasting.fewer ht.inv (Changes.view_of_nil ?_ t.rows), fun _ => h⟩
  rw [ht.changes, h]

/-- A deletion of last resort is safe. -/
lemma safe_next (hlasting : Lasting inv) {queue : List (Row → Bool)}
    {c : Caller Row Key Time Failure} (h : Caller.next queue = some c) {s : Point Row Key Time}
    (hchanges : s.changes = c.changes) : c.script.Safe key inv s := by
  cases queue with
  | nil => cases h
  | cons p queue =>
    cases h
    intro t ht
    refine Committable.of_nil hlasting (Changes.deleteWhere_of_nil ?_ t.rows p)
    rw [ht.changes, hchanges]
    rfl

/-- A statement leaves the rest of its script safe. -/
lemma safe_execute {w : World ι Row Key Time Failure} {i : ι} {c c' : Caller Row Key Time Failure}
    {holder : Option ι} (h : execute key w i c = some (c', holder)) (hinv : inv w.rows w.clock)
    (hsafe : c.script.Safe key inv (w.point i c)) :
    c'.script.Safe key inv ({ w with holder := holder }.point i c') ∧
      (holder = w.holder ∨ w.holder = none ∧ holder = some i) := by
  have hrely : Rely inv (w.point i c) (w.point i c) := ⟨le_rfl, hinv, rfl, rfl, fun _ => .refl _⟩
  obtain ⟨changes, script, queue⟩ := c
  cases script with
  | ret | raise => cases h
  | now k | read k | delete p k =>
    cases h
    exact ⟨hsafe _ hrely, .inl rfl⟩
  | insert row k =>
    cases h
    exact ⟨hsafe.2 _ hrely, .inl rfl⟩
  | onRollback p k =>
    cases h
    exact ⟨hsafe, .inl rfl⟩
  | lock k =>
    simp only [execute] at h
    split at h
    case isTrue hfree =>
      cases h
      have hnext := hsafe _ hrely
      refine ⟨by simpa [World.point, Script.Safe] using hnext, ?_⟩
      obtain hnone | hself := hfree
      · exact .inr ⟨hnone, rfl⟩
      · exact .inl hself.symm
    · cases h

/-- When a caller's transaction ends, the others rely on the rows it leaves. -/
lemma kept_of_end (hlasting : Lasting inv) {w : World ι Row Key Time Failure} {i : ι}
    {queue : List (Row → Bool)} {rows : List Row} (h : w.Kept key inv) (hinv : inv rows w.clock)
    (hfewer : w.holder ≠ some i → rows.Sublist w.rows) :
    World.Kept key inv
      { w with
        rows := rows
        holder := w.released i
        callers := Function.update w.callers i (Caller.next queue) } := by
  refine ⟨hinv, fun j hj => ?_, fun j c hc => ?_⟩
  · have hne : j ≠ i := by
      rintro rfl
      exact released_self j hj
    dsimp only
    rw [Function.update_of_ne hne]
    exact h.holds j ((released_ne hne).1 hj)
  · by_cases hne : j = i
    · subst hne
      dsimp only at hc
      rw [Function.update_self] at hc
      exact safe_next hlasting hc rfl
    · dsimp only at hc
      rw [Function.update_of_ne hne] at hc
      refine (h.safe j c hc).rely ⟨le_rfl, hinv, ?_, rfl, fun hheld => hfewer fun hholder => ?_⟩
      · simp only [World.point, released_ne hne]
      · simp only [World.point, decide_eq_true_eq] at hheld
        exact hne (Option.some.inj (hheld.symm.trans hholder))

/-- Every step keeps the invariant, and what the other callers rely on. -/
theorem Step.kept (hlasting : Lasting inv) {calls : Script Row Time Failure Unit → Prop}
    (hcalls : ∀ script, calls script → ∀ s : Point Row Key Time, s.held = false →
      s.changes = .none → inv s.rows s.clock → script.Safe key inv s)
    {w w' : World ι Row Key Time Failure} {l : Label ι} (hstep : Step key calls w l w')
    (h : w.Kept key inv) : w'.Kept key inv := by
  cases hstep with
  | begins i script hscript hidle =>
    have hfree : w.holder ≠ some i := fun hholder => h.holds i hholder hidle
    refine ⟨h.rows, fun j hj => ?_, fun j c hc => ?_⟩
    · have hne : j ≠ i := by
        rintro rfl
        exact hfree hj
      dsimp only
      rw [Function.update_of_ne hne]
      exact h.holds j hj
    · by_cases hne : j = i
      · subst hne
        dsimp only at hc
        rw [Function.update_self] at hc
        cases hc
        exact hcalls script hscript _ (decide_eq_false hfree) rfl h.rows
      · dsimp only at hc
        rw [Function.update_of_ne hne] at hc
        exact h.safe j c hc
  | ticks t hle =>
    have hinv := hlasting.later h.rows hle
    exact ⟨hinv, h.holds, fun j c hc =>
      (h.safe j c hc).rely ⟨hle, hinv, rfl, rfl, fun _ => .refl _⟩⟩
  | executes i c c' holder hc hexecute =>
    obtain ⟨hsafe, hholder⟩ := safe_execute hexecute h.rows (h.safe i c hc)
    have hothers : ∀ j, j ≠ i → (holder = some j ↔ w.holder = some j) := by
      intro j hne
      obtain rfl | ⟨hnone, rfl⟩ := hholder
      · rfl
      · simp [hnone, hne.symm]
    refine ⟨h.rows, fun j hj => ?_, fun j d hd => ?_⟩
    · by_cases hne : j = i
      · subst hne
        dsimp only
        rw [Function.update_self]
        nofun
      · dsimp only
        rw [Function.update_of_ne hne]
        exact h.holds j ((hothers j hne).1 hj)
    · by_cases hne : j = i
      · subst hne
        dsimp only at hd
        rw [Function.update_self] at hd
        cases hd
        exact hsafe
      · dsimp only at hd
        rw [Function.update_of_ne hne] at hd
        have hpoint := h.safe j d hd
        simpa only [World.point, hothers j hne] using hpoint
  | commits i c hc hret =>
    have hcommit := h.safe i c hc
    rw [hret] at hcommit
    obtain ⟨hinv, hinserted⟩ := hcommit _ ⟨le_rfl, h.rows, rfl, rfl, fun _ => .refl _⟩
    refine kept_of_end hlasting h hinv fun hholder => ?_
    exact Changes.view_of_nil (hinserted (decide_eq_false hholder)) w.rows
  | rollsBack i c hc => exact kept_of_end hlasting h h.rows fun _ => .refl _

/-- The invariant holds in every state that callers with safe scripts reach. -/
theorem kept_of_reachable (hlasting : Lasting inv) {calls : Script Row Time Failure Unit → Prop}
    (hcalls : ∀ script, calls script → ∀ s : Point Row Key Time, s.held = false →
      s.changes = .none → inv s.rows s.clock → script.Safe key inv s)
    {init : World ι Row Key Time Failure → Prop}
    (hinit : ∀ w, init w → inv w.rows w.clock ∧ w.holder = none ∧ ∀ i, w.callers i = none)
    {w : World ι Row Key Time Failure} (h : Reachable init (Step key calls) w) :
    inv w.rows w.clock := by
  have hkept : w.Kept key inv := by
    refine h.invariant (fun w hw => ?_) fun w l w' hw hstep => hstep.kept hlasting hcalls hw
    obtain ⟨hinv, hholder, hidle⟩ := hinit w hw
    refine ⟨hinv, fun i hi => ?_, fun i c hc => ?_⟩
    · rw [hholder] at hi
      cases hi
    · rw [hidle i] at hc
      cases hc
  exact hkept.rows

end wp

/-! ## Schedules -/

section schedules
variable {ι : Type} [DecidableEq ι] [DecidableEq Key] (key : Row → Key)

/-- The caller's next step: the statement it has come to, or its commit. -/
def World.turn (w : World ι Row Key Time Failure) (i : ι) :
    Option (World ι Row Key Time Failure) :=
  match w.callers i with
  | none => none
  | some c =>
    match c.script with
    | .ret () =>
      some { w with
        rows := c.changes.view key w.rows
        holder := w.released i
        callers := Function.update w.callers i (Caller.next c.queue) }
    | _ =>
      match execute key w i c with
      | none => none
      | some (c', holder) =>
        some { w with holder := holder, callers := Function.update w.callers i (some c') }

/-- The callers take turns in the order of the schedule. -/
def World.follow (w : World ι Row Key Time Failure) :
    List ι → Option (World ι Row Key Time Failure)
  | [] => some w
  | i :: schedule =>
    match w.turn key i with
    | none => none
    | some w' => w'.follow schedule

variable {key} [LE Time] {calls : Script Row Time Failure Unit → Prop}

lemma World.turn_step {w w' : World ι Row Key Time Failure} {i : ι}
    (h : w.turn key i = some w') : ∃ l, Step key calls w l w' := by
  unfold turn at h
  split at h
  · cases h
  case h_2 c hc =>
    split at h
    case h_1 hret =>
      cases h
      exact ⟨_, .commits w i c hc hret⟩
    case h_2 =>
      split at h
      · cases h
      case h_2 c' holder hexecute =>
        cases h
        exact ⟨_, .executes w i c c' holder hc hexecute⟩

theorem World.follow_reachable {init : World ι Row Key Time Failure → Prop} {schedule : List ι}
    {w w' : World ι Row Key Time Failure} (h : Reachable init (Step key calls) w)
    (hfollow : w.follow key schedule = some w') : Reachable init (Step key calls) w' := by
  induction schedule generalizing w with
  | nil =>
    cases hfollow
    exact h
  | cons i schedule ih =>
    simp only [follow] at hfollow
    split at hfollow
    · cases hfollow
    case h_2 u hturn =>
      obtain ⟨l, hstep⟩ : ∃ l, Step key calls w l u := turn_step hturn
      exact ih (h.extend (.single hstep)) hfollow

end schedules

end Modall.Library.Transactions
