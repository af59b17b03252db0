import Modall.Library.Program
import Modall.Persistence.Models

/-!
# Sessions

An `AsyncSession` of `create_session_factory`, which disables autoflush. A statement sees the
rows flushed so far (`rows`); an attribute assignment or `add` changes the mapped objects
(`objects`) only, until `flush` writes them out. A query evaluates its predicate on the
flushed rows and returns the mapped object of the row it finds.

`ticks` is the time that passes before each further reading of the database clock, so that
the readings of a transaction never decrease. `held` are the run rows other transactions have
locked when a `SKIP LOCKED` statement meets them. `commits` are the effects of the other
transactions that commit while a statement of this one waits for a lock, or between the
snapshot of a `SKIP LOCKED` statement and its row locks; it is empty in a transaction that
runs without interference.
-/
namespace Modall
open Library

/-- The exceptions the services raise, with their texts. -/
inductive Failure where
  | execution (code : ExecutionFailureCode)
  | valueError (message : String)
  | authorizationDenied (message : String)
  | permissionError (message : String)
  | invalidConnectionTransition (message : String)
  | invalidCapabilityTransition (message : String)
deriving DecidableEq

structure Session where
  rows : Store
  objects : Store
  clock : Time
  ticks : List Nat
  held : List Uuid
  commits : List (Store → Store)

abbrev Tx := EStateM Failure Session

namespace Session

/-- A session whose transaction has just begun on the committed rows. -/
def begin (store : Store) (clock : Time) (ticks : List Nat) (held : List Uuid)
    (commits : List (Store → Store)) : Session :=
  ⟨store, store, clock, ticks, held, commits⟩

end Session

/-- `_durable_now` and `_database_now`. -/
def durableNow : Tx Time := fun s =>
  match s.ticks with
  | [] => .ok s.clock s
  | tick :: ticks => .ok (s.clock + tick) { s with clock := s.clock + tick, ticks := ticks }

def flush : Tx Unit := change fun s => { s with rows := s.objects }

/-- Let the next of the other transactions commit. -/
def othersCommit : Tx Unit := fun s =>
  match s.commits with
  | [] => .ok () s
  | commit :: commits =>
    .ok () { s with rows := commit s.rows, objects := commit s.objects, commits := commits }

/-- Change mapped objects; nothing is written before the next flush. -/
def assign (f : Store → Store) : Tx Unit := change fun s => { s with objects := f s.objects }

/-- `session.execute(delete(...))`: the statement runs at once, on the rows and on the mapped
objects alike. -/
def execute (f : Store → Store) : Tx Unit :=
  change fun s => { s with rows := f s.rows, objects := f s.objects }

/-- `session.scalar(select(...).where(p))` over one table, `same` telling whether two rows
have the same primary key. -/
def scalar {α : Type} (table : Store → List α) (same : α → α → Bool) (p : α → Bool) :
    Tx (Option α) :=
  query fun s => ((table s.rows).find? p).bind fun row => (table s.objects).find? (same row)

/-- `session.scalar(select(table).where(p))` read for its presence or as an immutable row. -/
def selectRow {α : Type} (table : Store → List α) (p : α → Bool) : Tx (Option α) :=
  query fun s => (table s.rows).find? p

/-- What a transaction leaves behind: the committed store, the clock it has reached and what
the call returned or raised. -/
structure Outcome (α : Type) where
  result : Except Failure α
  store : Store
  clock : Time

/-- `async with transaction(...)`: commit what the session holds, or roll everything back. -/
def transact {α : Type} (tx : Tx α) (session : Session) : Outcome α :=
  match tx session with
  | .ok a s => ⟨.ok a, s.objects, s.clock⟩
  | .error e s => ⟨.error e, session.rows, s.clock⟩

/-! ## Rules -/

@[simp] theorem assign_apply (f : Store → Store) (s : Session) :
    assign f s = .ok () { s with objects := f s.objects } := rfl

@[simp] theorem flush_apply (s : Session) : flush s = .ok () { s with rows := s.objects } := rfl

@[simp] theorem selectRow_apply {α : Type} (table : Store → List α) (p : α → Bool)
    (s : Session) : selectRow table p s = .ok ((table s.rows).find? p) s := rfl

@[simp] theorem execute_apply (f : Store → Store) (s : Session) :
    execute f s = .ok () { s with rows := f s.rows, objects := f s.objects } := rfl

/-- The session has waited for some of the other transactions and written nothing. -/
def Session.Waits (s t : Session) : Prop :=
  ∃ done, s.commits = done ++ t.commits ∧
    t.rows = done.foldl (fun store commit => commit store) s.rows ∧
    t.objects = done.foldl (fun store commit => commit store) s.objects ∧
    t.held = s.held ∧ s.clock ≤ t.clock

theorem Session.Waits.refl (s : Session) : s.Waits s := ⟨[], rfl, rfl, rfl, rfl, le_refl _⟩

theorem Session.Waits.trans {s t u : Session} (h : s.Waits t) (g : t.Waits u) : s.Waits u := by
  obtain ⟨first, hc, hr, ho, hh, ht⟩ := h
  obtain ⟨second, gc, gr, go, gh, gt⟩ := g
  refine ⟨first ++ second, ?_, ?_, ?_, gh.trans hh, ht.trans gt⟩
  · rw [hc, gc, List.append_assoc]
  · rw [List.foldl_append, ← hr, gr]
  · rw [List.foldl_append, ← ho, go]

/-- With no other transaction about, waiting takes nothing but time. -/
theorem Session.Waits.quiet {s t : Session} (h : s.Waits t) (alone : s.commits = []) :
    t.rows = s.rows ∧ t.objects = s.objects ∧ t.commits = [] ∧ s.clock ≤ t.clock := by
  obtain ⟨done, hc, hr, ho, -, ht⟩ := h
  rw [alone] at hc
  obtain ⟨rfl, hnone⟩ := List.append_eq_nil_iff.mp hc.symm
  exact ⟨hr, ho, hnone, ht⟩

theorem Session.Waits.flushed {s t : Session} (h : s.Waits t) (hs : s.objects = s.rows) :
    t.objects = t.rows := by
  obtain ⟨done, -, hr, ho, -, -⟩ := h
  rw [ho, hr, hs]

/-- A program that writes nothing. -/
abbrev Reads {α : Type} (x : Tx α) : Prop := Keeps Session.Waits x

section Reads
variable {α β : Type}

theorem Reads.bind {x : Tx α} {f : α → Tx β} (hx : Reads x) (hf : ∀ a, Reads (f a)) :
    Reads (x >>= f) := Keeps.bind (R := Session.Waits) (fun _ _ _ h g => h.trans g) hx hf
theorem Reads.pure (a : α) : Reads (pure a : Tx α) := Keeps.pure Session.Waits.refl a
theorem Reads.throw (e : Failure) : Reads (throw e : Tx α) := Keeps.throw Session.Waits.refl e
theorem Reads.query (f : Session → α) : Reads (query f : Tx α) :=
  Keeps.query Session.Waits.refl f
theorem Reads.lift (x : Except Failure α) : Reads (lift x : Tx α) :=
  Keeps.lift Session.Waits.refl x
theorem Reads.raiseIf (c : Prop) [Decidable c] (e : Failure) : Reads (raiseIf c e : Tx Unit) :=
  Keeps.raiseIf Session.Waits.refl c e
theorem Reads.runIf (c : Prop) [Decidable c] {x : Tx Unit} (hx : Reads x) :
    Reads (runIf c x) := Keeps.runIf Session.Waits.refl c hx
theorem Reads.scalar (table : Store → List α) (same : α → α → Bool) (p : α → Bool) :
    Reads (scalar table same p) := .query _
theorem Reads.selectRow (table : Store → List α) (p : α → Bool) : Reads (selectRow table p) :=
  .query _

end Reads

theorem durableNow_eq_ok {s t : Session} {now : Time} (h : durableNow s = .ok now t) :
    now = t.clock ∧ t.rows = s.rows ∧ t.objects = s.objects ∧ t.commits = s.commits ∧
      t.held = s.held ∧ s.clock ≤ t.clock := by
  unfold durableNow at h
  cases hs : s.ticks with
  | nil =>
    rw [hs] at h
    injection h with hn ht
    subst ht
    exact ⟨hn.symm, rfl, rfl, rfl, rfl, le_refl _⟩
  | cons tick ticks =>
    rw [hs] at h
    injection h with hn ht
    subst ht
    exact ⟨hn.symm, rfl, rfl, rfl, rfl, Int.le_add_of_nonneg_right (Int.natCast_nonneg tick)⟩

theorem durableNow_ne_error {s t : Session} {e : Failure} : durableNow s ≠ .error e t := by
  unfold durableNow
  cases s.ticks <;> exact nofun

theorem Reads.durableNow : Reads durableNow := by
  refine fun s => ⟨fun now t h => ?_, fun e t h => absurd h durableNow_ne_error⟩
  obtain ⟨-, hr, ho, hc, hh, hle⟩ := durableNow_eq_ok h
  exact ⟨[], hc.symm, hr, ho, hh, hle⟩

theorem Reads.othersCommit : Reads othersCommit := by
  refine fun s => ⟨fun u t h => ?_, fun e t h => ?_⟩
  · unfold Modall.othersCommit at h
    cases hs : s.commits with
    | nil =>
      rw [hs] at h
      injection h with _ h
      exact h ▸ Session.Waits.refl s
    | cons commit commits =>
      rw [hs] at h
      injection h with _ h
      subst h
      exact ⟨[commit], hs, rfl, rfl, rfl, le_refl _⟩
  · unfold Modall.othersCommit at h
    cases hs : s.commits <;> rw [hs] at h <;> cases h

end Modall
