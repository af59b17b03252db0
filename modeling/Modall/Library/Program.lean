import Mathlib

/-!
# Programs that keep their state when they raise

`EStateM ε σ` is the monad of programs that read and write a state and may raise. Unlike
`StateT σ (Except ε)` it hands back the state that had been reached when the exception left
the program, so a result can say that nothing had been written before the raise.

Verification reads such a program backwards: from the fact that it returned, each bind
splits into the run of its first part and the run of the rest. The lemmas here are the
splitting rules, one for each way a program is put together, and `Keeps`, the rule for what
holds across a program however it ends.
-/
namespace Modall.Library

variable {ε σ α β : Type}

/-- Raise `failure` when the condition holds. -/
def raiseIf (c : Prop) [Decidable c] (failure : ε) : EStateM ε σ Unit :=
  if c then throw failure else pure ()

/-- Read something off the state. -/
def query (f : σ → α) : EStateM ε σ α := fun s => .ok (f s) s

/-- Change the state. -/
def change (f : σ → σ) : EStateM ε σ Unit := fun s => .ok () (f s)

/-- Run a statement only when the condition holds. -/
def runIf (c : Prop) [Decidable c] (x : EStateM ε σ Unit) : EStateM ε σ Unit :=
  if c then x else pure ()

/-- Run a statement on a value that is there. -/
def runSome (a : Option α) (f : α → EStateM ε σ Unit) : EStateM ε σ Unit :=
  match a with
  | some a => f a
  | none => pure ()

/-- Return the value or raise the failure of a pure computation. -/
def lift (x : Except ε α) : EStateM ε σ α := fun s =>
  match x with
  | .ok a => .ok a s
  | .error e => .error e s

theorem bind_eq_ok {x : EStateM ε σ α} {f : α → EStateM ε σ β} {s t : σ} {b : β} :
    (x >>= f) s = .ok b t ↔ ∃ a u, x s = .ok a u ∧ f a u = .ok b t := by
  change (EStateM.bind x f) s = _ ↔ _
  unfold EStateM.bind
  cases x s <;> simp

theorem bind_eq_error {x : EStateM ε σ α} {f : α → EStateM ε σ β} {s t : σ} {e : ε} :
    (x >>= f) s = .error e t ↔
      x s = .error e t ∨ ∃ a u, x s = .ok a u ∧ f a u = .error e t := by
  change (EStateM.bind x f) s = _ ↔ _
  unfold EStateM.bind
  cases x s <;> simp

/-- A bind whose first part is known to return runs on from there. -/
theorem bind_of_ok {x : EStateM ε σ α} {f : α → EStateM ε σ β} {s u : σ} {a : α}
    (h : x s = .ok a u) : (x >>= f) s = f a u := by
  change (EStateM.bind x f) s = _
  unfold EStateM.bind
  rw [h]

@[simp] theorem pure_apply (a : α) (s : σ) :
    (pure a : EStateM ε σ α) s = .ok a s := rfl

@[simp] theorem throw_apply (e : ε) (s : σ) :
    (throw e : EStateM ε σ α) s = .error e s := rfl

@[simp] theorem query_apply (f : σ → α) (s : σ) :
    (query f : EStateM ε σ α) s = .ok (f s) s := rfl

@[simp] theorem change_apply (f : σ → σ) (s : σ) :
    (change f : EStateM ε σ Unit) s = .ok () (f s) := rfl

theorem raiseIf_apply (c : Prop) [Decidable c] (e : ε) (s : σ) :
    (raiseIf c e : EStateM ε σ Unit) s = if c then .error e s else .ok () s := by
  unfold raiseIf
  split <;> rfl

theorem raiseIf_eq_ok {c : Prop} [Decidable c] {e : ε} {s t : σ} {u : Unit} :
    (raiseIf c e : EStateM ε σ Unit) s = .ok u t ↔ ¬ c ∧ t = s := by
  rw [raiseIf_apply]
  by_cases h : c <;> simp [h, eq_comm]

theorem runIf_pos {c : Prop} [Decidable c] (h : c) (x : EStateM ε σ Unit) : runIf c x = x :=
  if_pos h

theorem runIf_neg {c : Prop} [Decidable c] (h : ¬ c) (x : EStateM ε σ Unit) :
    runIf c x = pure () := if_neg h

@[simp] theorem runSome_some (a : α) (f : α → EStateM ε σ Unit) : runSome (some a) f = f a := rfl

@[simp] theorem runSome_none (f : α → EStateM ε σ Unit) : runSome none f = pure () := rfl

theorem lift_eq_ok {x : Except ε α} {s t : σ} {a : α} :
    (lift x : EStateM ε σ α) s = .ok a t ↔ x = .ok a ∧ t = s := by
  cases x <;> simp [lift, eq_comm]

/-- Whether it returns or raises, the program ends in a state related by `R` to the one it
was started in. -/
def Keeps (R : σ → σ → Prop) (x : EStateM ε σ α) : Prop :=
  ∀ s, (∀ a t, x s = .ok a t → R s t) ∧ ∀ e t, x s = .error e t → R s t

section Keeps
variable {R : σ → σ → Prop}

theorem Keeps.ok {x : EStateM ε σ α} (h : Keeps R x) {s t : σ} {a : α} (hx : x s = .ok a t) :
    R s t := (h s).1 a t hx

theorem Keeps.error {x : EStateM ε σ α} (h : Keeps R x) {s t : σ} {e : ε}
    (hx : x s = .error e t) : R s t := (h s).2 e t hx

theorem Keeps.bind (trans : ∀ s t u, R s t → R t u → R s u) {x : EStateM ε σ α}
    {f : α → EStateM ε σ β} (hx : Keeps R x) (hf : ∀ a, Keeps R (f a)) : Keeps R (x >>= f) := by
  intro s
  constructor
  · intro b t h
    obtain ⟨a, u, hu, ht⟩ := bind_eq_ok.mp h
    exact trans s u t (hx.ok hu) ((hf a).ok ht)
  · intro e t h
    rcases bind_eq_error.mp h with h | ⟨a, u, hu, ht⟩
    · exact hx.error h
    · exact trans s u t (hx.ok hu) ((hf a).error ht)

theorem Keeps.lift (refl : ∀ s, R s s) (x : Except ε α) :
    Keeps R (lift x : EStateM ε σ α) := by
  intro s
  cases x with
  | ok a => exact ⟨fun _ _ h => by injection h with _ h; exact h ▸ refl s, nofun⟩
  | error e => exact ⟨nofun, fun _ _ h => by injection h with _ h; exact h ▸ refl s⟩

theorem Keeps.pure (refl : ∀ s, R s s) (a : α) : Keeps R (pure a : EStateM ε σ α) :=
  Keeps.lift refl (.ok a)

theorem Keeps.throw (refl : ∀ s, R s s) (e : ε) : Keeps R (throw e : EStateM ε σ α) :=
  Keeps.lift refl (.error e)

theorem Keeps.query (refl : ∀ s, R s s) (f : σ → α) : Keeps R (query f : EStateM ε σ α) :=
  fun s => ⟨fun _ _ h => by injection h with _ h; exact h ▸ refl s, nofun⟩

theorem Keeps.change (f : σ → σ) (h : ∀ s, R s (f s)) :
    Keeps R (change f : EStateM ε σ Unit) :=
  fun s => ⟨fun _ _ hx => by injection hx with _ hx; exact hx ▸ h s, nofun⟩

theorem Keeps.raiseIf (refl : ∀ s, R s s) (c : Prop) [Decidable c] (e : ε) :
    Keeps R (raiseIf c e : EStateM ε σ Unit) := by
  unfold Library.raiseIf
  split
  · exact .throw refl e
  · exact .pure refl ()

/-- What follows a check that passed may rely on it. -/
theorem Keeps.raiseIf_bind (refl : ∀ s, R s s) {c : Prop} [Decidable c] {e : ε}
    {f : Unit → EStateM ε σ α} (h : ¬ c → Keeps R (f ())) :
    Keeps R (Library.raiseIf c e >>= f) := by
  by_cases holds : c
  · have raises : Library.raiseIf c e >>= f = MonadExcept.throw e := by
      unfold Library.raiseIf
      rw [if_pos holds]
      rfl
    rw [raises]
    exact .throw refl e
  · have passes : Library.raiseIf c e >>= f = f () := by
      unfold Library.raiseIf
      rw [if_neg holds]
      rfl
    rw [passes]
    exact h holds

theorem Keeps.runIf (refl : ∀ s, R s s) (c : Prop) [Decidable c] {x : EStateM ε σ Unit}
    (hx : Keeps R x) : Keeps R (runIf c x) := by
  unfold Library.runIf
  split
  · exact hx
  · exact .pure refl ()

end Keeps

/-- Started in `s`, the program returns in a state that satisfies `Q` or raises in one that
satisfies `E`. -/
def Ends (x : EStateM ε σ α) (s : σ) (Q : α → σ → Prop) (E : ε → σ → Prop) : Prop :=
  (∀ a t, x s = .ok a t → Q a t) ∧ ∀ e t, x s = .error e t → E e t

section Ends
variable {s : σ} {Q : α → σ → Prop} {E : ε → σ → Prop}

theorem Ends.bind {x : EStateM ε σ β} {f : β → EStateM ε σ α} {M : β → σ → Prop}
    (hx : Ends x s M E) (hf : ∀ b t, M b t → Ends (f b) t Q E) : Ends (x >>= f) s Q E := by
  constructor
  · intro a t h
    obtain ⟨b, u, hb, ha⟩ := bind_eq_ok.mp h
    exact (hf b u (hx.1 b u hb)).1 a t ha
  · intro e t h
    rcases bind_eq_error.mp h with h | ⟨b, u, hb, he⟩
    · exact hx.2 e t h
    · exact (hf b u (hx.1 b u hb)).2 e t he

theorem Ends.mono {Q' : α → σ → Prop} {E' : ε → σ → Prop} {x : EStateM ε σ α}
    (h : Ends x s Q E) (hQ : ∀ a t, Q a t → Q' a t) (hE : ∀ e t, E e t → E' e t) :
    Ends x s Q' E' :=
  ⟨fun a t run => hQ a t (h.1 a t run), fun e t run => hE e t (h.2 e t run)⟩

theorem Ends.pure {a : α} (h : Q a s) : Ends (pure a : EStateM ε σ α) s Q E :=
  ⟨fun _ _ run => by cases run; exact h, nofun⟩

theorem Ends.throw {e : ε} (h : E e s) : Ends (throw e : EStateM ε σ α) s Q E :=
  ⟨nofun, fun _ _ run => by cases run; exact h⟩

theorem Ends.change_bind {f : σ → σ} {x : Unit → EStateM ε σ α} (h : Ends (x ()) (f s) Q E) :
    Ends (change f >>= x) s Q E := by
  refine .bind (M := fun _ t => t = f s) ⟨fun _ _ run => by cases run; rfl, nofun⟩ ?_
  rintro _ _ rfl
  exact h

theorem Ends.query_bind {f : σ → β} {x : β → EStateM ε σ α} (h : Ends (x (f s)) s Q E) :
    Ends (query f >>= x) s Q E := by
  refine .bind (M := fun b t => b = f s ∧ t = s) ⟨fun _ _ run => by cases run; simp, nofun⟩ ?_
  rintro _ _ ⟨rfl, rfl⟩
  exact h

theorem Ends.raiseIf {c : Prop} [Decidable c] {e : ε} {Q : Unit → σ → Prop}
    (raised : c → E e s) (passed : ¬ c → Q () s) :
    Ends (raiseIf c e : EStateM ε σ Unit) s Q E := by
  unfold Library.raiseIf
  split
  · exact .throw (raised ‹_›)
  · exact .pure (passed ‹_›)

theorem Ends.raiseIf_bind {c : Prop} [Decidable c] {e : ε} {x : Unit → EStateM ε σ α}
    (raised : c → E e s) (passed : ¬ c → Ends (x ()) s Q E) :
    Ends (Library.raiseIf c e >>= x) s Q E := by
  refine .bind (M := fun _ t => ¬ c ∧ t = s) (.raiseIf raised fun h => ⟨h, rfl⟩) ?_
  rintro _ _ ⟨h, rfl⟩
  exact passed h

end Ends

/-- Running one program after another over a list keeps what every single run keeps. -/
theorem forM_invariant {I : List α → σ → Prop} {f : α → EStateM ε σ Unit}
    (step : ∀ a as s, I (a :: as) s → ∃ t, f a s = .ok () t ∧ I as t)
    (as : List α) (s : σ) (h : I as s) : ∃ t, forM as f s = .ok () t ∧ I [] t := by
  induction as generalizing s with
  | nil => exact ⟨s, rfl, h⟩
  | cons a as ih =>
    obtain ⟨u, hu, hI⟩ := step a as s h
    obtain ⟨t, ht, hT⟩ := ih u hI
    exact ⟨t, (bind_of_ok hu).trans ht, hT⟩

end Modall.Library
