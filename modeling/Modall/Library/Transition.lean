import Mathlib

/-!
# Labelled transition systems

A system is a step relation `σ → λ → σ → Prop`. A `Path` is a finite run with its labels; the
two induction rules carry an invariant, and a relation between any two states of a run, from
single steps to whole runs.
-/
namespace Modall.Library

variable {σ ℓ : Type*}

/-- A finite run from one state to another, with the labels of its steps in order. -/
inductive Path (step : σ → ℓ → σ → Prop) : σ → List ℓ → σ → Prop where
  | nil (s : σ) : Path step s [] s
  | snoc {s t u : σ} {ls : List ℓ} {l : ℓ} :
      Path step s ls t → step t l u → Path step s (ls ++ [l]) u

namespace Path

variable {step : σ → ℓ → σ → Prop}

theorem single {s t : σ} {l : ℓ} (h : step s l t) : Path step s [l] t := .snoc (.nil s) h

theorem append {s t u : σ} {ls ms : List ℓ} (h : Path step s ls t) (g : Path step t ms u) :
    Path step s (ls ++ ms) u := by
  induction g with
  | nil => simpa using h
  | snoc _ last ih => rw [← List.append_assoc]; exact .snoc ih last

theorem mono {step' : σ → ℓ → σ → Prop} (weaker : ∀ s l t, step s l t → step' s l t) {s t : σ}
    {ls : List ℓ} (h : Path step s ls t) : Path step' s ls t := by
  induction h with
  | nil => exact .nil _
  | snoc _ last ih => exact .snoc ih (weaker _ _ _ last)

/-- What every step keeps, every run keeps. -/
theorem invariant {I : σ → Prop} (kept : ∀ s l t, I s → step s l t → I t) {s t : σ}
    {ls : List ℓ} (h : Path step s ls t) (hs : I s) : I t := by
  induction h with
  | nil => exact hs
  | snoc _ last ih => exact kept _ _ _ ih last

/-- What holds of the label of every step holds of every label of a run. -/
theorem labels {I : σ → Prop} {Q : ℓ → Prop} (kept : ∀ s l t, I s → step s l t → I t)
    (labelled : ∀ s l t, I s → step s l t → Q l) {s t : σ} {ls : List ℓ}
    (h : Path step s ls t) (hs : I s) : ∀ l ∈ ls, Q l := by
  induction h with
  | nil => exact nofun
  | snoc first last ih =>
    intro l mem
    rcases List.mem_append.mp mem with mem | mem
    · exact ih l mem
    · rw [List.mem_singleton.mp mem]
      exact labelled _ _ _ (first.invariant kept hs) last

/-- A reflexive and transitive relation that holds across every step from a state with the
invariant holds across every run. -/
theorem relation {I : σ → Prop} {R : σ → σ → Prop} (refl : ∀ s, R s s)
    (trans : ∀ s t u, R s t → R t u → R s u)
    (kept : ∀ s l t, I s → step s l t → I t)
    (across : ∀ s l t, I s → step s l t → R s t) {s t : σ} {ls : List ℓ}
    (h : Path step s ls t) (hs : I s) : R s t := by
  induction h with
  | nil => exact refl _
  | snoc first last ih =>
    exact trans _ _ _ ih (across _ _ _ (first.invariant kept hs) last)

end Path

/-- The states that some run from an initial state reaches. -/
def Reachable (init : σ → Prop) (step : σ → ℓ → σ → Prop) (s : σ) : Prop :=
  ∃ s₀ ls, init s₀ ∧ Path step s₀ ls s

theorem Reachable.invariant {init : σ → Prop} {step : σ → ℓ → σ → Prop} {I : σ → Prop}
    (base : ∀ s, init s → I s) (kept : ∀ s l t, I s → step s l t → I t) {s : σ}
    (h : Reachable init step s) : I s := by
  obtain ⟨s₀, ls, hs, path⟩ := h
  exact path.invariant kept (base s₀ hs)

theorem Reachable.extend {init : σ → Prop} {step : σ → ℓ → σ → Prop} {s t : σ} {ls : List ℓ}
    (h : Reachable init step s) (g : Path step s ls t) : Reachable init step t := by
  obtain ⟨s₀, ms, hs, path⟩ := h
  exact ⟨s₀, ms ++ ls, hs, path.append g⟩

end Modall.Library
