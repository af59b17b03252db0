import Mathlib
import Modall.Execution.Admission

/-!
# Key history

`_find_unconfigured_key_version` walks the distinct versions of a column in the database's
string order, one indexed probe each, and gives up after one more probe than a keyring can
have keys. When it finds nothing, every retained version is configured: a probe that stops
early would let a keyring without a retained version pass. And what it finds is not configured,
because every probe that goes on uses up one of the configured versions that are still ahead.
-/
namespace Modall
open Library

namespace Collation
variable (collation : Collation)

/-- The order `ORDER BY` sorts in. -/
instance : Std.Total fun a b : String => collation.lt b a = false := by
  refine ⟨fun a b => ?_⟩
  by_contra h
  simp only [not_or, Bool.not_eq_false] at h
  have := collation.trans a b a h.2 h.1
  rw [collation.irrefl] at this
  cases this

instance : IsTrans String fun a b : String => collation.lt b a = false := by
  refine ⟨fun a b c hab hbc => ?_⟩
  by_contra h
  rw [Bool.not_eq_false] at h
  by_cases heq : a = b
  · subst heq
    rw [h] at hbc
    cases hbc
  · rcases collation.total a b heq with hlt | hlt
    · rw [collation.trans c a b h hlt] at hbc
      cases hbc
    · rw [hlt] at hab
      cases hab

variable {collation} {values configured : List String}

theorem least_eq_none (h : collation.least values = none) : values = [] := by
  unfold least at h
  rw [List.head?_eq_none_iff] at h
  refine List.eq_nil_iff_forall_not_mem.mpr fun v hv => ?_
  have : v ∈ orderedBy (fun a b => collation.lt b a = false) values := mem_orderedBy.mpr hv
  rw [h] at this
  cases this

/-- The least value is a value, and none lies before it. -/
theorem least_eq_some {v : String} (h : collation.least values = some v) :
    v ∈ values ∧ ∀ w ∈ values, collation.lt w v = false := by
  unfold least at h
  cases hs : orderedBy (fun a b => collation.lt b a = false) values with
  | nil => simp [hs] at h
  | cons x xs =>
    rw [hs, List.head?_cons, Option.some.injEq] at h
    subst h
    have sorted : (orderedBy (fun a b => collation.lt b a = false) values).Pairwise
        fun a b => collation.lt b a = false := List.pairwise_insertionSort _ _
    rw [hs, List.pairwise_cons] at sorted
    have mem : ∀ w, w ∈ values ↔ w = x ∨ w ∈ xs := by
      intro w
      rw [← List.mem_cons, ← hs]
      exact mem_orderedBy.symm
    refine ⟨(mem x).mpr (.inl rfl), fun w hw => ?_⟩
    rcases (mem w).mp hw with rfl | hw
    · exact collation.irrefl w
    · exact sorted.1 w hw

/-- A walk that reports nothing has passed every value after where it started. -/
theorem probe_eq_none {probes : Nat} {previous : Option String}
    (started : probes ≠ 0 ∨ previous.isSome = true)
    (h : collation.probe values configured probes previous = none) :
    ∀ v ∈ values, (previous.all fun p => collation.lt p v) = true → v ∈ configured := by
  induction probes generalizing previous with
  | zero =>
    unfold probe at h
    simp [h] at started
  | succ probes ih =>
    intro v hv after
    unfold probe at h
    have hv' : v ∈ values.filter fun v => previous.all fun p => collation.lt p v :=
      List.mem_filter.mpr ⟨hv, after⟩
    cases hl : collation.least (values.filter fun v => previous.all fun p => collation.lt p v) with
    | none =>
      rw [least_eq_none hl] at hv'
      cases hv'
    | some observed =>
      rw [hl] at h
      dsimp only at h
      split_ifs at h with hc
      by_cases heq : observed = v
      · exact heq ▸ hc
      · rcases collation.total _ _ heq with hlt | hlt
        · exact ih (.inr rfl) h v hv hlt
        · rw [(least_eq_some hl).2 v hv'] at hlt
          cases hlt

/-- The configured versions that lie behind `previous`. -/
def ahead (collation : Collation) (configured : List String) (previous : Option String) :
    Finset String :=
  configured.toFinset.filter fun v => (previous.all fun p => collation.lt p v) = true

theorem ahead_card_lt {previous : Option String} {observed : String}
    (after : (previous.all fun p => collation.lt p observed) = true)
    (mem : observed ∈ configured) :
    (collation.ahead configured (some observed)).card <
      (collation.ahead configured previous).card := by
  refine Finset.card_lt_card (Finset.ssubset_iff_subset_ne.mpr ⟨fun v hv => ?_, fun heq => ?_⟩)
  · simp only [ahead, Finset.mem_filter, List.mem_toFinset, Option.all_some] at hv ⊢
    refine ⟨hv.1, ?_⟩
    cases previous with
    | none => rfl
    | some p => exact collation.trans p observed v after hv.2
  · have hin : observed ∈ collation.ahead configured previous := by
      simpa [ahead, mem] using after
    rw [← heq] at hin
    simp [ahead, collation.irrefl] at hin

/-- At the start at most all of them are ahead. -/
theorem ahead_card_none : (collation.ahead configured none).card ≤ configured.dedup.length := by
  rw [← List.card_toFinset]
  exact Finset.card_filter_le _ _

/-- With more probes than configured versions lie ahead, what the walk reports is retained and not
configured. -/
theorem probe_eq_some {probes : Nat} {previous : Option String} {v : String}
    (enough : (collation.ahead configured previous).card < probes)
    (h : collation.probe values configured probes previous = some v) :
    v ∈ values ∧ v ∉ configured := by
  induction probes generalizing previous with
  | zero => exact absurd enough (Nat.not_lt_zero _)
  | succ probes ih =>
    unfold probe at h
    cases hl : collation.least (values.filter fun v => previous.all fun p => collation.lt p v) with
    | none => simp [hl] at h
    | some observed =>
      obtain ⟨hmem, after⟩ := List.mem_filter.mp (least_eq_some hl).1
      rw [hl] at h
      dsimp only at h
      split_ifs at h with hc
      · have := ahead_card_lt after hc
        exact ih (by omega) h
      · obtain rfl : observed = v := by simpa using h
        exact ⟨hmem, hc⟩

/-- A walk from the start with more probes than there are configured versions decides whether every
value is configured. -/
theorem probe_eq_none_iff {probes : Nat} (enough : configured.dedup.length < probes) :
    collation.probe values configured probes none = none ↔ ∀ v ∈ values, v ∈ configured := by
  have hahead : (collation.ahead configured none).card < probes := ahead_card_none.trans_lt enough
  constructor
  · intro h v hv
    exact probe_eq_none (.inl (by omega)) h v hv rfl
  · intro h
    cases hprobe : collation.probe values configured probes none with
    | none => rfl
    | some v =>
      obtain ⟨hmem, hmissing⟩ := probe_eq_some hahead hprobe
      exact absurd (h v hmem) hmissing

end Collation

theorem configured_of_findUnconfiguredKeyVersion {limits : ExecutionLimits}
    {collation : Collation} {values configured : List String}
    (h : limits.findUnconfiguredKeyVersion collation values configured = none) :
    ∀ v ∈ values, v ∈ configured := by
  intro v hv
  refine Collation.probe_eq_none (.inl ?_) h v hv rfl
  have := limits.historicalHmacKeys.1
  omega

/-- Every key version the store retains is one the service is configured with. -/
structure ExecutionService.Configured (service : ExecutionService) (store : Store) : Prop where
  idempotency : ∀ record ∈ store.records,
    record.keyVersion ∈ service.idempotencyKeys.map HmacKeyVersion.version
  confirmation : ∀ record ∈ store.records,
    record.confirmationKeyVersion ∈ service.confirmationKeys.map HmacKeyVersion.version
  nonces : ∀ nonce ∈ store.nonces,
    nonce.keyVersion ∈ service.confirmationKeys.map HmacKeyVersion.version

/-- The two checks `create_run` makes before every lookup. -/
theorem configured_of_keyHistory {service : ExecutionService} {P : Platform} {s t u : Session}
    {x y : Unit} (hc : service.requireConfirmationKeyHistory P s = .ok x t)
    (hi : service.requireIdempotencyKeyHistory P t = .ok y u) :
    u = s ∧ service.Configured s.rows := by
  unfold ExecutionService.requireConfirmationKeyHistory at hc
  rw [bind_of_ok (query_apply _ _), bind_eq_ok] at hc
  obtain ⟨⟨⟩, v, hv, hc⟩ := hc
  obtain ⟨confirmation, rfl⟩ := raiseIf_eq_ok.mp hv
  rw [bind_of_ok (query_apply _ _)] at hc
  obtain ⟨nonces, rfl⟩ := raiseIf_eq_ok.mp hc
  unfold ExecutionService.requireIdempotencyKeyHistory at hi
  rw [bind_of_ok (query_apply _ _)] at hi
  obtain ⟨idempotency, rfl⟩ := raiseIf_eq_ok.mp hi
  simp only [Bool.not_eq_true, Option.isSome_eq_false_iff, Option.isNone_iff_eq_none]
    at confirmation nonces idempotency
  refine ⟨rfl, ?_, ?_, ?_⟩
  · intro record mem
    exact configured_of_findUnconfiguredKeyVersion idempotency _ (List.mem_map_of_mem mem)
  · intro record mem
    exact configured_of_findUnconfiguredKeyVersion confirmation _ (List.mem_map_of_mem mem)
  · intro nonce mem
    exact configured_of_findUnconfiguredKeyVersion nonces _ (List.mem_map_of_mem mem)

end Modall
