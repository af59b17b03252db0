import Mathlib
import Modall.Library.OrderedDict

/-!
# Signing keys of the issuer

The resolver keeps the key set of its latest fetch for one refresh interval. A fetch that fails
leaves no keys behind, so that a set the issuer may have revoked is not used on, and the next
attempt still waits for the interval. Unknown key identifiers are remembered in a bounded table.
-/
namespace Modall

open Library Library.OrderedDict

namespace SigningKeys

variable {Key : Type}

/-- The resolver's bounds, and the client's search for an identifier among its keys. -/
structure Resolver (Key : Type) where
  refreshInterval : ℚ
  negativeTtl : ℚ
  maxNegativeKids : Nat
  refreshInterval_pos : 0 < refreshInterval
  negativeTtl_pos : 0 < negativeTtl
  maxNegativeKids_pos : 0 < maxNegativeKids
  matchKid : List Key → String → Option Key
  matchKid_mem : ∀ keys kid key, matchKid keys kid = some key → key ∈ keys

structure State (Key : Type) where
  signingKeys : Option (List Key)
  nextRefreshAt : ℚ
  negativeKids : List (String × ℚ)

def State.init : State Key := ⟨none, 0, []⟩

/-- The header of a token: it does not parse, its `kid` is not acceptable, or what its `kid` is. -/
inductive Header where
  | malformed
  | unacceptable
  | accepted (kid : Option String)

/-- A call of `resolve`: the clock it reads, and what a fetch would obtain at that moment, which is
nothing if it raises. -/
structure Request (Key : Type) where
  header : Header
  now : ℚ
  fetch : Option (List Key)

/-- What a call did: the outcome of its fetch, if it made one, and the key it returned, if it did
not raise. -/
structure Entry (Key : Type) where
  now : ℚ
  attempt : Option (Option (List Key))
  answer : Option Key

namespace Resolver
variable (c : Resolver Key)

/-- The fetch at the head of `resolve`, with its outcome if it is made. -/
def refresh (s : State Key) (r : Request Key) : State Key × Option (Option (List Key)) :=
  let due := { s with nextRefreshAt := r.now + c.refreshInterval, signingKeys := r.fetch }
  match s.signingKeys with
  | none => if r.now < s.nextRefreshAt then (s, none) else (due, some r.fetch)
  | some _ => if s.nextRefreshAt ≤ r.now then (due, some r.fetch) else (s, none)

/-- An identifier that no key has. -/
def rememberUnknown (s : State Key) (now : ℚ) (kid : String) : State Key :=
  if (s.negativeKids.lookup kid).any (now < ·) then s
  else
    { s with negativeKids := trim c.maxNegativeKids (renew s.negativeKids kid (now + c.negativeTtl)) }

/-- The choice among the keys. -/
def select (s : State Key) (now : ℚ) (keys : List Key) : Option String → State Key × Option Key
  | none =>
    match keys with
    | [key] => (s, some key)
    | _ => (s, none)
  | some kid =>
    match c.matchKid keys kid with
    | some key => ({ s with negativeKids := erase s.negativeKids kid }, some key)
    | none => (c.rememberUnknown s now kid, none)

def resolve (s : State Key) (r : Request Key) : State Key × Entry Key :=
  match r.header with
  | .malformed | .unacceptable => (s, ⟨r.now, none, none⟩)
  | .accepted kid =>
    match c.refresh s r with
    | (s, attempt) =>
      match s.signingKeys with
      | none => (s, ⟨r.now, attempt, none⟩)
      | some keys =>
        match c.select s r.now keys kid with
        | (s, answer) => (s, ⟨r.now, attempt, answer⟩)

/-- The state after some calls, and what they did. -/
def run (requests : List (Request Key)) : State Key × List (Entry Key) :=
  requests.foldl (fun (s, log) r =>
    match c.resolve s r with
    | (s, entry) => (s, log ++ [entry])) (.init, [])

end Resolver

/-- The fetches of a log, with their times and outcomes. -/
def attempts (log : List (Entry Key)) : List (ℚ × Option (List Key)) :=
  log.filterMap fun e => e.attempt.map (e.now, ·)

def latest (log : List (Entry Key)) : Option (ℚ × Option (List Key)) := (attempts log).getLast?

/-! ## One call -/

section calls
variable {c : Resolver Key} {s : State Key} {r : Request Key}

/-- What a call does to the key set: nothing, with a set that is still fresh if it has one, or a
fetch that was due. -/
lemma Resolver.refresh_cases (c : Resolver Key) (s : State Key) (r : Request Key) :
    (c.refresh s r = (s, none) ∧ (s.signingKeys ≠ none → r.now < s.nextRefreshAt)) ∨
    (c.refresh s r = ({ s with nextRefreshAt := r.now + c.refreshInterval, signingKeys := r.fetch },
      some r.fetch) ∧ s.nextRefreshAt ≤ r.now) := by
  unfold refresh
  cases hkeys : s.signingKeys with
  | none =>
    dsimp only
    split
    · exact .inl ⟨rfl, by simp⟩
    · exact .inr ⟨rfl, not_lt.mp ‹_›⟩
  | some keys =>
    dsimp only
    split
    · exact .inr ⟨rfl, ‹_›⟩
    · exact .inl ⟨rfl, fun _ => not_le.mp ‹_›⟩

lemma select_spec {keys : List Key} {kid : Option String} {now : ℚ} {t : State Key}
    {answer : Option Key} (h : c.select s now keys kid = (t, answer)) :
    t.signingKeys = s.signingKeys ∧ t.nextRefreshAt = s.nextRefreshAt ∧
      (s.negativeKids.length ≤ c.maxNegativeKids → t.negativeKids.length ≤ c.maxNegativeKids) ∧
      ∀ key, answer = some key → key ∈ keys := by
  unfold Resolver.select at h
  cases kid with
  | none =>
    dsimp only at h
    split at h
    · cases h
      exact ⟨rfl, rfl, id, by simp⟩
    · cases h
      exact ⟨rfl, rfl, id, by simp⟩
  | some kid =>
    dsimp only at h
    split at h
    case h_1 key hkey =>
      cases h
      refine ⟨rfl, rfl, fun hle => (List.length_filter_le _ _).trans hle, ?_⟩
      rintro _ ⟨⟩
      exact c.matchKid_mem _ _ _ hkey
    case h_2 =>
      cases h
      unfold Resolver.rememberUnknown
      split
      · exact ⟨rfl, rfl, id, by simp⟩
      · exact ⟨rfl, rfl, fun _ => length_trim_le _ _, by simp⟩

/-- A call that makes no fetch leaves the key set as it is, and answers only from a fresh one. -/
structure Serves (c : Resolver Key) (s : State Key) (r : Request Key) (t : State Key)
    (e : Entry Key) : Prop where
  attempt : e.attempt = none
  signingKeys : t.signingKeys = s.signingKeys
  nextRefreshAt : t.nextRefreshAt = s.nextRefreshAt
  answer : ∀ key, e.answer = some key →
    ∃ keys, s.signingKeys = some keys ∧ key ∈ keys ∧ r.now < s.nextRefreshAt

/-- A call that fetches does so when the interval is over, and answers from what it obtained. -/
structure Fetches (c : Resolver Key) (s : State Key) (r : Request Key) (t : State Key)
    (e : Entry Key) : Prop where
  due : s.nextRefreshAt ≤ r.now
  attempt : e.attempt = some r.fetch
  signingKeys : t.signingKeys = r.fetch
  nextRefreshAt : t.nextRefreshAt = r.now + c.refreshInterval
  answer : ∀ key, e.answer = some key → ∃ keys, r.fetch = some keys ∧ key ∈ keys

lemma resolve_spec {t : State Key} {e : Entry Key} (h : c.resolve s r = (t, e)) :
    e.now = r.now ∧
      (s.negativeKids.length ≤ c.maxNegativeKids → t.negativeKids.length ≤ c.maxNegativeKids) ∧
      (Serves c s r t e ∨ Fetches c s r t e) := by
  unfold Resolver.resolve at h
  split at h
  · cases h
    exact ⟨rfl, id, .inl ⟨rfl, rfl, rfl, by simp⟩⟩
  · cases h
    exact ⟨rfl, id, .inl ⟨rfl, rfl, rfl, by simp⟩⟩
  case h_3 kid _ =>
    obtain ⟨hrefresh, hfresh⟩ | ⟨hrefresh, hdue⟩ := c.refresh_cases s r
    · rw [hrefresh] at h
      dsimp only at h
      split at h
      · cases h
        exact ⟨rfl, id, .inl ⟨rfl, rfl, rfl, by simp⟩⟩
      case h_2 keys hkeys =>
        obtain ⟨hsame, hnext, hnegative, hanswer⟩ := select_spec (c := c) (s := s) rfl
        cases h
        refine ⟨rfl, hnegative, .inl ⟨rfl, hsame, hnext, fun key hkey => ?_⟩⟩
        exact ⟨keys, hkeys, hanswer key hkey, hfresh (by simp [hkeys])⟩
    · rw [hrefresh] at h
      dsimp only at h
      split at h
      · cases h
        exact ⟨rfl, id, .inr ⟨hdue, rfl, rfl, rfl, by simp⟩⟩
      case h_2 keys hkeys =>
        obtain ⟨hsame, hnext, hnegative, hanswer⟩ := select_spec (c := c)
          (s := { s with nextRefreshAt := r.now + c.refreshInterval, signingKeys := r.fetch }) rfl
        cases h
        exact ⟨rfl, hnegative, .inr ⟨hdue, rfl, hsame, hnext, fun key hkey =>
          ⟨keys, hkeys, hanswer key hkey⟩⟩⟩

end calls

/-! ## Runs -/

/-- Every answer of a log comes from its latest fetch, which was made less than one interval
before. -/
def Fresh (c : Resolver Key) (log : List (Entry Key)) : Prop :=
  ∀ before e after, log = before ++ e :: after → ∀ key, e.answer = some key →
    ∃ t keys, latest (before ++ [e]) = some (t, some keys) ∧ key ∈ keys ∧
      e.now < t + c.refreshInterval

/-- What the state has to do with the log. -/
structure Consistent (c : Resolver Key) (s : State Key) (log : List (Entry Key)) : Prop where
  spaced : (attempts log).Pairwise fun a b => a.1 + c.refreshInterval ≤ b.1
  signingKeys : s.signingKeys = (latest log).bind Prod.snd
  nextRefreshAt : ∀ a, latest log = some a → s.nextRefreshAt = a.1 + c.refreshInterval
  fresh : Fresh c log
  negativeKids : s.negativeKids.length ≤ c.maxNegativeKids

section runs
variable {c : Resolver Key} {s t : State Key} {r : Request Key} {log : List (Entry Key)}
  {e : Entry Key}

lemma attempts_concat : attempts (log ++ [e]) =
    attempts log ++ (e.attempt.map (e.now, ·)).toList := by
  cases h : e.attempt <;> simp [attempts, h]

lemma Fresh.concat (h : Fresh c log) (hlast : ∀ key, e.answer = some key →
    ∃ t keys, latest (log ++ [e]) = some (t, some keys) ∧ key ∈ keys ∧
      e.now < t + c.refreshInterval) : Fresh c (log ++ [e]) := by
  intro before e' after heq key hkey
  rcases List.eq_nil_or_concat' after with rfl | ⟨after, last, rfl⟩
  · obtain ⟨rfl, hlast'⟩ := List.append_inj' heq rfl
    obtain rfl : e = e' := by simpa using hlast'
    exact hlast key hkey
  · have hlog : log = before ++ e' :: after := by
      rw [← List.cons_append, ← List.append_assoc] at heq
      exact (List.append_inj' heq rfl).1
    exact h before e' after hlog key hkey

lemma Consistent.serves (h : Consistent c s log) (hnow : e.now = r.now)
    (hnegative : s.negativeKids.length ≤ c.maxNegativeKids →
      t.negativeKids.length ≤ c.maxNegativeKids) (hserves : Serves c s r t e) :
    Consistent c t (log ++ [e]) := by
  have hattempts : attempts (log ++ [e]) = attempts log := by
    simp [attempts_concat, hserves.attempt]
  have hlatest : latest (log ++ [e]) = latest log := by rw [latest, hattempts, latest]
  refine ⟨hattempts ▸ h.spaced, ?_, ?_, h.fresh.concat fun key hkey => ?_,
    hnegative h.negativeKids⟩
  · rw [hserves.signingKeys, hlatest]
    exact h.signingKeys
  · intro a ha
    rw [hserves.nextRefreshAt]
    exact h.nextRefreshAt a (hlatest ▸ ha)
  · obtain ⟨keys, hkeys, hmem, hfresh⟩ := hserves.answer key hkey
    rw [h.signingKeys, Option.bind_eq_some_iff] at hkeys
    obtain ⟨⟨time, outcome⟩, hlast, rfl⟩ := hkeys
    exact ⟨time, keys, hlatest.trans hlast, hmem, by
      rw [hnow, ← h.nextRefreshAt _ hlast]
      exact hfresh⟩

lemma Consistent.fetches (h : Consistent c s log) (hnow : e.now = r.now)
    (hnegative : s.negativeKids.length ≤ c.maxNegativeKids →
      t.negativeKids.length ≤ c.maxNegativeKids) (hfetches : Fetches c s r t e) :
    Consistent c t (log ++ [e]) := by
  have hattempts : attempts (log ++ [e]) = attempts log ++ [(r.now, r.fetch)] := by
    simp [attempts_concat, hfetches.attempt, hnow]
  have hlatest : latest (log ++ [e]) = some (r.now, r.fetch) := by
    rw [latest, hattempts, List.getLast?_concat]
  have hinterval := c.refreshInterval_pos
  refine ⟨?_, ?_, ?_, h.fresh.concat fun key hkey => ?_, hnegative h.negativeKids⟩
  · rw [hattempts, List.pairwise_append]
    refine ⟨h.spaced, by simp, fun a ha b hb => ?_⟩
    rw [List.mem_singleton.mp hb]
    rcases List.eq_nil_or_concat' (attempts log) with hnil | ⟨earlier, last, hlast⟩
    · simp [hnil] at ha
    · have hnext := h.nextRefreshAt last (by rw [latest, hlast, List.getLast?_concat])
      have hdue := hfetches.due
      have hspaced := h.spaced
      rw [hlast, List.pairwise_append] at hspaced
      rw [hlast, List.mem_append, List.mem_singleton] at ha
      rcases ha with ha | rfl
      · have := hspaced.2.2 a ha last (by simp)
        linarith
      · linarith
  · rw [hfetches.signingKeys, hlatest]
    rfl
  · rintro a ha
    obtain rfl : (r.now, r.fetch) = a := by simpa [hlatest] using ha
    exact hfetches.nextRefreshAt
  · obtain ⟨keys, hkeys, hmem⟩ := hfetches.answer key hkey
    exact ⟨r.now, keys, by rw [hlatest, hkeys], hmem, by linarith⟩

theorem run_consistent (c : Resolver Key) (requests : List (Request Key)) :
    Consistent c (c.run requests).1 (c.run requests).2 := by
  induction requests using List.reverseRecOn with
  | nil =>
    exact ⟨.nil, rfl, by simp [latest, attempts, Resolver.run], by simp [Fresh, Resolver.run],
      by simp [Resolver.run, State.init]⟩
  | append_singleton requests r ih =>
    have hstep : c.run (requests ++ [r]) =
        ((c.resolve (c.run requests).1 r).1,
          (c.run requests).2 ++ [(c.resolve (c.run requests).1 r).2]) := by
      simp [Resolver.run]
    obtain ⟨hnow, hnegative, hserves | hfetches⟩ := resolve_spec (c := c) (r := r)
      (s := (c.run requests).1) rfl
    · rw [hstep]
      exact ih.serves hnow hnegative hserves
    · rw [hstep]
      exact ih.fetches hnow hnegative hfetches

end runs

namespace Sample

/-- A key is its identifier, and the client takes the first that has it. -/
def resolver : Resolver String where
  refreshInterval := 30
  negativeTtl := 60
  maxNegativeKids := 256
  refreshInterval_pos := by norm_num
  negativeTtl_pos := by norm_num
  maxNegativeKids_pos := by norm_num
  matchKid keys kid := keys.find? (· == kid)
  matchKid_mem _ _ _ h := List.mem_of_find?_eq_some h

end Sample

end SigningKeys

end Modall
