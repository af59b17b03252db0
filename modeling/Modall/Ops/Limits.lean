import Mathlib
import Modall.Library.OrderedDict

/-!
# The rate limiter

One window per peer, in an ordered table that is bounded. A call takes its peer's window out of the
table and puts it back as the newest, so the table is in the order of the last calls, and the
windows that get lost are those of the peers that have been silent for longest.
-/
namespace Modall

open Library Library.OrderedDict

structure FixedWindowRateLimiter where
  limit : Nat
  maxPeers : Nat
  limit_pos : 1 ≤ limit
  maxPeers_pos : 1 ≤ maxPeers

namespace FixedWindowRateLimiter

/-- A call of `allow`, with the clock it reads. -/
structure Call where
  peer : String
  now : ℚ

def Call.minute (c : Call) : Int := ⌊c.now / 60⌋

/-- The windows: a peer's minute and the calls allowed in it. -/
abbrev Windows := List (String × Int × Nat)

/-- The calls a window counts in this minute. -/
def counted (windows : Windows) (c : Call) : Nat :=
  let (previousMinute, count) := (windows.lookup c.peer).getD (c.minute, 0)
  if previousMinute ≠ c.minute then 0 else count

def allow (l : FixedWindowRateLimiter) (windows : Windows) (c : Call) : Bool × Windows :=
  let count := counted windows c
  let allowed := decide (count < l.limit)
  (allowed, trim l.maxPeers
    (renew windows c.peer (c.minute, if allowed then count + 1 else count)))

/-- The table after some calls. -/
def after (l : FixedWindowRateLimiter) (calls : List Call) : Windows :=
  calls.foldl (fun windows c => (l.allow windows c).2) []

/-- The answer to a call after some others. -/
def allows (l : FixedWindowRateLimiter) (before : List Call) (c : Call) : Bool :=
  (l.allow (l.after before) c).1

/-- How many calls of a peer were allowed in a minute. -/
def allowedIn (l : FixedWindowRateLimiter) (peer : String) (minute : Int) (before : List Call) :
    List Call → Nat
  | [] => 0
  | c :: calls =>
    (if c.peer = peer ∧ c.minute = minute ∧ l.allows before c = true then 1 else 0) +
      l.allowedIn peer minute (before ++ [c]) calls

/-- Between two calls of the peer, fewer other peers call than the table holds. -/
def Frequent (l : FixedWindowRateLimiter) (peer : String) (calls : List Call) : Prop :=
  ∀ before first between second rest,
    calls = before ++ first :: (between ++ second :: rest) → first.peer = peer →
    second.peer = peer → (∀ c ∈ between, c.peer ≠ peer) →
    (between.map Call.peer).toFinset.card < l.maxPeers

section runs
variable {l : FixedWindowRateLimiter} {peer : String} {before calls : List Call} {c : Call}

@[simp] lemma after_nil : l.after [] = [] := rfl

lemma after_concat : l.after (before ++ [c]) = (l.allow (l.after before) c).2 := by
  simp [after]

lemma length_after_le (l : FixedWindowRateLimiter) (calls : List Call) :
    (l.after calls).length ≤ l.maxPeers := by
  induction calls using List.reverseRecOn with
  | nil => simp
  | append_singleton calls c _ =>
    rw [after_concat]
    exact length_trim_le _ _

lemma allowedIn_concat {minute : Int} {earlier : List Call} :
    l.allowedIn peer minute earlier (calls ++ [c]) =
      l.allowedIn peer minute earlier calls +
        if c.peer = peer ∧ c.minute = minute ∧ l.allows (earlier ++ calls) c = true then 1 else 0 := by
  induction calls generalizing earlier with
  | nil => simp [allowedIn]
  | cons d calls ih =>
    simp only [List.cons_append, allowedIn, ih]
    rw [← List.append_cons]
    omega

/-- A minute that lies behind every call has no allowed ones. -/
lemma allowedIn_eq_zero {minute : Int} {earlier : List Call}
    (h : ∀ c ∈ calls, c.peer = peer → c.minute ≠ minute) :
    l.allowedIn peer minute earlier calls = 0 := by
  induction calls generalizing earlier with
  | nil => rfl
  | cons c calls ih =>
    have hc : ¬ (c.peer = peer ∧ c.minute = minute ∧ l.allows earlier c = true) :=
      fun hall => h c (by simp) hall.1 hall.2.1
    simp [allowedIn, hc, ih fun d hd => h d (by simp [hd])]

/-- What the table knows about a peer: nothing before its first call, and behind its last one its
window, as long as the peers that called since fit into the table behind it. -/
structure Kept (l : FixedWindowRateLimiter) (peer : String) (calls : List Call) (last : Call)
    (since : List Call) : Prop where
  split : ∃ earlier, calls = earlier ++ last :: since
  peer_eq : last.peer = peer
  others : ∀ c ∈ since, c.peer ≠ peer
  window : (since.map Call.peer).toFinset.card < l.maxPeers →
    ∃ old new, l.after calls =
        old ++ (peer, last.minute, l.allowedIn peer last.minute [] calls) :: new ∧
      (∀ e ∈ old, e.1 ≠ peer) ∧ (∀ e ∈ new, e.1 ≠ peer) ∧ (new.map Prod.fst).Nodup ∧
      ∀ k, k ∈ new.map Prod.fst ↔ k ∈ since.map Call.peer

def Known (l : FixedWindowRateLimiter) (peer : String) (calls : List Call) : Prop :=
  (∀ c ∈ calls, c.peer ≠ peer) ∧ (∀ e ∈ l.after calls, e.1 ≠ peer) ∨
    ∃ last since, l.Kept peer calls last since

lemma Frequent.of_concat (h : l.Frequent peer (calls ++ [c])) : l.Frequent peer calls := by
  intro before first between second rest heq
  refine h before first between second (rest ++ [c]) ?_
  simp [heq]

lemma minute_mono {a b : Call} (h : a.now ≤ b.now) : a.minute ≤ b.minute := by
  refine Int.floor_le_floor ?_
  exact div_le_div_of_nonneg_right h (by norm_num)

/-- A call makes its peer the newest entry. -/
lemma after_concat_eq (l : FixedWindowRateLimiter) (calls : List Call) (c : Call) :
    l.after (calls ++ [c]) = trim l.maxPeers (renew (l.after calls) c.peer
      (c.minute, if l.allows calls c then counted (l.after calls) c + 1
        else counted (l.after calls) c)) := by
  rw [after_concat]
  rfl

/-- A call by another peer. -/
lemma Known.other (h : l.Known peer calls) (hc : c.peer ≠ peer) : l.Known peer (calls ++ [c]) := by
  have hafter := l.after_concat_eq calls c
  obtain ⟨hcalls, htable⟩ | ⟨last, since, kept⟩ := h
  · refine .inl ⟨?_, ?_⟩
    · intro d hd
      rcases List.mem_append.mp hd with hd | hd
      · exact hcalls d hd
      · rw [List.mem_singleton.mp hd]
        exact hc
    · intro e he
      rw [hafter] at he
      rcases mem_renew.mp (trim_subset _ _ he) with ⟨he, -⟩ | rfl
      · exact htable e he
      · exact hc
  · refine .inr ⟨last, since ++ [c], ?_, kept.peer_eq, ?_, ?_⟩
    · obtain ⟨earlier, heq⟩ := kept.split
      exact ⟨earlier, by simp [heq]⟩
    · intro d hd
      rcases List.mem_append.mp hd with hd | hd
      · exact kept.others d hd
      · rw [List.mem_singleton.mp hd]
        exact hc
    · intro hroom
      have hmore : (since.map Call.peer).toFinset ⊆ ((since ++ [c]).map Call.peer).toFinset := by
        intro k hk
        simp only [List.map_append, List.toFinset_append, Finset.mem_union]
        exact .inl hk
      obtain ⟨old, new, htable, hold, hnew, hnodup, hkeys⟩ :=
        kept.window ((Finset.card_le_card hmore).trans_lt hroom)
      have hcount : l.allowedIn peer last.minute [] (calls ++ [c]) =
          l.allowedIn peer last.minute [] calls := by
        simp [allowedIn_concat, hc]
      generalize (c.minute, if l.allows calls c then counted (l.after calls) c + 1
        else counted (l.after calls) c) = value at hafter
      have hkeys' : ∀ k, k ∈ (renew new c.peer value).map Prod.fst ↔
          k ∈ (since ++ [c]).map Call.peer := by
        intro k
        rw [mem_keys_renew, hkeys k]
        simp [or_comm]
      have hnodup' : ((renew new c.peer value).map Prod.fst).Nodup := nodup_keys_renew hnodup
      have hlength : (renew new c.peer value).length < l.maxPeers := by
        have hcard : (renew new c.peer value).length =
            ((since ++ [c]).map Call.peer).toFinset.card := by
          rw [← List.length_map Prod.fst, ← List.toFinset_card_of_nodup hnodup']
          congr 1
          ext k
          simp only [List.mem_toFinset, hkeys']
        omega
      rw [htable, renew_split (by exact hc.symm), trim_append hlength] at hafter
      rw [hafter, hcount]
      refine ⟨_, _, rfl, ?_, ?_, hnodup', hkeys'⟩
      · intro e he
        exact hold e (mem_erase.mp (List.mem_of_mem_drop he)).1
      · intro e he
        rcases mem_renew.mp he with ⟨he, -⟩ | rfl
        · exact hnew e he
        · exact hc

/-- A call by the peer itself: the table has counted the calls that were allowed in this minute, and
keeps the peer's window as its newest. -/
lemma Known.same (h : l.Known peer calls) (hc : c.peer = peer)
    (hfrequent : l.Frequent peer (calls ++ [c]))
    (hclock : (calls ++ [c]).Pairwise fun a b => a.now ≤ b.now) :
    counted (l.after calls) c = l.allowedIn peer c.minute [] calls ∧
      l.Known peer (calls ++ [c]) := by
  have hcounted : counted (l.after calls) c = l.allowedIn peer c.minute [] calls := by
    obtain ⟨hcalls, htable⟩ | ⟨last, since, kept⟩ := h
    · rw [allowedIn_eq_zero fun d hd heq => absurd heq (hcalls d hd), counted,
        lookup_eq_none_of_not_mem (hc ▸ htable)]
      simp
    · obtain ⟨earlier, heq⟩ := kept.split
      have hroom := hfrequent earlier last since c [] (by simp [heq]) kept.peer_eq hc kept.others
      obtain ⟨old, new, htable, hold, -⟩ := kept.window hroom
      rw [counted, htable, hc, lookup_eq_some_of_split hold]
      simp only [Option.getD_some]
      split
      case isFalse hsame => rw [not_not.mp hsame]
      case isTrue hlater =>
        symm
        refine allowedIn_eq_zero fun d hd hpeer => ?_
        rw [heq, List.append_assoc, List.pairwise_append] at hclock
        obtain ⟨-, htail, hbefore⟩ := hclock
        rw [List.cons_append, List.pairwise_cons] at htail
        have hle : last.minute ≤ c.minute := minute_mono (htail.1 c (by simp))
        have hearlier : d.minute ≤ last.minute := by
          rw [heq, List.mem_append, List.mem_cons] at hd
          rcases hd with hd | rfl | hd
          · exact minute_mono (hbefore d hd last (by simp))
          · exact le_rfl
          · exact absurd hpeer (kept.others d hd)
        omega
  refine ⟨hcounted, .inr ⟨c, [], ⟨calls, rfl⟩, hc, by simp, fun _ => ?_⟩⟩
  have hfits : ([(peer, c.minute, l.allowedIn peer c.minute [] (calls ++ [c]))] :
      Windows).length ≤ l.maxPeers := l.maxPeers_pos
  have hvalue : (if l.allows calls c then counted (l.after calls) c + 1
      else counted (l.after calls) c) = l.allowedIn peer c.minute [] (calls ++ [c]) := by
    rw [allowedIn_concat, hcounted]
    by_cases hallowed : l.allows calls c = true <;> simp [hallowed, hc]
  rw [l.after_concat_eq calls c, hvalue, hc, renew, trim_append hfits]
  refine ⟨_, [], rfl, fun e he => ?_, by simp, by simp, by simp⟩
  exact (mem_erase.mp (List.mem_of_mem_drop he)).2

/-- The table knows every peer that calls often enough. -/
lemma known_of_frequent (hfrequent : l.Frequent peer calls)
    (hclock : calls.Pairwise fun a b => a.now ≤ b.now) : l.Known peer calls := by
  induction calls using List.reverseRecOn with
  | nil => exact .inl ⟨by simp, by simp⟩
  | append_singleton calls c ih =>
    have hknown := ih hfrequent.of_concat (hclock.sublist (List.sublist_append_left _ _))
    by_cases hc : c.peer = peer
    · exact (hknown.same hc hfrequent hclock).2
    · exact hknown.other hc

end runs

/-- The table never holds more peers than its bound, and a peer between whose calls fewer other
peers call than the table holds is counted exactly: a call of it is allowed if and only if fewer
than the limit of its calls were allowed before in the same minute. -/
theorem rateLimiter_exact (l : FixedWindowRateLimiter) (calls : List Call)
    (hclock : calls.Pairwise fun a b => a.now ≤ b.now) :
    (l.after calls).length ≤ l.maxPeers ∧
    ∀ peer, l.Frequent peer calls → ∀ before c rest, calls = before ++ c :: rest →
      c.peer = peer →
      (l.allows before c = true ↔ l.allowedIn peer c.minute [] before < l.limit) := by
  refine ⟨l.length_after_le calls, fun peer hfrequent before c rest hsplit hc => ?_⟩
  have hprefix : before ++ [c] <+: calls := ⟨rest, by simp [hsplit]⟩
  have hclock' := hclock.sublist hprefix.sublist
  have hfrequent' : l.Frequent peer (before ++ [c]) := by
    intro earlier first between second tail heq
    refine hfrequent earlier first between second (tail ++ rest) ?_
    rw [hsplit, List.append_cons, heq]
    simp
  have hknown := known_of_frequent hfrequent'.of_concat
    (hclock'.sublist (List.sublist_append_left _ _))
  rw [← (hknown.same hc hfrequent' hclock').1]
  simp [allows, allow]

namespace Sample

/-- One call a minute for one peer. -/
def limiter : FixedWindowRateLimiter := ⟨1, 1, le_rfl, le_rfl⟩

def calls : List Call := [⟨"a", 0⟩, ⟨"a", 30⟩, ⟨"a", 60⟩]

lemma calls_frequent : limiter.Frequent "a" calls := by
  intro before first between second rest hsplit hfirst hsecond hothers
  have hall : ∀ c ∈ calls, c.peer = "a" := by simp [calls]
  have hnil : between = [] := by
    refine List.eq_nil_iff_forall_not_mem.mpr fun c hc => hothers c hc (hall c ?_)
    simp [hsplit, hc]
  simp [hnil, limiter]

end Sample

theorem rateLimiter_exact_sample :
    Sample.limiter.allows [⟨"a", 0⟩] ⟨"a", 30⟩ = true ↔
      Sample.limiter.allowedIn "a" (Call.minute ⟨"a", 30⟩) [] [⟨"a", 0⟩] < 1 :=
  (rateLimiter_exact Sample.limiter Sample.calls (by norm_num [Sample.calls])).2 "a"
    Sample.calls_frequent [⟨"a", 0⟩] ⟨"a", 30⟩ [⟨"a", 60⟩] rfl rfl

end FixedWindowRateLimiter

end Modall
