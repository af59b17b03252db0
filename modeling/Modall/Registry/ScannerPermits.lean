import Mathlib
import Modall.Library.Transition

/-!
# The scanner process permits

Scanner processes are bounded by four permits that tasks of any number of event loops share.
A task that finds none waits on a future of its own loop; a release hands its permit to the
first waiter that can still be notified, and a waiter that is interrupted after the hand-over
gives the permit back.

The tasks' coroutines are cut where another thread or another task can come between: at
`await waiter.future`, at each `with _SCANNER_PROCESS_PERMIT_LOCK`, and inside a release after
each waiter it looks at, since a loop may be closed there by its own thread. A step that needs
the lock is possible only while no release owns it.
-/
namespace Modall.Scanner
open Library

def processLimit : Nat := 4

inductive Future where
  | pending | finished | cancelled
deriving DecidableEq

/-- `_ScannerProcessWaiter`. -/
structure ProcessWaiter where
  loop : Nat
  future : Future := .pending
  granted : Bool := false
  cancelled : Bool := false
deriving DecidableEq

/-- Where the task of one call of `_acquire_scanner_process_permit` is. -/
inductive Phase where
  /-- Suspended at `await waiter.future`. -/
  | waiting
  /-- The call has returned. -/
  | holding
  /-- The handler has set `release_grant`. -/
  | returning
  /-- Inside `_release_scanner_process_permit`, owning the lock. -/
  | releasing
  | over
deriving DecidableEq

structure Call where
  waiter : ProcessWaiter
  phase : Phase
  /-- `_notify_scanner_process_waiter` is scheduled on the waiter's loop. -/
  scheduled : Bool := false
  /-- `Task.cancel` has been called on the waiting task. -/
  cancelRequested : Bool := false
deriving DecidableEq

/-- The module's globals, the calls made so far and the closed event loops. -/
structure Permits where
  available : Nat := processLimit
  waiters : List Nat := []
  calls : List Call := []
  lock : Option Nat := none
  closed : List Nat := []
  /-- A release has raised "scanner process permit released without an acquisition". -/
  raised : Bool := false
deriving DecidableEq

/-- What `await waiter.future` raises. -/
inductive Interruption where
  | cancelledError | generatorExit
deriving DecidableEq

inductive Event where
  | acquire (loop : Nat)
  | cancel (call : Nat)
  | notify (call : Nat)
  | resume (call : Nat)
  | interrupt (call : Nat) (raised : Interruption)
  | release (call : Nat)
  | releaseNext
  | close (loop : Nat)
deriving DecidableEq

/-! ## The code -/

/-- `Task.cancel` on a waiting task: it cancels the future it waits for, unless that is done. -/
def Call.cancel (c : Call) : Call :=
  { c with
    waiter.future := if c.waiter.future = .pending then .cancelled else c.waiter.future
    cancelRequested := true }

/-- `_notify_scanner_process_waiter`. -/
def Call.notify (c : Call) : Call :=
  { c with
    waiter.future := if c.waiter.future = .pending then .finished else c.waiter.future
    scheduled := false }

/-- The handler of `_acquire_scanner_process_permit`, up to the release it may make. -/
def Call.interrupt (c : Call) : Call :=
  if c.waiter.granted then { c with phase := .returning }
  else { c with waiter.cancelled := true, phase := .over }

namespace Permits

def put (s : Permits) (t : Nat) (c : Call) : Permits := { s with calls := s.calls.set t c }

/-- `_acquire_scanner_process_permit` up to its return or its `await`. -/
def acquire (s : Permits) (loop : Nat) : Permits :=
  if 0 < s.available then
    { s with available := s.available - 1, calls := s.calls ++ [⟨{ loop }, .holding, false, false⟩] }
  else
    { s with
      waiters := s.waiters ++ [s.calls.length]
      calls := s.calls ++ [⟨{ loop }, .waiting, false, false⟩] }

/-- The call `t` leaves `_release_scanner_process_permit`, by a return or by the raise. -/
def leave (s : Permits) (t : Nat) : Permits :=
  match s.calls[t]? with
  | some c => { s.put t { c with phase := .over } with lock := none }
  | none => { s with lock := none }

/-- One turn of the loop of `_release_scanner_process_permit`, or what follows it when no
waiter is left. -/
def releaseNext (s : Permits) (t : Nat) : Permits :=
  match s.waiters with
  | [] =>
    if processLimit ≤ s.available then { s.leave t with raised := true }
    else { s.leave t with available := s.available + 1 }
  | w :: rest =>
    let s := { s with waiters := rest }
    match s.calls[w]? with
    | none => s
    | some c =>
      if c.waiter.cancelled then s
      -- `call_soon_threadsafe` raises; `granted` stays set
      else if c.waiter.loop ∈ s.closed then
        s.put w { c with waiter.granted := true, waiter.cancelled := true }
      else (s.put w { c with waiter.granted := true, scheduled := true }).leave t

end Permits

/-- The interruption can reach the call: its task has been cancelled and its loop still runs,
or its loop has been closed and the coroutine is finalised. -/
def Call.Interrupts (c : Call) (s : Permits) : Interruption → Prop
  | .cancelledError => c.cancelRequested = true ∧ c.waiter.loop ∉ s.closed
  | .generatorExit => c.waiter.loop ∈ s.closed

/-- The steps of all tasks and event loops. -/
inductive Step (s : Permits) : Event → Permits → Prop where
  | acquire (loop : Nat) : s.lock = none → loop ∉ s.closed →
      Step s (.acquire loop) (s.acquire loop)
  | cancel {t : Nat} {c : Call} : s.calls[t]? = some c → c.phase = .waiting →
      c.waiter.loop ∉ s.closed → Step s (.cancel t) (s.put t c.cancel)
  | notify {t : Nat} {c : Call} : s.calls[t]? = some c → c.scheduled = true →
      c.waiter.loop ∉ s.closed → Step s (.notify t) (s.put t c.notify)
  | resume {t : Nat} {c : Call} : s.calls[t]? = some c → c.phase = .waiting →
      c.waiter.future = .finished → c.cancelRequested = false → c.waiter.loop ∉ s.closed →
      Step s (.resume t) (s.put t { c with phase := .holding })
  | interrupt {t : Nat} {c : Call} {raised : Interruption} : s.lock = none →
      s.calls[t]? = some c → c.phase = .waiting → c.Interrupts s raised →
      Step s (.interrupt t raised) (s.put t c.interrupt)
  | release {t : Nat} {c : Call} : s.lock = none → s.calls[t]? = some c →
      c.phase = .holding ∨ c.phase = .returning →
      Step s (.release t) { s.put t { c with phase := .releasing } with lock := some t }
  | releaseNext {t : Nat} : s.lock = some t → Step s .releaseNext (s.releaseNext t)
  | close (loop : Nat) : Step s (.close loop) { s with closed := loop :: s.closed }

/-! ## Who has a permit -/

/-- The call has a permit that it has to release: it has returned, or its handler or caller
is about to give the permit back. -/
def Call.holds (c : Call) : Bool :=
  match c.phase with
  | .holding | .returning | .releasing => true
  | .waiting | .over => false

/-- The waiter has been handed a permit and its notification is under way. -/
def Call.awaitsResume (c : Call) : Bool :=
  c.phase == .waiting && c.waiter.granted && !c.waiter.cancelled

/-- A release met the waiter after its loop had been closed. -/
def Call.Refused (c : Call) : Prop := c.waiter.granted = true ∧ c.waiter.cancelled = true

namespace Permits

def holders (s : Permits) : Nat := s.calls.countP Call.holds
def grants (s : Permits) : Nat := s.calls.countP Call.awaitsResume

structure Conserved (s : Permits) : Prop where
  permits : s.available + s.holders + s.grants = processLimit
  bounded : s.holders ≤ processLimit
  quiet : s.raised = false

end Permits

/-- A step that does not finalise a waiter that a release has skipped for its closed loop. -/
def SparingStep (s : Permits) (event : Event) (s' : Permits) : Prop :=
  Step s event s' ∧
    ∀ t raised c, event = .interrupt t raised → s.calls[t]? = some c → ¬ c.Refused

/-! ## The invariant -/

/-- Overwriting one entry moves a count by what it says of the old and the new entry. -/
theorem countP_put {s : Permits} {t : Nat} {c : Call} (here : s.calls[t]? = some c) (c' : Call)
    (p : Call → Bool) :
    (s.put t c').calls.countP p + (if p c then 1 else 0) =
      s.calls.countP p + (if p c' then 1 else 0) := by
  obtain ⟨lt, rfl⟩ := List.getElem?_eq_some_iff.mp here
  have old : (if p s.calls[t] then 1 else 0) ≤ s.calls.countP p := by
    split
    · exact List.countP_pos_iff.mpr ⟨_, List.getElem_mem lt, ‹_›⟩
    · exact Nat.zero_le _
  unfold Permits.put
  rw [List.countP_set lt]
  omega

def Call.carries (c : Call) : Bool := c.holds || c.awaitsResume

theorem countP_carries (calls : List Call) :
    calls.countP Call.carries = calls.countP Call.holds + calls.countP Call.awaitsResume := by
  induction calls with
  | nil => rfl
  | cons c calls ih =>
    have apart : ¬ (c.holds = true ∧ c.awaitsResume = true) := by
      cases h : c.phase <;> simp [Call.holds, Call.awaitsResume, h]
    simp only [List.countP_cons, ih, Call.carries, Bool.or_eq_true]
    split_ifs <;> first | omega | grind

/-- A call in the deque: still waiting, or given up by its handler. -/
def Call.Queued (c : Call) : Prop :=
  c.waiter.granted = false ∧
    (c.phase = .waiting ∧ c.waiter.cancelled = false ∨ c.phase = .over ∧ c.waiter.cancelled = true)

/-- Only a waiter with a permit is notified. -/
def Call.Notified (c : Call) : Prop :=
  c.scheduled = true ∨ c.waiter.future = .finished →
    c.waiter.granted = true ∧ c.waiter.cancelled = false

structure Permits.Invariant (s : Permits) : Prop where
  count : s.available + s.calls.countP Call.carries = processLimit
  nodup : s.waiters.Nodup
  queued : ∀ w ∈ s.waiters, ∃ c, s.calls[w]? = some c ∧ c.Queued
  notified : ∀ (t : Nat) (c : Call), s.calls[t]? = some c → c.Notified
  owner : ∀ t, s.lock = some t → ∃ c, s.calls[t]? = some c ∧ c.phase = .releasing
  quiet : s.raised = false

namespace Permits
variable {s : Permits} {t : Nat} {c c' : Call}

theorem put_calls_self (here : s.calls[t]? = some c) : (s.put t c').calls[t]? = some c' := by
  have lt := (List.getElem?_eq_some_iff.mp here).1
  simp [put, lt]

theorem put_calls_of_ne {u : Nat} (ne : t ≠ u) : (s.put t c').calls[u]? = s.calls[u]? := by
  simp [put, ne]

/-- What is true of every call stays true when the new entry has it too. -/
theorem forall_put {Q : Nat → Call → Prop} (here : s.calls[t]? = some c)
    (all : ∀ u d, s.calls[u]? = some d → Q u d) (new : Q t c') :
    ∀ u d, (s.put t c').calls[u]? = some d → Q u d := by
  intro u d found
  by_cases same : t = u
  · subst same
    rw [put_calls_self here] at found
    cases found
    exact new
  · rw [put_calls_of_ne same] at found
    exact all u d found

/-- A condition on the entry at one place survives the write of another that keeps it. -/
theorem exists_put {Q : Call → Prop} {u : Nat} (here : s.calls[t]? = some c)
    (found : ∃ d, s.calls[u]? = some d ∧ Q d) (kept : t = u → Q c → Q c') :
    ∃ d, (s.put t c').calls[u]? = some d ∧ Q d := by
  obtain ⟨d, at_u, hd⟩ := found
  by_cases same : t = u
  · subst same
    obtain rfl : c = d := Option.some.inj (here.symm.trans at_u)
    exact ⟨c', put_calls_self here, kept rfl hd⟩
  · exact ⟨d, (put_calls_of_ne same).trans at_u, hd⟩

/-- A task that keeps its permit, or keeps having none, changes only its own entry. -/
theorem Invariant.put (inv : s.Invariant) (here : s.calls[t]? = some c)
    (carries : c'.carries = c.carries) (queued : t ∈ s.waiters → c.Queued → c'.Queued)
    (notified : c'.Notified)
    (releasing : c.phase = .releasing → c'.phase = .releasing) : (s.put t c').Invariant where
  count := by
    have moved := countP_put here c' Call.carries
    have before := inv.count
    rw [carries] at moved
    change s.available + (s.put t c').calls.countP Call.carries = _
    omega
  nodup := inv.nodup
  queued w mem := exists_put here (inv.queued w mem) fun same => queued (same ▸ mem)
  notified := forall_put here inv.notified notified
  owner u own := exists_put here (inv.owner u own) fun _ => releasing
  quiet := inv.quiet

/-- The permit of a release that ends here goes elsewhere: `spare` more permits are available
or handed on than before it. -/
theorem Invariant.leave (here : s.calls[t]? = some c) (releasing : c.phase = .releasing)
    (count : s.available + s.calls.countP Call.carries = processLimit + 1)
    (nodup : s.waiters.Nodup) (queued : ∀ w ∈ s.waiters, ∃ c, s.calls[w]? = some c ∧ c.Queued)
    (notified : ∀ (u : Nat) (d : Call), s.calls[u]? = some d → d.Notified) (quiet : s.raised = false) :
    (s.leave t).Invariant := by
  have left : s.leave t = { s.put t { c with phase := .over } with lock := none } := by
    simp [Permits.leave, here]
  rw [left]
  refine ⟨?_, nodup, ?_, ?_, nofun, quiet⟩
  · have moved := countP_put here { c with phase := .over } Call.carries
    have had : c.carries = true := by simp [Call.carries, Call.holds, releasing]
    have has : ({ c with phase := .over } : Call).carries = false := by
      simp [Call.carries, Call.holds, Call.awaitsResume]
    rw [had, has] at moved
    simp only [if_true, Bool.false_eq_true, if_false] at moved
    change s.available + (s.put t _).calls.countP Call.carries = _
    omega
  · intro w mem
    refine exists_put here (queued w mem) fun _ waits => ?_
    rcases waits.2 with ⟨h, -⟩ | ⟨h, -⟩ <;> rw [releasing] at h <;> cases h
  · exact forall_put here notified (notified t c here)

theorem leave_available (s : Permits) (t n : Nat) :
    { s.leave t with available := n } = { s with available := n }.leave t := by
  unfold Permits.leave
  cases s.calls[t]? <;> rfl

theorem Invariant.init : (({} : Permits)).Invariant where
  count := rfl
  nodup := .nil
  queued := nofun
  notified := nofun
  owner := nofun
  quiet := rfl

theorem Invariant.acquire (inv : s.Invariant) (loop : Nat) : (s.acquire loop).Invariant := by
  have old : ∀ {u : Nat} {d e : Call}, s.calls[u]? = some d → (s.calls ++ [e])[u]? = some d := by
    intro u d e found
    rw [List.getElem?_append_left (List.getElem?_eq_some_iff.mp found).1]
    exact found
  have notified : ∀ {e : Call}, e.Notified → ∀ (u : Nat) (d : Call),
      (s.calls ++ [e])[u]? = some d → d.Notified := by
    intro e he u d found
    rcases List.mem_append.mp (List.mem_of_getElem? found) with mem | mem
    · obtain ⟨v, at_v⟩ := List.getElem?_of_mem mem
      exact inv.notified v d at_v
    · rw [List.mem_singleton.mp mem]
      exact he
  have owner : ∀ {e : Call} (u : Nat), s.lock = some u →
      ∃ d, (s.calls ++ [e])[u]? = some d ∧ d.phase = .releasing := by
    intro e u own
    obtain ⟨d, at_u, hd⟩ := inv.owner u own
    exact ⟨d, old at_u, hd⟩
  have count := inv.count
  unfold Permits.acquire
  split_ifs with free
  · refine ⟨?_, inv.nodup, ?_, notified (by simp [Call.Notified]), owner, inv.quiet⟩
    · simp only [List.countP_append, List.countP_singleton, Call.carries, Call.holds, Bool.true_or]
      simp only [if_true]
      omega
    · intro w mem
      obtain ⟨d, at_w, hd⟩ := inv.queued w mem
      exact ⟨d, old at_w, hd⟩
  · refine ⟨?_, ?_, ?_, notified (by simp [Call.Notified]), owner, inv.quiet⟩
    · simpa [Call.carries, Call.holds, Call.awaitsResume, List.countP_cons] using count
    · -- the new place in the list of calls is past every place in the deque
      refine List.nodup_append.mpr ⟨inv.nodup, List.nodup_singleton _, ?_⟩
      rintro w mem _ last rfl
      obtain ⟨d, at_w, -⟩ := inv.queued w mem
      rw [List.mem_singleton.mp last] at at_w
      simp at at_w
    · intro w mem
      rcases List.mem_append.mp mem with mem | mem
      · obtain ⟨d, at_w, hd⟩ := inv.queued w mem
        exact ⟨d, old at_w, hd⟩
      · rw [List.mem_singleton.mp mem]
        exact ⟨_, List.getElem?_concat_length, by simp [Call.Queued]⟩

theorem Invariant.releaseNext (inv : s.Invariant) (own : s.lock = some t) :
    (s.releaseNext t).Invariant := by
  obtain ⟨c, here, releasing⟩ := inv.owner t own
  have count := inv.count
  have carried : 0 < s.calls.countP Call.carries := by
    refine List.countP_pos_iff.mpr ⟨c, List.mem_of_getElem? here, ?_⟩
    simp [Call.carries, Call.holds, releasing]
  unfold Permits.releaseNext
  split
  next empty =>
    rw [if_neg (by omega), leave_available]
    refine Invariant.leave here releasing ?_ ?_ ?_ inv.notified inv.quiet
    · change s.available + 1 + s.calls.countP Call.carries = _
      omega
    · exact inv.nodup
    · exact inv.queued
  next w rest queue =>
    have nodup := queue ▸ inv.nodup
    have queued : ∀ v ∈ rest, ∃ d, s.calls[v]? = some d ∧ d.Queued :=
      fun v mem => inv.queued v (queue ▸ List.mem_cons_of_mem w mem)
    obtain ⟨d, at_w, waits⟩ := inv.queued w (queue ▸ List.mem_cons_self)
    simp only [at_w]
    have popped : { s with waiters := rest }.Invariant :=
      ⟨inv.count, nodup.of_cons, queued, inv.notified, inv.owner, inv.quiet⟩
    by_cases cancelled : d.waiter.cancelled = true
    · rw [if_pos cancelled]
      exact popped
    rw [if_neg cancelled]
    have waiting : d.phase = .waiting := by
      rcases waits.2 with h | h
      · exact h.1
      · exact absurd h.2 cancelled
    have gone : w ∉ rest := (List.nodup_cons.mp nodup).1
    split_ifs with shut
    · -- the loop is closed: the waiter keeps no permit, and it has left the deque
      refine popped.put at_w ?_ (fun mem => absurd mem gone) ?_ (fun h => ?_)
      · simp [Call.carries, Call.holds, Call.awaitsResume, waiting, waits.1]
      · intro scheduled
        have granted := (inv.notified w d at_w scheduled).1
        rw [waits.1] at granted
        cases granted
      · rw [waiting] at h
        cases h
    · -- the releasing call and the waiter are two: one loses the permit the other gets
      have apart : w ≠ t := by
        rintro rfl
        obtain rfl : c = d := Option.some.inj (here.symm.trans at_w)
        rw [waiting] at releasing
        cases releasing
      refine Invariant.leave ((put_calls_of_ne apart).trans here) releasing ?_ nodup.of_cons ?_ ?_
        inv.quiet
      · have moved := countP_put (s := { s with waiters := rest }) at_w
          { d with waiter.granted := true, scheduled := true } Call.carries
        have had : d.carries = false := by
          simp [Call.carries, Call.holds, Call.awaitsResume, waiting, waits.1]
        have has : ({ d with waiter.granted := true, scheduled := true } : Call).carries = true := by
          simp [Call.carries, Call.holds, Call.awaitsResume, waiting, cancelled]
        rw [had, has] at moved
        simp only [if_true, Bool.false_eq_true, if_false] at moved
        change s.available + (Permits.put _ w _).calls.countP Call.carries = _
        omega
      · exact fun v mem => exists_put at_w (queued v mem) fun same => absurd (same ▸ mem) gone
      · exact forall_put at_w inv.notified fun _ => ⟨rfl, by simpa using cancelled⟩

/-- Without a waiter that a release has skipped, the counters and the deque stay in step. -/
theorem Invariant.step {s' : Permits} {event : Event} (inv : s.Invariant)
    (h : SparingStep s event s') : s'.Invariant := by
  obtain ⟨h, sparing⟩ := h
  cases h with
  | acquire loop free running => exact inv.acquire loop
  | @cancel t c here waiting running =>
    refine inv.put here rfl (fun _ => id) (fun h => inv.notified t c here ?_) id
    refine h.imp id fun finished => ?_
    simp only [Call.cancel] at finished
    split_ifs at finished
    exact finished
  | @notify t c here scheduled running =>
    exact inv.put here rfl (fun _ => id) (fun _ => inv.notified t c here (.inl scheduled)) id
  | @resume t c here waiting finished kept running =>
    have granted := inv.notified t c here (.inr finished)
    refine inv.put here ?_ (fun _ h => ?_) (inv.notified t c here) (fun h => ?_)
    · simp [Call.carries, Call.holds, Call.awaitsResume, waiting, granted]
    · cases granted.1.symm.trans h.1
    · cases waiting.symm.trans h
  | @interrupt t c raised free here waiting reaches =>
    have kept := sparing t raised c rfl here
    unfold Call.interrupt
    split_ifs with granted
    · have live : c.waiter.cancelled = false := by
        simpa using fun h => kept ⟨granted, h⟩
      refine inv.put here ?_ (fun _ h => ?_) (inv.notified t c here) (fun h => ?_)
      · simp [Call.carries, Call.holds, Call.awaitsResume, waiting, granted, live]
      · cases granted.symm.trans h.1
      · cases waiting.symm.trans h
    · have ungranted : c.waiter.granted = false := by simpa using granted
      refine inv.put here ?_ (fun _ _ => ⟨ungranted, .inr ⟨rfl, rfl⟩⟩) (fun h => ?_) (fun h => ?_)
      · simp [Call.carries, Call.holds, Call.awaitsResume, waiting, ungranted]
      · exact absurd (inv.notified t c here h).1 granted
      · cases waiting.symm.trans h
  | @release t c free here phase =>
    have entered : (s.put t { c with phase := .releasing }).Invariant := by
      refine inv.put here ?_ (fun _ h => ?_) (inv.notified t c here) fun _ => rfl
      · rcases phase with h | h <;> simp [Call.carries, Call.holds, h]
      · rcases phase with g | g <;> rcases h.2 with h | h <;> cases g.symm.trans h.1
    refine ⟨entered.count, entered.nodup, entered.queued, entered.notified, ?_, entered.quiet⟩
    intro u own
    cases own
    exact ⟨_, put_calls_self here, rfl⟩
  | releaseNext own => exact inv.releaseNext own
  | close loop => exact ⟨inv.count, inv.nodup, inv.queued, inv.notified, inv.owner, inv.quiet⟩

theorem Invariant.conserved (inv : s.Invariant) : s.Conserved := by
  have count := inv.count
  rw [countP_carries] at count
  refine ⟨?_, ?_, inv.quiet⟩
  · change s.available + s.calls.countP Call.holds + s.calls.countP Call.awaitsResume = _
    omega
  · change s.calls.countP Call.holds ≤ _
    omega

end Permits

/-- In every run in which no waiter is finalised after a release has skipped it for its closed
loop, the permits are conserved; the first such finalisation breaks the count. -/
theorem permits_conserved {trace : List Event} {s : Permits} (run : Path SparingStep {} trace s) :
    s.Conserved ∧ ∀ t raised s' c, Step s (.interrupt t raised) s' → s.calls[t]? = some c →
      c.Refused → ¬ s'.Conserved := by
  have inv : s.Invariant := run.invariant (fun _ _ _ inv h => inv.step h) .init
  refine ⟨inv.conserved, ?_⟩
  intro t raised s' c h here refused conserved
  cases h with
  | @interrupt _ d _ free found waiting reaches =>
    obtain rfl : c = d := Option.some.inj (here.symm.trans found)
    have moved := countP_put here c.interrupt Call.carries
    have had : c.carries = false := by
      simp [Call.carries, Call.holds, Call.awaitsResume, waiting, refused.2]
    have has : c.interrupt.carries = true := by
      simp [Call.interrupt, refused.1, Call.carries, Call.holds]
    rw [had, has, countP_carries] at moved
    have before := inv.count
    have after := conserved.permits
    simp only [Permits.holders, Permits.grants, if_true, Bool.false_eq_true, if_false] at moved after
    change s.available + _ + _ = _ at after
    omega

/-! ## A closed loop -/

namespace Sample

def holder (loop : Nat) : Call := ⟨{ loop }, .holding, false, false⟩
def finished (c : Call) : Call := { c with phase := .over }
def refused : Call := ⟨{ loop := 1, granted := true, cancelled := true }, .waiting, false, false⟩

/-- Four calls hold the permits and a fifth waits on a loop that is then closed. -/
def shut : Permits where
  available := 0
  waiters := [4]
  calls := [holder 0, holder 0, holder 0, holder 0, ⟨{ loop := 1 }, .waiting, false, false⟩]
  closed := [1]

/-- The first call has released: it met the waiter of the closed loop and passed it over. -/
def skipped : Permits where
  available := 1
  calls := [finished (holder 0), holder 0, holder 0, holder 0, refused]
  closed := [1]

/-- The waiter's coroutine has been finalised and has released a permit too. -/
def leaked : Permits where
  available := 2
  calls := [finished (holder 0), holder 0, holder 0, holder 0, finished refused]
  closed := [1]

/-- Two more calls have found a permit. -/
def crowded : Permits where
  available := 0
  calls := [finished (holder 0), holder 0, holder 0, holder 0, finished refused, holder 0, holder 0]
  closed := [1]

theorem sparing {s s' : Permits} {event : Event} (h : Step s event s')
    (other : ∀ t raised, event ≠ .interrupt t raised) : SparingStep s event s' :=
  ⟨h, fun t raised _ same => absurd same (other t raised)⟩

def closing : List Event :=
  [.acquire 0, .acquire 0, .acquire 0, .acquire 0, .acquire 1, .close 1, .release 0, .releaseNext,
    .releaseNext]

theorem skipped_reached : Path SparingStep {} closing skipped := by
  have first := Path.single (sparing (s := {}) (.acquire 0 rfl (by decide)) nofun)
  have second := first.snoc (sparing (.acquire 0 rfl (by decide)) nofun)
  have third := second.snoc (sparing (.acquire 0 rfl (by decide)) nofun)
  have fourth := third.snoc (sparing (.acquire 0 rfl (by decide)) nofun)
  have fifth := fourth.snoc (sparing (.acquire 1 rfl (by decide)) nofun)
  have closed : Path SparingStep {} (closing.take 6) shut := fifth.snoc (sparing (.close 1) nofun)
  have entered := closed.snoc (sparing (.release (t := 0) rfl rfl (.inl rfl)) nofun)
  have passed := entered.snoc (sparing (.releaseNext rfl) nofun)
  have left := passed.snoc (sparing (.releaseNext rfl) nofun)
  exact left

theorem refused_finalised :
    Step skipped (.interrupt 4 .generatorExit) (skipped.put 4 refused.interrupt) :=
  .interrupt rfl rfl rfl List.mem_cons_self

theorem leaked_reached : Path Step skipped
    [.interrupt 4 .generatorExit, .release 4, .releaseNext] leaked := by
  have entered := (Path.single refused_finalised).snoc (.release (t := 4) rfl rfl (.inr rfl))
  have left := entered.snoc (.releaseNext rfl)
  exact left

theorem crowded_reached : Path Step leaked [.acquire 0, .acquire 0] crowded := by
  have first := Path.single (Step.acquire (s := leaked) 0 rfl (by decide))
  exact first.snoc (.acquire 0 rfl (by decide))

theorem raised_reached : ∃ s, Path Step crowded
    [.release 1, .releaseNext, .release 2, .releaseNext, .release 3, .releaseNext, .release 5,
      .releaseNext, .release 6, .releaseNext] s ∧ s.raised = true := by
  have first := (Path.single (Step.release (s := crowded) (t := 1) rfl rfl (.inl rfl))).snoc
    (.releaseNext rfl)
  have second := (first.snoc (.release (t := 2) rfl rfl (.inl rfl))).snoc (.releaseNext rfl)
  have third := (second.snoc (.release (t := 3) rfl rfl (.inl rfl))).snoc (.releaseNext rfl)
  have fourth := (third.snoc (.release (t := 5) rfl rfl (.inl rfl))).snoc (.releaseNext rfl)
  have fifth := (fourth.snoc (.release (t := 6) rfl rfl (.inl rfl))).snoc (.releaseNext rfl)
  exact ⟨_, fifth, rfl⟩

end Sample

open Sample

/-- The finalised waiter of a closed loop releases a permit it never had: the count becomes
five, five calls hold permits, and the last of them to release meets the `RuntimeError`. -/
theorem closed_loop_leaks_permit :
    (∃ trace, Path Step {} trace leaked ∧ leaked.available + leaked.holders + leaked.grants = 5) ∧
    (∃ trace, Path Step {} trace crowded ∧ crowded.holders = 5) ∧
    ∃ trace s, Path Step {} trace s ∧ s.raised = true := by
  have leak := (skipped_reached.mono fun _ _ _ h => h.1).append leaked_reached
  have crowd := leak.append crowded_reached
  obtain ⟨s, path, raised⟩ := raised_reached
  exact ⟨⟨_, leak, by decide⟩, ⟨_, crowd, by decide⟩, _, s, crowd.append path, raised⟩

theorem permits_conserved_sample :
    skipped.Conserved ∧ ¬ (skipped.put 4 refused.interrupt).Conserved :=
  have conserved := permits_conserved skipped_reached
  ⟨conserved.1, conserved.2 4 .generatorExit _ refused refused_finalised rfl ⟨rfl, rfl⟩⟩

end Modall.Scanner
