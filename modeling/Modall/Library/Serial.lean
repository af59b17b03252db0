import Modall.Library.Transactions

/-!
# Transactions that take the lock first

A script that asks for the lock before it does anything else reads, until it commits, what was
committed when it got the lock and its own changes: nobody else commits anything meanwhile. A
system of such scripts is serial. Each of its steps leaves the rows alone, or it is the commit of
one script, and then it does to the rows what the script does on its own.
-/
namespace Modall.Library.Transactions

variable {Row Key Time Failure : Type}

section effect
variable [DecidableEq Key] (key : Row → Key)

/-- What a script comes to on its own, while the table holds the same rows: the changes of its
transaction. The readings of its clock are given in turn. -/
def Script.effect (rows : List Row) (script : Script Row Time Failure Unit) (c : Changes Row Key)
    (readings : List Time) : Option (Except Failure (Changes Row Key)) :=
  match script, readings with
  | .ret _, _ => some (.ok c)
  | .raise failure, _ => some (.error failure)
  | .now k, t :: later => (k t).effect rows c later
  | .now _, [] => none
  | .lock k, readings => k.effect rows c readings
  | .read k, readings => (k (c.view key rows)).effect rows c readings
  | .delete p k, readings => k.effect rows (c.deleteWhere key rows p) readings
  | .insert row k, readings => k.effect rows { c with inserted := c.inserted ++ [row] } readings
  | .onRollback p k, readings => k.effect rows { c with cleanups := c.cleanups ++ [p] } readings

section statements
variable {key} {rows : List Row} {c : Changes Row Key} {readings : List Time}

@[simp] lemma Script.effect_fail (failure : Failure) :
    (fail failure : Script Row Time Failure Unit).effect key rows c readings =
      some (.error failure) := by
  cases readings <;> rfl

@[simp] lemma Script.effect_acquire (next : Unit → Script Row Time Failure Unit) :
    (acquire >>= next).effect key rows c readings = (next ()).effect key rows c readings := by
  cases readings <;> rfl

@[simp] lemma Script.effect_select (next : List Row → Script Row Time Failure Unit) :
    (select >>= next).effect key rows c readings =
      (next (c.view key rows)).effect key rows c readings := by
  cases readings <;> rfl

end statements

/-- The transaction of one of the calls, run on its own, leaves these rows. -/
def Commits (calls : Script Row Time Failure Unit → Prop) (rows rows' : List Row) : Prop :=
  ∃ script readings c, calls script ∧ script.effect key rows .none readings = some (.ok c) ∧
    rows' = c.view key rows

end effect

/-- Nothing is to follow a rollback. -/
def Script.Tidy {α : Type} : Script Row Time Failure α → Prop
  | .ret _ | .raise _ => True
  | .now k => ∀ t, (k t).Tidy
  | .read k => ∀ rows, (k rows).Tidy
  | .lock k | .delete _ k | .insert _ k => k.Tidy
  | .onRollback _ _ => False

/-- The lock comes before everything else. -/
def Script.Locking {α : Type} : Script Row Time Failure α → Prop
  | .raise _ => True
  | .lock k => k.Tidy
  | _ => False

lemma Script.tidy_select {α : Type} {next : List Row → Script Row Time Failure α} :
    Script.Tidy (select >>= next) ↔ ∀ rows, (next rows).Tidy := Iff.rfl

lemma Script.locking_acquire {α : Type} {next : Unit → Script Row Time Failure α} :
    Script.Locking (acquire >>= next) ↔ (next ()).Tidy := Iff.rfl

section serial
variable {ι : Type} [DecidableEq ι] [DecidableEq Key] (key : Row → Key)
  (calls : Script Row Time Failure Unit → Prop)

/-- A caller that does not hold the lock has not begun; the one that holds it has come as far as its
script comes by itself on the committed rows. -/
structure World.Serial (w : World ι Row Key Time Failure) : Prop where
  holds : ∀ i, w.holder = some i → w.callers i ≠ none
  tidy : ∀ i c, w.callers i = some c → c.queue = [] ∧ c.changes.cleanups = []
  waiting : ∀ i c, w.callers i = some c → w.holder ≠ some i → calls c.script ∧ c.changes = .none
  holding : ∀ i c, w.callers i = some c → w.holder = some i → c.script.Tidy ∧
    ∃ script past, calls script ∧ ∀ later, script.effect key w.rows .none (past ++ later) =
      c.script.effect key w.rows c.changes later

variable {key calls} {w w' : World ι Row Key Time Failure} {l : Label ι}

/-- When the transaction of a caller has ended, the others stand where they stood. -/
lemma World.Serial.ended (h : w.Serial key calls) {i : ι} {rows : List Row}
    (hrows : w.holder ≠ some i → rows = w.rows) :
    World.Serial key calls
      { w with
        rows := rows
        holder := w.released i
        callers := Function.update w.callers i none } := by
  have hcaller : ∀ j c, Function.update w.callers i none j = some c →
      j ≠ i ∧ w.callers j = some c := by
    intro j c hc
    by_cases hne : j = i
    · rw [hne, Function.update_self] at hc
      cases hc
    · exact ⟨hne, by rwa [Function.update_of_ne hne] at hc⟩
  refine ⟨fun j hj => ?_, fun j c hc => ?_, fun j c hc hfree => ?_, fun j c hc hheld => ?_⟩
  · have hne : j ≠ i := by
      rintro rfl
      exact released_self j hj
    dsimp only
    rw [Function.update_of_ne hne]
    exact h.holds j ((released_ne hne).1 hj)
  · exact h.tidy j c (hcaller j c hc).2
  · obtain ⟨hne, hc⟩ := hcaller j c hc
    exact h.waiting j c hc fun hholder => hfree ((released_ne hne).2 hholder)
  · obtain ⟨hne, hc⟩ := hcaller j c hc
    have hholder := (released_ne hne).1 hheld
    have hsame : rows = w.rows := hrows (by simp [hholder, hne])
    simpa only [hsame] using h.holding j c hc hholder

/-- One more statement of the caller that holds the lock. -/
lemma World.Serial.advanced (h : w.Serial key calls) {i : ι} {c' : Caller Row Key Time Failure}
    (hothers : ∀ j, j ≠ i → (w.holder = some j → False)) (hqueue : c'.queue = [])
    (hcleanups : c'.changes.cleanups = []) (htidy : c'.script.Tidy)
    (hreached : ∃ script past, calls script ∧ ∀ later, script.effect key w.rows .none
      (past ++ later) = c'.script.effect key w.rows c'.changes later) :
    World.Serial key calls
      { w with holder := some i, callers := Function.update w.callers i (some c') } := by
  refine ⟨fun j hj => ?_, fun j d hd => ?_, fun j d hd hfree => ?_, fun j d hd hheld => ?_⟩
  · obtain rfl : i = j := by simpa using hj
    simp
  · by_cases hne : j = i
    · rw [hne] at hd
      obtain rfl : c' = d := by simpa using hd
      exact ⟨hqueue, hcleanups⟩
    · exact h.tidy j d (by simpa [Function.update_of_ne hne] using hd)
  · have hne : j ≠ i := by
      rintro rfl
      exact hfree rfl
    exact h.waiting j d (by simpa [Function.update_of_ne hne] using hd) (hothers j hne)
  · obtain rfl : i = j := by simpa using hheld
    obtain rfl : c' = d := by simpa using hd
    exact ⟨htidy, hreached⟩

/-- A system of scripts that take the lock first is serial: a step leaves the rows alone, or it is
the commit of one of the scripts, as if nobody else had been there. -/
theorem Step.serial [LE Time] (hlocking : ∀ script, calls script → script.Locking)
    (hstep : Step key calls w l w') (h : w.Serial key calls) :
    w'.Serial key calls ∧ (w'.rows = w.rows ∨ Commits key calls w.rows w'.rows) := by
  cases hstep with
  | begins i script hscript hidle =>
    have hfree : w.holder ≠ some i := fun hholder => h.holds i hholder hidle
    have hcaller : ∀ j c, Function.update w.callers i (some ⟨.none, script, []⟩) j = some c →
        j = i ∧ c = ⟨.none, script, []⟩ ∨ j ≠ i ∧ w.callers j = some c := by
      intro j c hc
      by_cases hne : j = i
      · rw [hne, Function.update_self, Option.some.injEq] at hc
        exact .inl ⟨hne, hc.symm⟩
      · exact .inr ⟨hne, by rwa [Function.update_of_ne hne] at hc⟩
    refine ⟨⟨fun j hj => ?_, fun j c hc => ?_, fun j c hc hj => ?_, fun j c hc hj => ?_⟩, .inl rfl⟩
    · have hne : j ≠ i := by
        rintro rfl
        exact hfree hj
      dsimp only
      rw [Function.update_of_ne hne]
      exact h.holds j hj
    · obtain ⟨-, rfl⟩ | ⟨-, hc⟩ := hcaller j c hc
      · exact ⟨rfl, rfl⟩
      · exact h.tidy j c hc
    · obtain ⟨-, rfl⟩ | ⟨-, hc⟩ := hcaller j c hc
      · exact ⟨hscript, rfl⟩
      · exact h.waiting j c hc hj
    · obtain ⟨rfl, -⟩ | ⟨-, hc⟩ := hcaller j c hc
      · exact absurd hj hfree
      · exact h.holding j c hc hj
  | ticks t hle => exact ⟨⟨h.holds, h.tidy, h.waiting, h.holding⟩, .inl rfl⟩
  | executes i c c' holder hc hexecute =>
    refine ⟨?_, .inl rfl⟩
    obtain ⟨hqueue, hcleanups⟩ := h.tidy i c hc
    by_cases hheld : w.holder = some i
    · have hothers : ∀ j, j ≠ i → (w.holder = some j → False) := by
        intro j hne hj
        exact hne (Option.some.inj (hj.symm.trans hheld))
      obtain ⟨htidy, script, past, hscript, hreached⟩ := h.holding i c hc hheld
      obtain ⟨changes, current, queue⟩ := c
      cases current with
      | ret | raise => cases hexecute
      | now k =>
        cases hexecute
        rw [hheld]
        refine h.advanced hothers hqueue hcleanups
          (htidy w.clock) ⟨script, past ++ [w.clock], hscript, fun later => ?_⟩
        rw [List.append_assoc, List.singleton_append, hreached]
        rfl
      | lock k =>
        simp only [execute, hheld] at hexecute
        cases hexecute
        exact h.advanced hothers hqueue hcleanups htidy
          ⟨script, past, hscript, hreached⟩
      | read k =>
        cases hexecute
        rw [hheld]
        exact h.advanced hothers hqueue hcleanups
          (htidy _) ⟨script, past, hscript, hreached⟩
      | delete p k =>
        cases hexecute
        rw [hheld]
        exact h.advanced hothers hqueue hcleanups
          htidy ⟨script, past, hscript, hreached⟩
      | insert row k =>
        cases hexecute
        rw [hheld]
        exact h.advanced hothers hqueue hcleanups
          htidy ⟨script, past, hscript, hreached⟩
      | onRollback => cases htidy
    · obtain ⟨hscript, hnone⟩ := h.waiting i c hc hheld
      obtain ⟨changes, current, queue⟩ := c
      subst hnone
      have hlock := hlocking current hscript
      cases current with
      | lock k =>
        simp only [execute, hheld, or_false] at hexecute
        split at hexecute
        case isTrue hfree =>
          cases hexecute
          refine h.advanced ?_ hqueue hcleanups hlock
            ⟨.lock k, [], hscript, fun later => rfl⟩
          intro j _ hj
          rw [hfree] at hj
          cases hj
        · cases hexecute
      | raise => cases hexecute
      | _ => cases hlock
  | commits i c hc hret =>
    obtain ⟨hqueue, -⟩ := h.tidy i c hc
    by_cases hheld : w.holder = some i
    · obtain ⟨-, script, past, hscript, hreached⟩ := h.holding i c hc hheld
      rw [hqueue]
      refine ⟨h.ended fun hfree => absurd hheld hfree, .inr ?_⟩
      refine ⟨script, past, c.changes, hscript, ?_, rfl⟩
      simpa [hret, Script.effect] using hreached []
    · obtain ⟨hscript, -⟩ := h.waiting i c hc hheld
      have hlock := hlocking c.script hscript
      rw [hret] at hlock
      cases hlock
  | rollsBack i c hc =>
    obtain ⟨hqueue, hcleanups⟩ := h.tidy i c hc
    rw [hqueue, hcleanups]
    exact ⟨h.ended fun _ => rfl, .inl rfl⟩

/-- What holds of the first rows and is kept by each script on its own holds of the rows of every
state that is reached, and the system stays serial. -/
theorem serial_of_reachable [LE Time] (hlocking : ∀ script, calls script → script.Locking)
    {init : World ι Row Key Time Failure → Prop} {inv : List Row → Prop}
    (hinit : ∀ w, init w → inv w.rows ∧ w.holder = none ∧ ∀ i, w.callers i = none)
    (hcommit : ∀ rows rows', inv rows → Commits key calls rows rows' → inv rows')
    (h : Reachable init (Step key calls) w) : w.Serial key calls ∧ inv w.rows := by
  refine h.invariant (I := fun w => w.Serial key calls ∧ inv w.rows) (fun w hw => ?_)
    fun w l w' hw hstep => ?_
  · obtain ⟨hinv, hholder, hidle⟩ := hinit w hw
    refine ⟨⟨?_, ?_, ?_, ?_⟩, hinv⟩ <;> simp [hholder, hidle]
  · obtain ⟨hserial, hsame | hcommits⟩ := hstep.serial hlocking hw.1
    · exact ⟨hserial, hsame ▸ hw.2⟩
    · exact ⟨hserial, hcommit _ _ hw.2 hcommits⟩

end serial

end Modall.Library.Transactions
