import Mathlib

/-!
# Backtracking regular expressions

Patterns over an arbitrary alphabet, with the meaning a backtracking matcher gives them: `run`
lists every way a pattern can match at one place, in the order in which the matcher tries them, so
its head is the match that is found. `search` takes the leftmost match, `findAll` the successive
ones.
-/
namespace Modall.Library.Regex

variable {α : Type}

/-- What an attempt has read, the latest character first, what is left and the groups so far. -/
structure State (α : Type) where
  consumed : List α
  rest : List α
  groups : List (Nat × List α)

inductive Pattern (α : Type) where
  | empty
  | one (accepts : α → Bool)
  /-- `accepts{least,}`, as many as possible first, or as few where it is lazy. -/
  | many (accepts : α → Bool) (least : Nat) (greedy : Bool)
  | seq (first second : Pattern α)
  | alt (first second : Pattern α)
  | group (name : Nat) (pattern : Pattern α)
  | ahead (pattern : Pattern α)
  | notAhead (pattern : Pattern α)
  | behind (accepts : α → Bool)
  | notBehind (accepts : α → Bool)
  | start
  | finish

/-- Reading one more character. -/
def State.push (s : State α) (c : α) (rest : List α) : State α :=
  { s with consumed := c :: s.consumed, rest := rest }

/-- Every number of characters from `least` on, the most first. -/
def runMany (accepts : α → Bool) (least : Nat) (greedy : Bool) (s : State α) :
    List α → List (State α)
  | [] => if least = 0 then [{ s with rest := [] }] else []
  | c :: rest =>
    let more := if accepts c then runMany accepts (least - 1) greedy (s.push c rest) rest else []
    let stop := if least = 0 then [{ s with rest := c :: rest }] else []
    if greedy then more ++ stop else stop ++ more

/-- The character before the place an attempt has reached; `context` is the text before its start,
the latest character first. -/
def State.last (s : State α) (context : List α) : Option α := (s.consumed ++ context).head?

def run (context : List α) : Pattern α → State α → List (State α)
  | .empty, s => [s]
  | .one accepts, s =>
    match s.rest with
    | c :: rest => if accepts c then [s.push c rest] else []
    | [] => []
  | .many accepts least greedy, s => runMany accepts least greedy s s.rest
  | .seq first second, s => (run context first s).flatMap (run context second)
  | .alt first second, s => run context first s ++ run context second s
  | .group name pattern, s =>
    (run context pattern s).map fun s' =>
      { s' with groups := (name, s.rest.take (s.rest.length - s'.rest.length)) :: s'.groups }
  | .ahead pattern, s => if (run context pattern s).isEmpty then [] else [s]
  | .notAhead pattern, s => if (run context pattern s).isEmpty then [s] else []
  | .behind accepts, s => if (s.last context).any accepts then [s] else []
  | .notBehind accepts, s => if (s.last context).any accepts then [] else [s]
  | .start, s => if (s.last context).isNone then [s] else []
  | .finish, s => if s.rest.isEmpty then [s] else []

/-! ## Abbreviations -/

namespace Pattern

def optional (pattern : Pattern α) : Pattern α := .alt pattern .empty

/-- `pattern{0,most}` for a pattern that reads at least one character. -/
def upTo (pattern : Pattern α) : Nat → Pattern α
  | 0 => .empty
  | most + 1 => optional (.seq pattern (upTo pattern most))

/-- `pattern{n}`. -/
def times (pattern : Pattern α) : Nat → Pattern α
  | 0 => .empty
  | n + 1 => .seq pattern (times pattern n)

/-- One of several, tried in this order. -/
def oneOf : List (Pattern α) → Pattern α
  | [] => .one fun _ => false
  | [pattern] => pattern
  | pattern :: patterns => .alt pattern (oneOf patterns)

def sequence : List (Pattern α) → Pattern α
  | [] => .empty
  | [pattern] => pattern
  | pattern :: patterns => .seq pattern (sequence patterns)

/-- The pattern asks nothing about the text before it. -/
def contextFree : Pattern α → Bool
  | .seq first second => first.contextFree && second.contextFree
  | .alt first second => first.contextFree && second.contextFree
  | .group _ pattern => pattern.contextFree
  | .ahead pattern => pattern.contextFree
  | .notAhead pattern => pattern.contextFree
  | .behind _ => false
  | .notBehind _ => false
  | .start => false
  | _ => true

end Pattern

/-! ## Finding matches -/

/-- A match: the text from its start on, what it read, and the state it ended in. -/
structure Match (α : Type) where
  start : List α
  text : List α
  rest : List α
  groups : List (Nat × List α)

def Match.group (m : Match α) (name : Nat) : Option (List α) := m.groups.lookup name

/-- The match at one place, with the text before it in `context`. -/
def matchAt (pattern : Pattern α) (context text : List α) : Option (Match α) :=
  ((run context pattern ⟨[], text, []⟩).head?).map fun s =>
    ⟨text, s.consumed.reverse, s.rest, s.groups⟩

def search (pattern : Pattern α) (context : List α) : List α → Option (Match α)
  | [] => matchAt pattern context []
  | c :: rest =>
    match matchAt pattern context (c :: rest) with
    | some m => some m
    | none => search pattern (c :: context) rest

/-- The successive matches of a pattern that reads at least one character; `skip` characters
belong to the match before. -/
def findAllFrom (pattern : Pattern α) (context : List α) : Nat → List α → List (Match α)
  | _, [] => []
  | skip + 1, c :: rest => findAllFrom pattern (c :: context) skip rest
  | 0, c :: rest =>
    match matchAt pattern context (c :: rest) with
    | some m => m :: findAllFrom pattern (c :: context) (m.text.length - 1) rest
    | none => findAllFrom pattern (c :: context) 0 rest

def findAll (pattern : Pattern α) (text : List α) : List (Match α) :=
  findAllFrom pattern [] 0 text

def fullmatch (pattern : Pattern α) (text : List α) : Option (Match α) :=
  matchAt (.seq pattern .finish) [] text

/-! ## Texts that differ in what comes before -/

lemma run_of_contextFree {pattern : Pattern α} (h : pattern.contextFree = true)
    (context context' : List α) (s : State α) :
    run context pattern s = run context' pattern s := by
  induction pattern generalizing s with
  | empty | one | many | finish => rfl
  | behind | notBehind | start => cases h
  | seq first second ihFirst ihSecond =>
    simp only [Pattern.contextFree, Bool.and_eq_true] at h
    simp only [run, ihFirst h.1 s]
    congr 1
    funext s'
    exact ihSecond h.2 s'
  | alt first second ihFirst ihSecond =>
    simp only [Pattern.contextFree, Bool.and_eq_true] at h
    simp only [run, ihFirst h.1 s, ihSecond h.2 s]
  | group _ pattern ih | ahead pattern ih | notAhead pattern ih =>
    simp only [run, ih h s]

section contextFree
variable {pattern : Pattern α} (hfree : pattern.contextFree = true)
include hfree

lemma matchAt_of_contextFree (context context' text : List α) :
    matchAt pattern context text = matchAt pattern context' text := by
  rw [matchAt, matchAt, run_of_contextFree hfree context context']

lemma search_of_contextFree (context context' text : List α) :
    search pattern context text = search pattern context' text := by
  induction text generalizing context context' with
  | nil => exact matchAt_of_contextFree hfree context context' []
  | cons c rest ih =>
    rw [search, search, matchAt_of_contextFree hfree context context', ih (c :: context)]

lemma findAllFrom_of_contextFree (context context' : List α) (skip : Nat) (text : List α) :
    findAllFrom pattern context skip text = findAllFrom pattern context' skip text := by
  induction text generalizing context context' skip with
  | nil => cases skip <;> rfl
  | cons c rest ih =>
    cases skip with
    | zero =>
      simp only [findAllFrom, matchAt_of_contextFree hfree context context']
      split
      · rw [ih (c :: context) (c :: context')]
      · exact ih _ _ _
    | succ skip => exact ih _ _ _

/-- A character at which the pattern cannot match may be left off the front. -/
lemma search_cons (c : α) (rest : List α) (h : matchAt pattern [] (c :: rest) = none) :
    search pattern [] (c :: rest) = search pattern [] rest := by
  rw [search, h]
  exact search_of_contextFree hfree _ _ _

lemma findAll_cons (c : α) (rest : List α) (h : matchAt pattern [] (c :: rest) = none) :
    findAll pattern (c :: rest) = findAll pattern rest := by
  rw [findAll, findAllFrom, h]
  exact findAllFrom_of_contextFree hfree _ _ _ _

end contextFree

end Modall.Library.Regex
