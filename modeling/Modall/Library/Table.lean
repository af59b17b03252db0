import Mathlib

/-!
# Tables as lists of rows

A table is the list of its rows in insertion order. An update statement rewrites the rows
that match its predicate in place, an insert appends, a delete filters. What a reader sees of
a table is usually the part that belongs to one key, a `filter`; the lemmas say how each
statement acts on such a part.
-/
namespace Modall.Library

variable {α β : Type}

/-- Rewrite the rows that satisfy `p`, leaving the others and the order alone. -/
def updateWhere (p : α → Bool) (f : α → α) (rows : List α) : List α :=
  rows.map fun row => if p row then f row else row

@[simp] theorem updateWhere_nil (p : α → Bool) (f : α → α) : updateWhere p f [] = [] := rfl

theorem updateWhere_cons (p : α → Bool) (f : α → α) (row : α) (rows : List α) :
    updateWhere p f (row :: rows) = (if p row then f row else row) :: updateWhere p f rows := rfl

@[simp] theorem updateWhere_singleton (p : α → Bool) (f : α → α) (row : α) :
    updateWhere p f [row] = [if p row then f row else row] := rfl

theorem updateWhere_append (p : α → Bool) (f : α → α) (xs ys : List α) :
    updateWhere p f (xs ++ ys) = updateWhere p f xs ++ updateWhere p f ys := by
  simp [updateWhere]

/-- Rows that nothing matches stay as they are. -/
theorem updateWhere_eq_self {p : α → Bool} {f : α → α} {rows : List α}
    (h : ∀ row ∈ rows, p row = false) : updateWhere p f rows = rows := by
  induction rows with
  | nil => rfl
  | cons row rows ih =>
    rw [updateWhere_cons, h row (by simp), ih fun r hr => h r (by simp [hr])]
    rfl

theorem updateWhere_eq_map {p : α → Bool} {f : α → α} {rows : List α}
    (h : ∀ row ∈ rows, p row = true) : updateWhere p f rows = rows.map f :=
  List.map_congr_left fun row hr => if_pos (h row hr)

theorem updateWhere_congr {p q : α → Bool} {f : α → α} {rows : List α}
    (h : ∀ row ∈ rows, p row = q row) : updateWhere p f rows = updateWhere q f rows :=
  List.map_congr_left fun row hr => by rw [h row hr]

/-- An update that keeps `q` commutes with reading the part that `q` selects. -/
theorem filter_updateWhere {p q : α → Bool} {f : α → α} (rows : List α)
    (h : ∀ row, p row = true → q (f row) = q row) :
    (updateWhere p f rows).filter q = updateWhere p f (rows.filter q) := by
  induction rows with
  | nil => rfl
  | cons row rows ih =>
    rw [updateWhere_cons]
    by_cases hp : p row = true
    · by_cases hq : q row = true
      · simp [hp, hq, h row hp, ih, updateWhere_cons]
      · simp [hp, hq, h row hp, ih]
    · by_cases hq : q row = true
      · simp [hp, hq, ih, updateWhere_cons]
      · simp [hp, hq, ih]

/-- An update that touches no row of the part leaves the part as it is. -/
theorem filter_updateWhere_of_disjoint {p q : α → Bool} {f : α → α} (rows : List α)
    (h : ∀ row, p row = true → q (f row) = q row) (hd : ∀ row, q row = true → p row = false) :
    (updateWhere p f rows).filter q = rows.filter q := by
  rw [filter_updateWhere rows h]
  exact updateWhere_eq_self fun row hr => hd row (List.mem_filter.mp hr).2

theorem map_updateWhere {p : α → Bool} {f : α → α} {g : α → β} (rows : List α)
    (h : ∀ row, p row = true → g (f row) = g row) :
    (updateWhere p f rows).map g = rows.map g := by
  induction rows with
  | nil => rfl
  | cons row rows ih =>
    rw [updateWhere_cons, List.map_cons, List.map_cons, ih]
    by_cases hp : p row = true <;> simp [hp, h]

theorem mem_updateWhere {p : α → Bool} {f : α → α} {rows : List α} {row : α} :
    row ∈ updateWhere p f rows ↔
      ∃ old ∈ rows, (if p old then f old else old) = row := by
  simp [updateWhere]

/-- Replacing the only row of a part, under a key that is unique, leaves its replacement. -/
theorem filter_updateWhere_only {γ : Type} [DecidableEq γ] {key : α → γ} {q : α → Bool}
    {rows : List α} {row row' : α} (unique : (rows.map key).Nodup)
    (only : rows.filter q = [row]) :
    (updateWhere (fun r => key r == key row) (fun _ => row') rows).filter q =
      if q row' then [row'] else [] := by
  have selected : row ∈ rows.filter q := by simp [only]
  obtain ⟨mem, hq⟩ := List.mem_filter.mp selected
  obtain ⟨before, after, rfl⟩ := List.append_of_mem mem
  rw [List.map_append, List.map_cons, List.nodup_middle, List.nodup_cons, List.mem_append,
    not_or] at unique
  have other (rest : List α) (h : key row ∉ rest.map key) :
      updateWhere (fun r => key r == key row) (fun _ => row') rest = rest := by
    refine updateWhere_eq_self fun r hr => beq_eq_false_iff_ne.mpr fun same => h ?_
    exact same ▸ List.mem_map_of_mem hr
  rw [List.filter_append, List.filter_cons_of_pos hq] at only
  have none : before.filter q = [] ∧ after.filter q = [] := by
    have length := congrArg List.length only
    simp only [List.length_append, List.length_cons, List.length_nil] at length
    exact ⟨List.length_eq_zero_iff.mp (by omega), List.length_eq_zero_iff.mp (by omega)⟩
  rw [updateWhere_append, updateWhere_cons, other before unique.1.1, other after unique.1.2,
    List.filter_append, none.1]
  simp only [beq_self_eq_true, if_true, List.filter_cons, none.2]
  split_ifs <;> rfl

theorem exists_find? {rows : List α} {row : α} {p : α → Bool} (mem : row ∈ rows)
    (holds : p row = true) : ∃ found, rows.find? p = some found :=
  Option.isSome_iff_exists.mp (List.find?_isSome.mpr ⟨row, mem, holds⟩)

/-- What only one row satisfies finds that row. -/
theorem find?_eq_some_of_only {rows : List α} {row : α} {p : α → Bool} (mem : row ∈ rows)
    (holds : p row = true) (only : ∀ other ∈ rows, p other = true → other = row) :
    rows.find? p = some row := by
  obtain ⟨found, there⟩ := exists_find? mem holds
  rw [there, only found (List.mem_of_find?_eq_some there) (List.find?_some there)]

/-- A key under which no part has two rows is unique. -/
theorem nodup_map_of_filter_length_le_one [DecidableEq β] {key : α → β} {rows : List α}
    (h : ∀ k, (rows.filter fun row => key row == k).length ≤ 1) : (rows.map key).Nodup := by
  refine List.nodup_iff_count_le_one.mpr fun k => ?_
  have := h k
  rwa [← List.countP_eq_length_filter, ← Function.comp_def (· == k) key, ← List.countP_map] at this

/-- A join in which every row meets at most one partner has its rows' keys at most once. -/
theorem map_flatMap_sublist {γ : Type} {f : α → List β} {key : β → γ} {key' : α → γ}
    {rows : List α} (h : ∀ row ∈ rows, ((f row).map key).Sublist [key' row]) :
    ((rows.flatMap f).map key).Sublist (rows.map key') := by
  induction rows with
  | nil => exact .slnil
  | cons row rows ih =>
    rw [List.flatMap_cons, List.map_append, List.map_cons]
    exact (h row (by simp)).append (ih fun r hr => h r (by simp [hr]))

theorem map_sublist_singleton {key : α → β} {rows : List α} {k : β} (few : rows.length ≤ 1)
    (h : ∀ row ∈ rows, key row = k) : (rows.map key).Sublist [k] := by
  match rows with
  | [] => simp
  | [row] => simp [h row]
  | _ :: _ :: _ => simp at few

/-- Under a unique key at most one row meets a condition that fixes the key. -/
theorem length_filter_le_one {key : α → β} {rows : List α} (unique : (rows.map key).Nodup)
    {p : α → Bool} {k : β} (h : ∀ row ∈ rows, p row = true → key row = k) :
    (rows.filter p).length ≤ 1 := by
  have nodup : ((rows.filter p).map key).Nodup := unique.sublist (List.filter_sublist.map key)
  have same : (rows.filter p).map key = List.replicate (rows.filter p).length k := by
    rw [List.eq_replicate_iff]
    refine ⟨by simp, fun b hb => ?_⟩
    obtain ⟨row, hrow, rfl⟩ := List.mem_map.mp hb
    exact h row (List.mem_filter.mp hrow).1 (List.mem_filter.mp hrow).2
  rw [same] at nodup
  exact List.nodup_replicate.mp nodup

/-- Under a unique key, joining what only one row meets, and at most once, gives at most one row. -/
theorem length_flatMap_le_one {γ : Type} {key : α → γ} {rows : List α}
    (unique : (rows.map key).Nodup) {f : α → List β} {k : γ}
    (h : ∀ row ∈ rows, (f row).length ≤ 1 ∧ (f row ≠ [] → key row = k)) :
    (rows.flatMap f).length ≤ 1 := by
  induction rows with
  | nil => simp
  | cons row rows ih =>
    rw [List.map_cons, List.nodup_cons] at unique
    have tail := ih unique.2 fun r hr => h r (by simp [hr])
    obtain ⟨short, fixed⟩ := h row (by simp)
    rw [List.flatMap_cons, List.length_append]
    by_cases empty : f row = []
    · simpa [empty] using tail
    · have rest : rows.flatMap f = [] := by
        rw [List.flatMap_eq_nil_iff]
        intro r hr
        by_contra other
        refine unique.1 ?_
        rw [fixed empty, ← (h r (by simp [hr])).2 other]
        exact List.mem_map_of_mem hr
      simpa [rest] using short

/-- `SELECT ... ORDER BY ... LIMIT n`. -/
def orderedBy (le : α → α → Prop) [DecidableRel le] (rows : List α) : List α :=
  rows.insertionSort le

theorem mem_orderedBy {le : α → α → Prop} [DecidableRel le] {rows : List α} {row : α} :
    row ∈ orderedBy le rows ↔ row ∈ rows := (List.perm_insertionSort le rows).mem_iff

theorem nodup_orderedBy {le : α → α → Prop} [DecidableRel le] {rows : List α} :
    (orderedBy le rows).Nodup ↔ rows.Nodup := (List.perm_insertionSort le rows).nodup_iff

theorem nodup_map_orderedBy {le : α → α → Prop} [DecidableRel le] {rows : List α} {f : α → β} :
    ((orderedBy le rows).map f).Nodup ↔ (rows.map f).Nodup :=
  ((List.perm_insertionSort le rows).map f).nodup_iff

@[simp] theorem orderedBy_singleton (le : α → α → Prop) [DecidableRel le] (row : α) :
    orderedBy le [row] = [row] := rfl

/-- `SELECT max(column)` followed by the caller's "or zero". -/
def maximum (values : List Nat) : Nat := values.foldr max 0

@[simp] theorem maximum_nil : maximum [] = 0 := rfl

@[simp] theorem maximum_cons (n : Nat) (values : List Nat) :
    maximum (n :: values) = max n (maximum values) := rfl

theorem le_maximum {n : Nat} {values : List Nat} (h : n ∈ values) : n ≤ maximum values := by
  induction values with
  | nil => cases h
  | cons m values ih =>
    rcases List.mem_cons.mp h with rfl | h
    · exact Nat.le_max_left _ _
    · exact (ih h).trans (Nat.le_max_right _ _)

/-- The greatest of the numbers `first, …, first + count - 1`. -/
theorem maximum_range' (first count : Nat) :
    maximum (List.range' first count) = if count = 0 then 0 else first + count - 1 := by
  induction count generalizing first with
  | zero => rfl
  | succ count ih =>
    rw [List.range'_succ, maximum_cons, ih, if_neg (Nat.succ_ne_zero count)]
    split_ifs with h
    · subst h
      simp
    · rw [Nat.max_eq_right (by omega)]
      omega

/-! ## Numbered rows -/

/-- The rows are numbered `1, 2, …` in order. -/
def Numbered (number : α → Nat) (rows : List α) : Prop :=
  rows.map number = List.range' 1 rows.length

namespace Numbered
variable {number : α → Nat} {rows : List α}

theorem nil : Numbered number [] := rfl

theorem append (h : Numbered number rows) {row : α} (hn : number row = rows.length + 1) :
    Numbered number (rows ++ [row]) := by
  unfold Numbered at *
  rw [List.map_append, h, List.length_append, List.map_singleton, hn, List.length_singleton,
    List.range'_append_1.symm]
  simp [Nat.add_comm]

theorem updateWhere (h : Numbered number rows) {p : α → Bool} {f : α → α}
    (hf : ∀ row, p row = true → number (f row) = number row) :
    Numbered number (updateWhere p f rows) := by
  unfold Numbered at *
  rw [map_updateWhere rows hf, h]
  simp [Library.updateWhere]

theorem last {row : α} (h : Numbered number (rows ++ [row])) : number row = rows.length + 1 := by
  have numbers := congrArg List.getLast? h
  simpa [List.getLast?_range', Nat.add_comm] using numbers

/-- The next number after the greatest one is the next number. -/
theorem maximum_eq (h : Numbered number rows) : maximum (rows.map number) = rows.length := by
  rw [h, maximum_range']
  split_ifs <;> omega

theorem nodup (h : Numbered number rows) : (rows.map number).Nodup := by
  rw [h]
  exact List.nodup_range'

theorem pairwise_lt (h : Numbered number rows) : rows.Pairwise fun a b => number a < number b := by
  have increasing : (rows.map number).Pairwise (· < ·) := by
    rw [h]
    exact List.pairwise_lt_range' 1
  exact List.pairwise_map.mp increasing

theorem eq_of_number_eq (h : Numbered number rows) {a b : α} (ha : a ∈ rows) (hb : b ∈ rows)
    (hab : number a = number b) : a = b := List.inj_on_of_nodup_map h.nodup ha hb hab

/-- Rows sorted by their numbers are the rows in order, whatever order they are given in. -/
theorem orderedBy_eq (h : Numbered number rows) {given : List α} (hp : given.Perm rows) :
    orderedBy (fun a b => number a ≤ number b) given = rows := by
  have hs : rows.Pairwise fun a b => number a ≤ number b :=
    h.pairwise_lt.imp fun hlt => Nat.le_of_lt hlt
  have hg : (orderedBy (fun a b => number a ≤ number b) given).Perm rows :=
    (List.perm_insertionSort _ given).trans hp
  have : Std.Total fun a b : α => number a ≤ number b := ⟨fun a b => Nat.le_total _ _⟩
  have : IsTrans α fun a b : α => number a ≤ number b := ⟨fun a b c => Nat.le_trans⟩
  refine hg.eq_of_pairwise (fun a b ha hb hab hba => ?_) (List.pairwise_insertionSort _ _) hs
  exact h.eq_of_number_eq (hg.mem_iff.mp ha) hb (Nat.le_antisymm hab hba)

end Numbered

end Modall.Library
