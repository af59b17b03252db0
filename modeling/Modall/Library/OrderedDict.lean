import Mathlib

/-!
# Bounded ordered dictionaries

A dictionary that keeps the order in which its keys were set, as a list of entries with the oldest
first. Setting a key after taking it out makes it the newest; `trim` gives up the oldest entries.
-/
namespace Modall.Library.OrderedDict

variable {κ ν : Type} [DecidableEq κ]

/-- `dictionary.pop(key, None)`, without the value. -/
def erase (entries : List (κ × ν)) (key : κ) : List (κ × ν) :=
  entries.filter fun entry => decide (entry.1 ≠ key)

/-- `dictionary[key] = value` for a key that has been taken out: it becomes the newest. -/
def renew (entries : List (κ × ν)) (key : κ) (value : ν) : List (κ × ν) :=
  erase entries key ++ [(key, value)]

/-- `while len(dictionary) > bound: dictionary.popitem(last=False)`. -/
def trim (bound : Nat) (entries : List (κ × ν)) : List (κ × ν) :=
  entries.drop (entries.length - bound)

section trim
omit [DecidableEq κ]

lemma length_trim_le (bound : Nat) (entries : List (κ × ν)) :
    (trim bound entries).length ≤ bound := by
  simp only [trim, List.length_drop]
  omega

/-- The newest entries stay as long as they fit. -/
lemma trim_append {bound : Nat} {old new : List (κ × ν)} (h : new.length ≤ bound) :
    trim bound (old ++ new) = old.drop (old.length + new.length - bound) ++ new := by
  rw [trim, List.length_append, List.drop_append_of_le_length (by omega)]

lemma trim_subset (bound : Nat) (entries : List (κ × ν)) : trim bound entries ⊆ entries :=
  List.drop_subset _ _

end trim

lemma mem_erase {entries : List (κ × ν)} {key : κ} {entry : κ × ν} :
    entry ∈ erase entries key ↔ entry ∈ entries ∧ entry.1 ≠ key := by
  simp [erase]

lemma erase_append (a b : List (κ × ν)) (key : κ) :
    erase (a ++ b) key = erase a key ++ erase b key := List.filter_append ..

lemma erase_cons_of_ne {entries : List (κ × ν)} {entry : κ × ν} {key : κ} (h : entry.1 ≠ key) :
    erase (entry :: entries) key = entry :: erase entries key := by
  simp [erase, h]

lemma mem_renew {entries : List (κ × ν)} {key : κ} {value : ν} {entry : κ × ν} :
    entry ∈ renew entries key value ↔
      entry ∈ entries ∧ entry.1 ≠ key ∨ entry = (key, value) := by
  rw [renew, List.mem_append, mem_erase, List.mem_singleton]

lemma mem_keys_renew {entries : List (κ × ν)} {key k : κ} {value : ν} :
    k ∈ (renew entries key value).map Prod.fst ↔ k = key ∨ k ∈ entries.map Prod.fst := by
  simp only [List.mem_map, mem_renew]
  constructor
  · rintro ⟨entry, ⟨hmem, -⟩ | rfl, rfl⟩
    · exact .inr ⟨entry, hmem, rfl⟩
    · exact .inl rfl
  · rintro (rfl | ⟨entry, hmem, rfl⟩)
    · exact ⟨_, .inr rfl, rfl⟩
    · by_cases hkey : entry.1 = key
      · exact ⟨_, .inr rfl, hkey.symm⟩
      · exact ⟨entry, .inl ⟨hmem, hkey⟩, rfl⟩

lemma nodup_keys_renew {entries : List (κ × ν)} {key : κ} {value : ν}
    (h : (entries.map Prod.fst).Nodup) : ((renew entries key value).map Prod.fst).Nodup := by
  rw [renew, List.map_append, List.nodup_append]
  refine ⟨h.sublist (List.filter_sublist.map _), by simp, ?_⟩
  simp only [List.mem_map, mem_erase, List.map_cons, List.map_nil, List.mem_singleton]
  rintro _ ⟨entry, ⟨-, hne⟩, rfl⟩ _ rfl
  exact hne

/-- Renewing a key leaves the entries around another one in their order. -/
lemma renew_split {old new : List (κ × ν)} {entry : κ × ν} {key : κ} {value : ν}
    (h : entry.1 ≠ key) :
    renew (old ++ entry :: new) key value = erase old key ++ entry :: renew new key value := by
  rw [renew, erase_append, erase_cons_of_ne h, List.append_assoc, List.cons_append, renew]

lemma lookup_eq_some_of_split {before after : List (κ × ν)} {key : κ} {value : ν}
    (h : ∀ entry ∈ before, entry.1 ≠ key) :
    (before ++ (key, value) :: after).lookup key = some value := by
  induction before with
  | nil => simp
  | cons entry before ih =>
    have hne : (key == entry.1) = false := beq_eq_false_iff_ne.mpr (h entry (by simp)).symm
    obtain ⟨k, v⟩ := entry
    simp only [List.cons_append, List.lookup_cons, hne]
    exact ih fun e he => h e (by simp [he])

lemma lookup_eq_none_of_not_mem {entries : List (κ × ν)} {key : κ}
    (h : ∀ entry ∈ entries, entry.1 ≠ key) : entries.lookup key = none := by
  rw [List.lookup_eq_none_iff]
  intro entry he
  simpa using (h entry he).symm

end Modall.Library.OrderedDict
