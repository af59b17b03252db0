import Mathlib

/-!
# Keyset pagination

A listing is read page by page: each request asks for the rows after a cursor, in the order of
their keys and one more than it returns, and the extra row only tells whether there is a next
page. A row's `mark` is what a cursor remembers of it, `rank` orders the marks. Between two
requests the rows may change in any way that leaves the keys distinct.
-/
namespace Modall.Library.Keyset

structure Page (Row Cursor : Type) where
  items : List Row
  next : Option Cursor

/-- What a walk through the pages has returned, and whether it goes on. -/
inductive Status (Cursor : Type) where
  | running (cursor : Option Cursor)
  | ended
  | refused

structure Walk (Row Cursor : Type) where
  returned : List Row
  status : Status Cursor

section walk
variable {Row Cursor Error : Type}

/-- The next request of a walk. -/
def Walk.step (request : Option Cursor → Except Error (Page Row Cursor))
    (w : Walk Row Cursor) : Walk Row Cursor :=
  match w.status with
  | .running cursor =>
    match request cursor with
    | .ok page =>
      ⟨w.returned ++ page.items, match page.next with
        | some next => .running (some next)
        | none => .ended⟩
    | .error _ => ⟨w.returned, .refused⟩
  | _ => w

/-- A walk after its first `n` requests; `request n` is answered by the rows as they are then. -/
def walk (request : Nat → Option Cursor → Except Error (Page Row Cursor)) :
    Nat → Walk Row Cursor
  | 0 => ⟨[], .running none⟩
  | n + 1 => (walk request n).step (request n)

end walk

variable {Row Mark Key : Type} [LinearOrder Key] (rank : Mark → Key) (mark : Row → Mark)

/-- `WHERE key > cursor ORDER BY key`. -/
def listing (cursor : Option Mark) (rows : List Row) : List Row :=
  (rows.filter fun row => ∀ after ∈ cursor, rank after < rank (mark row)).insertionSort
    fun a b => rank (mark a) ≤ rank (mark b)

/-- `LIMIT limit + 1`, of which the last row is not returned. -/
def page (limit : Nat) (cursor : Option Mark) (rows : List Row) : Page Row Mark :=
  let fetched := (listing rank mark cursor rows).take (limit + 1)
  { items := fetched.take limit
    next := if limit < fetched.length then fetched[limit - 1]?.map mark else none }

section listing
variable {rank mark} {cursor : Option Mark} {rows : List Row} {limit : Nat} {row : Row}

lemma mem_listing :
    row ∈ listing rank mark cursor rows ↔
      row ∈ rows ∧ ∀ after ∈ cursor, rank after < rank (mark row) := by
  simp [listing]

/-- A listing is in strict order when the keys differ. -/
lemma listing_sorted (cursor : Option Mark)
    (distinct : (rows.map fun row => rank (mark row)).Nodup) :
    ((listing rank mark cursor rows).map fun row => rank (mark row)).Pairwise (· < ·) := by
  have hsorted : (listing rank mark cursor rows).Pairwise
      fun a b => rank (mark a) ≤ rank (mark b) := List.pairwise_insertionSort _ _
  have hnodup : ((listing rank mark cursor rows).map fun row => rank (mark row)).Nodup := by
    refine ((List.perm_insertionSort _ _).map _).nodup_iff.mpr ?_
    exact distinct.sublist (List.filter_sublist.map _)
  rw [List.Nodup, List.pairwise_map] at hnodup
  rw [List.pairwise_map]
  exact (hsorted.and hnodup).imp fun h => lt_of_le_of_ne h.1 h.2

lemma page_items :
    (page rank mark limit cursor rows).items = (listing rank mark cursor rows).take limit := by
  simp [page, List.take_take]

/-- The last page returns all that is left. -/
lemma page_next_none (hlimit : 1 ≤ limit)
    (h : (page rank mark limit cursor rows).next = none) :
    (page rank mark limit cursor rows).items = listing rank mark cursor rows := by
  rw [page_items]
  apply List.take_of_length_le
  simp only [page, List.length_take] at h
  split at h
  case isTrue hlt =>
    rw [List.getElem?_take, if_pos (by omega), List.getElem?_eq_getElem (by omega)] at h
    simp at h
  case isFalse hle => omega

/-- A page with a successor is full, and its last row is the next cursor. -/
lemma page_next_some (hlimit : 1 ≤ limit) {next : Mark}
    (h : (page rank mark limit cursor rows).next = some next) :
    ∃ before last after, listing rank mark cursor rows = before ++ last :: after ∧
      (page rank mark limit cursor rows).items = before ++ [last] ∧ next = mark last := by
  simp only [page, List.length_take] at h
  split at h
  case isFalse => simp at h
  case isTrue hlt =>
    have hindex : limit - 1 < (listing rank mark cursor rows).length := by omega
    rw [List.getElem?_take, if_pos (by omega), List.getElem?_eq_getElem hindex] at h
    refine ⟨(listing rank mark cursor rows).take (limit - 1),
      (listing rank mark cursor rows)[limit - 1], (listing rank mark cursor rows).drop limit,
      ?_, ?_, ?_⟩
    · have hdrop := List.drop_eq_getElem_cons hindex
      rw [Nat.sub_add_cancel hlimit] at hdrop
      rw [← hdrop, List.take_append_drop]
    · rw [page_items]
      have htake := List.take_succ_eq_append_getElem hindex
      rwa [Nat.sub_add_cancel hlimit] at htake
    · simpa using h.symm

end listing

/-! ## A walk over changing rows -/

/-- A request that is refused, or answered from the rows of the moment. -/
def answer {Error : Type} (limit : Nat) (refusal : Option Error) (rows : List Row)
    (cursor : Option Mark) : Except Error (Page Row Mark) :=
  match refusal with
  | some error => .error error
  | none => .ok (page rank mark limit cursor rows)

/-- A walk whose cursors are the marks themselves. -/
abbrev rowWalk {Error : Type} (limit : Nat) (refusal : Nat → Option Error)
    (rows : Nat → List Row) : Nat → Walk Row Mark :=
  walk fun n => answer rank mark limit (refusal n) (rows n)

/-- The keys that a walk has left behind. -/
def Status.Passed (key : Key) : Status Mark → Prop
  | .running none => False
  | .running (some cursor) => key ≤ rank cursor
  | .ended => True
  | .refused => False

/-- A walk of `n` requests over `rows`: what it has returned is in strict order, stems from the
rows of some request, lies behind the cursor, and misses no key that it has passed and that was
there at every request; while it runs, every request has returned something. -/
structure Walk.Valid (rows : Nat → List Row) (n : Nat) (w : Walk Row Mark) : Prop where
  sorted : (w.returned.map fun row => rank (mark row)).Pairwise (· < ·)
  found : ∀ row ∈ w.returned, ∃ i < n, row ∈ rows i
  behind : ∀ cursor, w.status = .running cursor →
    ∀ row ∈ w.returned, ∃ after ∈ cursor, rank (mark row) ≤ rank after
  complete : ∀ key, w.status.Passed rank key →
    (∀ i < n, key ∈ (rows i).map fun row => rank (mark row)) →
    key ∈ w.returned.map fun row => rank (mark row)
  productive : ∀ cursor, w.status = .running cursor → n ≤ w.returned.length

section walk
variable {rank mark} {Error : Type} {limit : Nat} {refusal : Nat → Option Error}
  {rows : Nat → List Row}

/-- What an answer adds: it is in order, comes after the cursor and stems from the rows. -/
lemma Walk.Valid.append {n : Nat} {w : Walk Row Mark} (valid : w.Valid rank mark rows n)
    {cursor : Option Mark} (hrun : w.status = .running cursor) {items rest : List Row}
    (hitems : listing rank mark cursor (rows n) = items ++ rest)
    (distinct : ((rows n).map fun row => rank (mark row)).Nodup) :
    ((w.returned ++ items).map fun row => rank (mark row)).Pairwise (· < ·) ∧
      ∀ row ∈ w.returned ++ items, ∃ i < n + 1, row ∈ rows i := by
  have hsorted := listing_sorted cursor distinct
  have hmem : ∀ row ∈ items, row ∈ listing rank mark cursor (rows n) := by
    intro row h
    rw [hitems]
    exact List.mem_append_left _ h
  rw [hitems, List.map_append, List.pairwise_append] at hsorted
  refine ⟨?_, ?_⟩
  · rw [List.map_append, List.pairwise_append]
    refine ⟨valid.sorted, hsorted.1, ?_⟩
    simp only [List.mem_map]
    rintro _ ⟨old, hold, rfl⟩ _ ⟨row, hrow, rfl⟩
    obtain ⟨after, hafter, hle⟩ := valid.behind cursor hrun old hold
    exact hle.trans_lt ((mem_listing.mp (hmem row hrow)).2 after hafter)
  · intro row h
    rcases List.mem_append.mp h with h | h
    · obtain ⟨i, hi, hrow⟩ := valid.found row h
      exact ⟨i, by omega, hrow⟩
    · exact ⟨n, by omega, (mem_listing.mp (hmem row h)).1⟩

/-- A key that is still to come is in the listing, or has been returned. -/
lemma Walk.Valid.reach {n : Nat} {w : Walk Row Mark} (valid : w.Valid rank mark rows n)
    {cursor : Option Mark} (hrun : w.status = .running cursor) {key : Key}
    (present : ∀ i < n + 1, key ∈ (rows i).map fun row => rank (mark row)) :
    key ∈ (w.returned ++ listing rank mark cursor (rows n)).map fun row => rank (mark row) := by
  by_cases hpassed : w.status.Passed rank key
  · rw [List.map_append, List.mem_append]
    exact .inl (valid.complete key hpassed fun i hi => present i (by omega))
  · obtain ⟨row, hrow, rfl⟩ := List.mem_map.mp (present n (by omega))
    refine List.mem_map_of_mem (List.mem_append_right _ (mem_listing.mpr ⟨hrow, ?_⟩))
    rintro after rfl
    simpa [hrun, Status.Passed] using hpassed

/-- One request keeps a walk valid. -/
lemma Walk.Valid.step {n : Nat} {w : Walk Row Mark} (valid : w.Valid rank mark rows n)
    (hlimit : 1 ≤ limit) (distinct : ((rows n).map fun row => rank (mark row)).Nodup) :
    (w.step (answer rank mark limit (refusal n) (rows n))).Valid rank mark rows (n + 1) := by
  have hlater : ∀ row ∈ w.returned, ∃ i < n + 1, row ∈ rows i := fun row h => by
    obtain ⟨i, hi, hrow⟩ := valid.found row h
    exact ⟨i, by omega, hrow⟩
  match hstatus : w.status with
  | .ended =>
    simp only [Walk.step, hstatus]
    exact ⟨valid.sorted, hlater, by simp [hstatus],
      fun key hpassed present => valid.complete key hpassed fun i hi => present i (by omega),
      by simp [hstatus]⟩
  | .refused =>
    simp only [Walk.step, hstatus]
    exact ⟨valid.sorted, hlater, by simp [hstatus], by simp [hstatus, Status.Passed],
      by simp [hstatus]⟩
  | .running cursor =>
    cases hrefusal : refusal n with
    | some error =>
      simp only [Walk.step, hstatus, answer]
      exact ⟨valid.sorted, hlater, by simp, by simp [Status.Passed], by simp⟩
    | none =>
      cases hnext : (page rank mark limit cursor (rows n)).next with
      | none =>
        have hitems := page_next_none hlimit hnext
        obtain ⟨hsorted, hfound⟩ := valid.append hstatus (List.append_nil _).symm distinct
        simp only [Walk.step, hstatus, answer, hnext, hitems]
        exact ⟨hsorted, hfound, by simp, fun key _ present => valid.reach hstatus present,
          by simp⟩
      | some next =>
        obtain ⟨before, last, after, hlisting, hitems, rfl⟩ := page_next_some hlimit hnext
        have hsplit : listing rank mark cursor (rows n) = (before ++ [last]) ++ after := by
          simpa using hlisting
        obtain ⟨hsorted, hfound⟩ := valid.append hstatus hsplit distinct
        simp only [Walk.step, hstatus, answer, hnext, hitems]
        refine ⟨hsorted, hfound, ?_, ?_, ?_⟩
        · intro cursor' hcursor row hrow
          obtain rfl : some (mark last) = cursor' := by simpa using hcursor
          refine ⟨mark last, rfl, ?_⟩
          rw [← List.append_assoc, List.map_append, List.pairwise_append] at hsorted
          rw [← List.append_assoc, List.mem_append, List.mem_singleton] at hrow
          rcases hrow with hrow | rfl
          · exact (hsorted.2.2 _ (List.mem_map_of_mem hrow) _ (by simp)).le
          · exact le_rfl
        · intro key hpassed present
          have hreach := valid.reach hstatus present
          have hrest := listing_sorted cursor distinct
          rw [hsplit, List.map_append, List.pairwise_append] at hrest
          rw [hsplit, ← List.append_assoc, List.map_append, List.mem_append] at hreach
          rcases hreach with hreach | hreach
          · exact hreach
          · -- what comes after the last row returned lies beyond the cursor
            have hlt := hrest.2.2 _ (List.mem_map_of_mem (List.mem_append_right _
              (List.mem_singleton_self last))) key hreach
            exact absurd hpassed (not_le_of_gt hlt)
        · intro cursor' _
          have := valid.productive cursor hstatus
          simp only [List.length_append, List.length_cons, List.length_nil]
          omega

/-- Every walk is valid, whatever happens to the rows between the requests. -/
theorem walk_valid (hlimit : 1 ≤ limit)
    (distinct : ∀ n, ((rows n).map fun row => rank (mark row)).Nodup) (n : Nat) :
    (rowWalk rank mark limit refusal rows n).Valid rank mark rows n := by
  induction n with
  | zero => exact ⟨.nil, by simp [walk], by simp [walk], by simp [walk, Status.Passed], by simp⟩
  | succ n ih => exact ih.step hlimit (distinct n)

/-- A walk that is not refused ends, when only finitely many keys ever appear. -/
theorem walk_ends (hlimit : 1 ≤ limit)
    (distinct : ∀ n, ((rows n).map fun row => rank (mark row)).Nodup)
    (finite : {key | ∃ n, key ∈ (rows n).map fun row => rank (mark row)}.Finite) :
    ∃ n, ∀ cursor, (rowWalk rank mark limit refusal rows n).status ≠
      .running cursor := by
  refine ⟨finite.toFinset.card + 1, fun cursor hrun => ?_⟩
  set w := rowWalk rank mark limit refusal rows (finite.toFinset.card + 1)
  have valid : w.Valid rank mark rows _ := walk_valid hlimit distinct _
  have hmany := valid.productive cursor hrun
  have hnodup : (w.returned.map fun row => rank (mark row)).Nodup := valid.sorted.imp ne_of_lt
  have hsub : (w.returned.map fun row => rank (mark row)).toFinset ⊆ finite.toFinset := by
    intro key hkey
    obtain ⟨row, hrow, rfl⟩ := List.mem_map.mp (List.mem_toFinset.mp hkey)
    obtain ⟨i, -, hi⟩ := valid.found row hrow
    exact finite.mem_toFinset.mpr ⟨i, List.mem_map_of_mem hi⟩
  have hcard := Finset.card_le_card hsub
  rw [List.toFinset_card_of_nodup hnodup, List.length_map] at hcard
  omega

/-- A walk is refused only by a refusal. -/
lemma walk_refused {n : Nat}
    (h : (rowWalk rank mark limit refusal rows n).status = .refused) :
    ∃ i < n, refusal i ≠ none := by
  induction n with
  | zero => simp [walk] at h
  | succ n ih =>
    by_cases hrefused :
        (rowWalk rank mark limit refusal rows n).status = .refused
    · obtain ⟨i, hi, hne⟩ := ih hrefused
      exact ⟨i, by omega, hne⟩
    · refine ⟨n, by omega, fun hnone => ?_⟩
      simp only [walk, Walk.step, answer, hnone] at h
      grind

end walk

/-! ## Encoded cursors -/

section encoded
variable {Cursor Error Id : Type}

def Page.encode (encode : Mark → Cursor) (page : Page Row Mark) : Page Row Cursor :=
  ⟨page.items, page.next.map encode⟩

def Walk.encode (encode : Mark → Cursor) (w : Walk Row Mark) : Walk Row Cursor where
  returned := w.returned
  status := match w.status with
    | .running cursor => .running (cursor.map encode)
    | .ended => .ended
    | .refused => .refused

/-- A listing route: it may refuse the request, decodes the cursor it is given, and answers with
the page after it and an encoded cursor for the next one. -/
def serve (encode : Mark → Cursor) (decode : Cursor → Except Error Mark) (limit : Nat)
    (refusal : Option Error) (rows : List Row) (cursor : Option Cursor) :
    Except Error (Page Row Cursor) :=
  match refusal with
  | some error => .error error
  | none =>
    match cursor with
    | none => .ok ((page rank mark limit none rows).encode encode)
    | some text =>
      match decode text with
      | .ok after => .ok ((page rank mark limit (some after) rows).encode encode)
      | .error error => .error error

/-- What a listing promises to those who follow its cursors, while the rows that match change:
the rows come in strict order, none comes twice, none that is there throughout is missed, only
rows that were there come, and the walk ends when only finitely many rows ever appear. Only a
refusal, which is decided before the cursor is looked at, can cut it short. -/
structure Exact [DecidableEq Id] (request : Nat → Option Cursor → Except Error (Page Row Cursor))
    (refusal : Nat → Option Error) (matching : Nat → List Row) (id : Row → Id)
    (key : Row → Key) : Prop where
  monotone : ∀ n, ((walk request n).returned.map key).Pairwise (· < ·)
  once : ∀ n, ((walk request n).returned.map id).Nodup
  found : ∀ n, ∀ row ∈ (walk request n).returned, ∃ i < n, row ∈ matching i
  complete : ∀ n, (walk request n).status = .ended → ∀ i, (∀ k < n, i ∈ (matching k).map id) →
    ((walk request n).returned.map id).count i = 1
  refused : ∀ n, (walk request n).status = .refused → ∃ i < n, refusal i ≠ none
  ends : {i | ∃ n, i ∈ (matching n).map id}.Finite →
    ∃ n, (walk request n).status = .ended ∨ ∃ i < n, refusal i ≠ none

variable {rank mark} {encode : Mark → Cursor} {decode : Cursor → Except Error Mark} {limit : Nat}
  {refusal : Nat → Option Error} {rows : Nat → List Row} {id : Row → Id}

lemma page_next_mem {cursor : Option Mark} {rows : List Row} {next : Mark}
    (h : (page rank mark limit cursor rows).next = some next) : ∃ row ∈ rows, mark row = next := by
  simp only [page] at h
  split at h
  · obtain ⟨row, hrow, rfl⟩ := Option.map_eq_some_iff.mp h
    have hmem := List.mem_of_mem_take (List.mem_of_getElem? hrow)
    exact ⟨row, (mem_listing.mp hmem).1, rfl⟩
  · simp at h

/-- A cursor of a walk is the mark of a row. -/
lemma walk_cursor {n : Nat} {cursor : Mark}
    (h : (rowWalk rank mark limit refusal rows n).status =
      .running (some cursor)) : ∃ i, ∃ row ∈ rows i, mark row = cursor := by
  induction n with
  | zero => simp [walk] at h
  | succ n ih =>
    have hpage : ∀ before, (page rank mark limit before (rows n)).next = some cursor →
        ∃ i, ∃ row ∈ rows i, mark row = cursor := fun _ hnext => ⟨n, page_next_mem hnext⟩
    simp only [walk, Walk.step, answer] at h
    grind

/-- With cursors that decode to what was encoded, a walk is the walk over the marks. -/
lemma walk_serve (roundTrip : ∀ i, ∀ row ∈ rows i, decode (encode (mark row)) = .ok (mark row))
    (n : Nat) :
    walk (fun n => serve rank mark encode decode limit (refusal n) (rows n)) n =
      (rowWalk rank mark limit refusal rows n).encode encode := by
  induction n with
  | zero => rfl
  | succ n ih =>
    have hstep : rowWalk rank mark limit refusal rows (n + 1) =
        (rowWalk rank mark limit refusal rows n).step
          (answer rank mark limit (refusal n) (rows n)) := rfl
    rw [walk, ih, hstep]
    set w := rowWalk rank mark limit refusal rows n with hw
    match hstatus : w.status with
    | .ended => simp [Walk.step, Walk.encode, hstatus]
    | .refused => simp [Walk.step, Walk.encode, hstatus]
    | .running cursor =>
      have hserve : serve rank mark encode decode limit (refusal n) (rows n) (cursor.map encode) =
          (answer rank mark limit (refusal n) (rows n) cursor).map (Page.encode encode) := by
        cases hrefusal : refusal n with
        | some error => rfl
        | none =>
          cases cursor with
          | none => rfl
          | some cursor =>
            obtain ⟨i, row, hrow, rfl⟩ := walk_cursor (hw ▸ hstatus)
            simp [serve, answer, roundTrip i row hrow, Except.map]
      simp only [Walk.step, Walk.encode, hstatus, hserve]
      cases answer rank mark limit (refusal n) (rows n) cursor with
      | error error => rfl
      | ok page =>
        cases hnext : page.next <;> simp [Except.map, Page.encode, hnext]

omit [LinearOrder Key] in
/-- Finitely many rows have finitely many keys. -/
lemma finite_keys (stable : ∀ i j, ∀ row ∈ rows i, ∀ row' ∈ rows j,
      id row = id row' ↔ rank (mark row) = rank (mark row'))
    (finite : {i | ∃ n, i ∈ (rows n).map id}.Finite) :
    {key | ∃ n, key ∈ (rows n).map fun row => rank (mark row)}.Finite := by
  classical
  -- the key of a row is a function of its identity
  let keyOf (i : Id) : Option Key :=
    if h : ∃ row, (∃ n, row ∈ rows n) ∧ id row = i then some (rank (mark h.choose)) else none
  refine Set.Finite.of_finite_image ((finite.image keyOf).subset ?_)
    (Option.some_injective Key).injOn
  rintro _ ⟨_, ⟨n, hkey⟩, rfl⟩
  obtain ⟨row, hrow, rfl⟩ := List.mem_map.mp hkey
  have hex : ∃ other, (∃ n, other ∈ rows n) ∧ id other = id row := ⟨row, ⟨n, hrow⟩, rfl⟩
  refine ⟨id row, ⟨n, List.mem_map_of_mem hrow⟩, ?_⟩
  obtain ⟨m, hm⟩ := hex.choose_spec.1
  simp only [keyOf, dif_pos hex]
  rw [(stable m n _ hm _ hrow).mp hex.choose_spec.2]

/-- What was there throughout a walk that has ended is among what it returned. -/
lemma mem_returned {n : Nat} {w : Walk Row Mark} (stable : ∀ i j, ∀ row ∈ rows i,
      ∀ row' ∈ rows j, id row = id row' ↔ rank (mark row) = rank (mark row'))
    (valid : w.Valid rank mark rows n) (hended : w.status = .ended) {i : Id} (hn : 0 < n)
    (present : ∀ k < n, i ∈ (rows k).map id) : i ∈ w.returned.map id := by
  obtain ⟨first, hfirst, rfl⟩ := List.mem_map.mp (present 0 hn)
  have hkey : ∀ k < n, rank (mark first) ∈ (rows k).map fun row => rank (mark row) := by
    intro k hk
    obtain ⟨row, hrow, hid⟩ := List.mem_map.mp (present k hk)
    exact List.mem_map.mpr ⟨row, hrow, (stable k 0 row hrow first hfirst).mp hid⟩
  have hreturned := valid.complete _ (by simp [hended, Status.Passed]) hkey
  obtain ⟨row, hrow, heq⟩ := List.mem_map.mp hreturned
  obtain ⟨j, -, hj⟩ := valid.found row hrow
  exact List.mem_map.mpr ⟨row, hrow, (stable j 0 row hj first hfirst).mpr heq⟩

/-- A listing whose cursors can be decoded keeps its promise. -/
theorem serve_exact [DecidableEq Id] (hlimit : 1 ≤ limit)
    (distinct : ∀ n, ((rows n).map id).Nodup)
    (stable : ∀ i j, ∀ row ∈ rows i, ∀ row' ∈ rows j,
      id row = id row' ↔ rank (mark row) = rank (mark row'))
    (roundTrip : ∀ i, ∀ row ∈ rows i, decode (encode (mark row)) = .ok (mark row)) :
    Exact (fun n => serve rank mark encode decode limit (refusal n) (rows n)) refusal rows id
      fun row => rank (mark row) := by
  have hkeys : ∀ n, ((rows n).map fun row => rank (mark row)).Nodup := by
    intro n
    have h := distinct n
    rw [List.Nodup, List.pairwise_map] at h ⊢
    exact h.imp_of_mem fun ha hb hne heq => hne ((stable n n _ ha _ hb).mpr heq)
  have hvalid : ∀ n, (rowWalk rank mark limit refusal rows n).Valid
      rank mark rows n := walk_valid hlimit hkeys
  have honce : ∀ n, ((rowWalk rank mark limit refusal rows n).returned.map
      id).Nodup := by
    intro n
    have h := (hvalid n).sorted
    rw [List.pairwise_map] at h
    rw [List.Nodup, List.pairwise_map]
    refine h.imp_of_mem fun ha hb hlt heq => ?_
    obtain ⟨i, -, hi⟩ := (hvalid n).found _ ha
    obtain ⟨j, -, hj⟩ := (hvalid n).found _ hb
    exact hlt.ne ((stable i j _ hi _ hj).mp heq)
  refine ⟨fun n => ?_, fun n => ?_, fun n => ?_, fun n => ?_, fun n => ?_, fun hfinite => ?_⟩
  · rw [walk_serve roundTrip]
    exact (hvalid n).sorted
  · rw [walk_serve roundTrip]
    exact honce n
  · rw [walk_serve roundTrip]
    exact (hvalid n).found
  · rw [walk_serve roundTrip]
    intro hended i present
    apply List.count_eq_one_of_mem (honce n)
    have hstatus : (rowWalk rank mark limit refusal rows n).status = .ended := by
      simp only [Walk.encode] at hended
      grind
    have hn : 0 < n := by
      rcases Nat.eq_zero_or_pos n with rfl | hn
      · simp [walk] at hstatus
      · exact hn
    exact mem_returned stable (hvalid n) hstatus hn present
  · rw [walk_serve roundTrip]
    intro hrefused
    have hstatus : (rowWalk rank mark limit refusal rows n).status = .refused := by
      simp only [Walk.encode] at hrefused
      grind
    exact walk_refused hstatus
  · have hends : ∃ n, ∀ cursor, (rowWalk rank mark limit refusal rows n).status ≠
        .running cursor := walk_ends hlimit hkeys (finite_keys stable hfinite)
    obtain ⟨n, hn⟩ := hends
    refine ⟨n, ?_⟩
    rw [walk_serve roundTrip]
    match hstatus : (rowWalk rank mark limit refusal rows n).status with
    | .running cursor => exact absurd hstatus (hn cursor)
    | .ended => exact .inl (by simp [Walk.encode, hstatus])
    | .refused => exact .inr (walk_refused hstatus)

end encoded

end Modall.Library.Keyset
