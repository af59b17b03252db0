import Mathlib
import Modall.Registry.Imports
import Modall.Library.Transactions

/-!
# The search cache of a workspace

`OfficialRegistryService` caches what a search finds. A search reads the cache without the
workspace's row lock, asks the registry on a miss, and reads again under the lock before it counts
the cached rows and adds its own. A cached row that is not valid is deleted, and deleted again should
the transaction be rolled back.

The calls are scripts on the table of cached rows: what they read of other tables decides only
whether they go on. A refused role, a failing statement and the time limit end a transaction as a
rollback does, which may happen at any moment.
-/
namespace Modall.Registry.Official

open Library Library.Json Library.Transactions Library.Transactions.Script

abbrev CacheScript := Script RegistrySearchCache Time OfficialRegistryFailureCode

/-- What the registry and the scanner processes answer a search. -/
structure SearchCall where
  workspaceId : Uuid
  query : Text
  scanQuery : Text → Except OfficialRegistryFailureCode Bool
  /-- `_search_screened`. -/
  searchScreened : Text → Except OfficialRegistryFailureCode (List OfficialRegistryItem)
  scanUnlocked : Value → Except OfficialRegistryFailureCode Bool
  scanRejected : Value → Except OfficialRegistryFailureCode Bool
  scanLocked : Value → Except OfficialRegistryFailureCode Bool
  cacheId : Uuid

structure OfficialRegistrySearchResult where
  cacheId : Uuid
  items : List OfficialRegistryItem
  fetchedAt : Time
  expiresAt : Time
  fromCache : Bool

/-- What `_read_cache` returns: a result, a cache that is not valid, or neither. -/
inductive CacheReading where
  | accepted (result : OfficialRegistrySearchResult)
  | rejected (cache : RegistrySearchCache)
  | missing

/-- `_screen_query`. -/
def screenQuery (limits : OfficialRegistryLimits)
    (scan : Text → Except OfficialRegistryFailureCode Bool) (query : Text) :
    Except OfficialRegistryFailureCode Text := do
  if strip query = [] ∨ limits.maxQueryCharacters < query.length ∨
      (query.any fun c => decide (c < 32) || c == 127) = true then
    throw .invalidQuery
  if isUtf8 (strip query) = false then throw .invalidQuery
  if ← scan (strip query) then throw .unsafeQuery
  return strip query

/-- The rows `_read_cache` looks for. -/
def readable (limits : OfficialRegistryLimits) (workspaceId : Uuid) (queryDigest : Text)
    (now : Time) (cache : RegistrySearchCache) : Bool :=
  cache.workspaceId == workspaceId && cache.queryDigest == queryDigest &&
    decide (now < cache.expiresAt) && decide (now - limits.cacheTtl < cache.fetchedAt) &&
    decide (cache.byteCount ≤ limits.maxResponseBytes)

/-- `ORDER BY fetched_at DESC, id DESC`. -/
def latestFirst (a b : RegistrySearchCache) : Prop :=
  b.fetchedAt < a.fetchedAt ∨ b.fetchedAt = a.fetchedAt ∧ b.id ≤ a.id

instance : DecidableRel latestFirst := fun _ _ => inferInstanceAs (Decidable (_ ∨ _ ∧ _))

/-- `_result`. -/
def searchResult (cache : RegistrySearchCache) (items : List OfficialRegistryItem)
    (fromCache : Bool) : OfficialRegistrySearchResult :=
  ⟨cache.id, items, cache.fetchedAt, cache.expiresAt, fromCache⟩

section scripts
variable (P : OfficialPlatform) (limits : OfficialRegistryLimits)

/-- The checks of a cached row whose items are parsed. -/
def validCache (cache : RegistrySearchCache) (items : List OfficialRegistryItem)
    (validatedAt : Time) : Except OfficialRegistryFailureCode Bool := do
  let encoded ← canonicalJson P cache.normalizedResults
  let responseDigest ← digest P cache.normalizedResults
  return decide (items.length = cache.resultCount) && decide (encoded.length = cache.byteCount) &&
    decide (responseDigest = cache.responseDigest) && decide (validatedAt < cache.expiresAt) &&
    decide (validatedAt - limits.cacheTtl < cache.fetchedAt)

/-- `_read_cache`. -/
def readCache (scan : Value → Except OfficialRegistryFailureCode Bool) (workspaceId : Uuid)
    (queryDigest : Text) (now : Time) : CacheScript CacheReading := do
  let rows ← select
  match (orderedBy latestFirst (rows.filter (readable limits workspaceId queryDigest now))).head? with
  | none => return .missing
  | some cache =>
    match parseCachedItems P limits scan cache.normalizedResults with
    | .error _ => return .rejected cache
    | .ok items => do
      let validatedAt ← clock
      match validCache P limits cache items validatedAt with
      | .ok true => return .accepted (searchResult cache items true)
      | _ => return .rejected cache

/-- `_purge_rejected_cache`. -/
def purgeRejected (workspaceId : Uuid) (cache : RegistrySearchCache) : CacheScript Unit := do
  registerAfterRollback fun other => other.id == cache.id && other.workspaceId == workspaceId
  deleteWhere fun other => other.id == cache.id

/-- `_purge_expired_workspace_cache` under all of the limits. -/
def purgeExpired (workspaceId : Uuid) (now : Time) : CacheScript Unit :=
  deleteWhere fun cache => cache.workspaceId == workspaceId &&
    (decide (cache.expiresAt ≤ now) || decide (cache.fetchedAt ≤ now - limits.cacheTtl) ||
      decide (limits.maxResponseBytes < cache.byteCount) ||
      decide (limits.maxItems < cache.resultCount))

/-- The rows of a workspace. -/
def ownCaches (workspaceId : Uuid) (rows : List RegistrySearchCache) : List RegistrySearchCache :=
  rows.filter fun cache => cache.workspaceId == workspaceId

/-- The end of `_search_authorized`: count the workspace's rows and add the one for the query. -/
def addCache (call : SearchCall) (queryDigest : Text) (items : List OfficialRegistryItem)
    (normalizedResults : Value) (normalizedBytes : ByteString) (fetchedAt : Time) :
    CacheScript OfficialRegistrySearchResult := do
  let rows ← select
  let own := ownCaches call.workspaceId rows
  if limits.maxWorkspaceCacheRows ≤ own.length ∨
      limits.maxWorkspaceCacheBytes < (own.map (·.byteCount)).sum + normalizedBytes.length then
    fail .responseLimit
  else do
    let responseDigest ← attempt (digest P normalizedResults)
    let cache : RegistrySearchCache := {
      id := call.cacheId
      workspaceId := call.workspaceId
      queryDigest := queryDigest
      responseDigest := responseDigest
      normalizedResults := normalizedResults
      resultCount := items.length
      byteCount := normalizedBytes.length
      fetchedAt := fetchedAt
      expiresAt := fetchedAt + limits.cacheTtl }
    add cache
    return searchResult cache items false

/-- `_search_authorized` from its second look at the cache on. -/
def storeResults (call : SearchCall) (queryDigest : Text) (items : List OfficialRegistryItem)
    (normalizedResults : Value) (normalizedBytes : ByteString) :
    CacheScript OfficialRegistrySearchResult := do
  let fetchedAt ← clock
  purgeExpired limits call.workspaceId fetchedAt
  match ← readCache P limits call.scanLocked call.workspaceId queryDigest fetchedAt with
  | .accepted result => return result
  | .rejected cache => do
    purgeRejected call.workspaceId cache
    addCache P limits call queryDigest items normalizedResults normalizedBytes fetchedAt
  | .missing => addCache P limits call queryDigest items normalizedResults normalizedBytes fetchedAt

/-- The metadata of the items as it is stored, and its canonical bytes. -/
def normalizeResults (items : List OfficialRegistryItem) :
    Except OfficialRegistryFailureCode (Value × ByteString) := do
  let metadata := Value.list (items.map (·.normalizedMetadata))
  let _ ← canonicalJson P metadata
  let normalizedResults := metadata.sorted P.floatText
  let normalizedBytes ← canonicalJson P normalizedResults
  if limits.maxResponseBytes < normalizedBytes.length ∨ isBoundedJson normalizedResults = false then
    throw .responseLimit
  return (normalizedResults, normalizedBytes)

/-- `_search_authorized` from the search of the registry on. -/
def fetchResults (call : SearchCall) (normalizedQuery queryDigest : Text)
    (workspaceLocked : Bool) : CacheScript OfficialRegistrySearchResult := do
  let items ← attempt (call.searchScreened normalizedQuery)
  let (normalizedResults, normalizedBytes) ← attempt (normalizeResults P limits items)
  if workspaceLocked then
    storeResults P limits call queryDigest items normalizedResults normalizedBytes
  else do
    acquire
    storeResults P limits call queryDigest items normalizedResults normalizedBytes

def searchAuthorized (call : SearchCall) : CacheScript OfficialRegistrySearchResult := do
  let normalizedQuery ← attempt (screenQuery limits call.scanQuery call.query)
  let queryDigest := P.sha256 ((encode normalizedQuery).getD [])
  let now ← clock
  match ← readCache P limits call.scanUnlocked call.workspaceId queryDigest now with
  | .accepted result => return result
  | .missing => fetchResults P limits call normalizedQuery queryDigest false
  | .rejected _ => do
    acquire
    let lockedAt ← clock
    match ← readCache P limits call.scanRejected call.workspaceId queryDigest lockedAt with
    | .accepted result => return result
    | .missing => fetchResults P limits call normalizedQuery queryDigest true
    | .rejected cache => do
      purgeRejected call.workspaceId cache
      fetchResults P limits call normalizedQuery queryDigest true

/-- `import_cached` up to the item it picks; the rest does not touch the cached rows. -/
def importCachedItem (call : ImportCall) : CacheScript OfficialRegistryItem := do
  let workspaceId := call.context.workspaceId
  acquire
  if call.provenanceDigest.length ≠ 64 ∨
      (call.provenanceDigest.any fun c => !Text.among "0123456789abcdef" c) = true then
    fail .cacheMiss
  else do
    let now ← clock
    purgeExpired limits workspaceId now
    let rows ← select
    let cache ← attempt (requireCache P (rows.find? fun cache =>
      cache.id == call.cacheId && cache.workspaceId == workspaceId &&
        decide (now < cache.expiresAt) && decide (now - limits.cacheTtl < cache.fetchedAt) &&
        decide (cache.byteCount ≤ limits.maxResponseBytes)))
    match parseCachedItems P limits call.scan cache.normalizedResults with
    | .error code => do
      purgeRejected workspaceId cache
      fail code
    | .ok items => do
      let validatedAt ← clock
      if cache.expiresAt ≤ validatedAt ∨ cache.fetchedAt ≤ validatedAt - limits.cacheTtl then
        fail .cacheMiss
      else match items.find? fun candidate =>
          candidate.provenanceDigest == call.provenanceDigest with
        | none => fail .cacheMiss
        | some item => return item

end scripts

/-- `ORDER BY expires_at, id`. -/
def expiredFirst (a b : RegistrySearchCache) : Prop :=
  a.expiresAt < b.expiresAt ∨ a.expiresAt = b.expiresAt ∧ a.id ≤ b.id

instance : DecidableRel expiredFirst := fun _ _ => inferInstanceAs (Decidable (_ ∨ _ ∧ _))

/-- `purge_expired_registry_cache`; the rows that others have locked are skipped. -/
def purgeExpiredRegistryCache (now : Option Time) (batchSize : Nat) (locked : Uuid → Bool) :
    CacheScript Unit := do
  let read ← clock
  let cutoff := now.getD read
  let rows ← select
  let expired := rows.filter fun cache => decide (cache.expiresAt ≤ cutoff) && !locked cache.id
  let expiredIds := ((orderedBy expiredFirst expired).take batchSize).map (·.id)
  deleteWhere fun cache => expiredIds.contains cache.id

/-! ## The system -/

/-- The calls of one workspace, and the purge that all workspaces share. -/
inductive CacheCall (P : OfficialPlatform) (limits : OfficialRegistryLimits) (workspaceId : Uuid) :
    CacheScript Unit → Prop where
  | search (call : SearchCall) : call.workspaceId = workspaceId →
      CacheCall P limits workspaceId do
        let _ ← searchAuthorized P limits call
        return ()
  | importCached (call : ImportCall) : call.context.workspaceId = workspaceId →
      CacheCall P limits workspaceId do
        let _ ← importCachedItem P limits call
        return ()
  | purge (now : Option Time) (batchSize : Nat) (locked : Uuid → Bool) : batchSize ≤ 500 →
      CacheCall P limits workspaceId (purgeExpiredRegistryCache now batchSize locked)

/-- The workspace keeps to its quotas, and at most one row answers a query. -/
structure WithinQuotas (limits : OfficialRegistryLimits) (workspaceId : Uuid)
    (rows : List RegistrySearchCache) (now : Time) : Prop where
  rows_le : (ownCaches workspaceId rows).length ≤ limits.maxWorkspaceCacheRows
  bytes_le : ((ownCaches workspaceId rows).map (·.byteCount)).sum ≤ limits.maxWorkspaceCacheBytes
  readable_le : ∀ queryDigest,
    (rows.filter (readable limits workspaceId queryDigest now)).length ≤ 1

namespace WithinQuotas

variable {limits : OfficialRegistryLimits} {workspaceId : Uuid}

lemma readable_mono {queryDigest : Text} {t u : Time} (hle : t ≤ u) {cache : RegistrySearchCache}
    (h : readable limits workspaceId queryDigest u cache = true) :
    readable limits workspaceId queryDigest t cache = true := by
  simp only [readable, Bool.and_eq_true, decide_eq_true_eq] at h ⊢
  obtain ⟨⟨⟨hrow, hexpires⟩, hfetched⟩, hbytes⟩ := h
  exact ⟨⟨⟨hrow, lt_of_le_of_lt hle hexpires⟩,
    lt_of_le_of_lt (Int.sub_le_sub_right hle _) hfetched⟩, hbytes⟩

lemma ownCaches_sublist {rows rows' : List RegistrySearchCache} (h : rows'.Sublist rows) :
    (ownCaches workspaceId rows').Sublist (ownCaches workspaceId rows) := h.filter _

lemma bytes_mono {rows rows' : List RegistrySearchCache} (h : rows'.Sublist rows) :
    (rows'.map (·.byteCount)).sum ≤ (rows.map (·.byteCount)).sum :=
  (h.map _).sum_le_sum fun _ _ => Nat.zero_le _

/-- Rows age and are deleted: neither breaks the quotas. -/
lemma lasting : Lasting (WithinQuotas limits workspaceId) where
  later h hle := ⟨h.rows_le, h.bytes_le, fun queryDigest =>
    (List.Sublist.length_le (List.monotone_filter_right _ fun _ => readable_mono hle)).trans
      (h.readable_le queryDigest)⟩
  fewer h hrows := ⟨(ownCaches_sublist hrows).length_le.trans h.rows_le,
    (bytes_mono (ownCaches_sublist hrows)).trans h.bytes_le, fun queryDigest =>
      (hrows.filter _).length_le.trans (h.readable_le queryDigest)⟩

end WithinQuotas

/-! ### The scripts are safe -/

section safe
variable {P : OfficialPlatform} {limits : OfficialRegistryLimits} {W : Uuid} {queryDigest : Text}
  {now : Time} {s t u : Point RegistrySearchCache Uuid Time}

/-- What a reading says of the rows it was taken of. -/
def CacheReading.Of (rows : List RegistrySearchCache) : CacheReading → Prop
  | .accepted _ => True
  | .rejected cache => cache ∈ rows
  | .missing => rows = []

lemma wp_readCache {scan : Value → Except OfficialRegistryFailureCode Bool}
    {inv : List RegistrySearchCache → Time → Prop}
    {post : CacheReading → Point RegistrySearchCache Uuid Time → Prop}
    (h : ∀ t u reading, Rely inv s t → Rely inv t u →
      reading.Of ((t.changes.view (·.id) t.rows).filter (readable limits W queryDigest now)) →
      post reading u) :
    (readCache P limits scan W queryDigest now).wp (·.id) inv post s := by
  rw [readCache, wp_bind, wp_select]
  intro t ht
  split
  case h_1 hhead =>
    refine h t t .missing ht ht.again ?_
    rw [List.head?_eq_none_iff] at hhead
    simpa only [CacheReading.Of, List.eq_nil_iff_forall_not_mem, mem_orderedBy] using hhead
  case h_2 cache hhead =>
    have hcache : cache ∈ (t.changes.view (·.id) t.rows).filter
        (readable limits W queryDigest now) := mem_orderedBy.mp (List.mem_of_head? hhead)
    split
    · exact h t t (.rejected cache) ht ht.again hcache
    · rw [wp_bind, wp_clock]
      intro u hu
      split
      · exact h t u (.accepted _) ht hu trivial
      · exact h t u (.rejected cache) ht hu hcache

/-- Under the lock and with nothing inserted, the rows that are seen can only become fewer. -/
lemma view_sublist (hrely : Rely (WithinQuotas limits W) s t) (hheld : s.held = true) :
    (t.changes.view (·.id) t.rows).Sublist (s.changes.view (·.id) s.rows) := by
  rw [hrely.changes]
  exact Changes.view_mono _ (hrely.sublist hheld)

/-- The search may insert its row: no row it sees answered the query at its reading of the clock. -/
structure Vacant (limits : OfficialRegistryLimits) (W : Uuid) (queryDigest : Text) (now : Time)
    (s : Point RegistrySearchCache Uuid Time) : Prop where
  held : s.held = true
  inserted : s.changes.inserted = []
  le_clock : now ≤ s.clock
  vacant : ∀ cache ∈ s.changes.view (·.id) s.rows, readable limits W queryDigest now cache = false

lemma Vacant.rely (h : Vacant limits W queryDigest now s)
    (hrely : Rely (WithinQuotas limits W) s t) : Vacant limits W queryDigest now t where
  held := hrely.held.trans h.held
  inserted := by rw [hrely.changes, h.inserted]
  le_clock := h.le_clock.trans hrely.clock
  vacant cache hcache := h.vacant cache ((view_sublist hrely h.held).mem hcache)

/-- The new row leaves the quotas kept, whatever is deleted meanwhile. -/
lemma committable_add (h : Vacant limits W queryDigest now s) {cache : RegistrySearchCache}
    (hworkspace : cache.workspaceId = W) (hdigest : cache.queryDigest = queryDigest)
    (hrows : (ownCaches W (s.changes.view (·.id) s.rows)).length < limits.maxWorkspaceCacheRows)
    (hbytes : ((ownCaches W (s.changes.view (·.id) s.rows)).map (·.byteCount)).sum +
      cache.byteCount ≤ limits.maxWorkspaceCacheBytes) :
    Committable (·.id) (WithinQuotas limits W)
      { s with changes.inserted := s.changes.inserted ++ [cache] } := by
  intro t ht
  refine ⟨?_, fun hfree => absurd h.held (by simp [show s.held = false from hfree])⟩
  have hview : t.changes.view (·.id) t.rows = s.changes.view (·.id) t.rows ++ [cache] := by
    rw [ht.changes]
    simp [Changes.view]
  have hsub : (s.changes.view (·.id) t.rows).Sublist (s.changes.view (·.id) s.rows) :=
    Changes.view_mono _ (ht.sublist h.held)
  have hold : (s.changes.view (·.id) t.rows).Sublist t.rows := Changes.view_of_nil h.inserted _
  have hown : ownCaches W [cache] = [cache] := by simp [ownCaches, hworkspace]
  have hsplit : ownCaches W (t.changes.view (·.id) t.rows) =
      ownCaches W (s.changes.view (·.id) t.rows) ++ [cache] := by
    rw [hview, ownCaches, List.filter_append]
    exact congrArg _ hown
  have hownsub : (ownCaches W _).Sublist (ownCaches W _) := WithinQuotas.ownCaches_sublist hsub
  refine ⟨?_, ?_, fun digest' => ?_⟩
  · have := hownsub.length_le
    rw [hsplit, List.length_append, List.length_singleton]
    omega
  · have := WithinQuotas.bytes_mono hownsub
    rw [hsplit, List.map_append, List.sum_append]
    simp only [List.map_cons, List.map_nil, List.sum_cons, List.sum_nil]
    omega
  · rw [hview, List.filter_append, List.length_append]
    by_cases hsame : digest' = queryDigest
    · have hnone : (s.changes.view (·.id) t.rows).filter
          (readable limits W digest' t.clock) = [] := by
        rw [List.filter_eq_nil_iff]
        intro row hrow hreadable
        have := h.vacant row (hsub.mem hrow)
        rw [← hsame, WithinQuotas.readable_mono (h.le_clock.trans ht.clock) hreadable] at this
        cases this
      rw [hnone]
      simpa using List.length_filter_le _ [cache]
    · have hother : readable limits W digest' t.clock cache = false := by
        simp [readable, hdigest, Ne.symm hsame]
      rw [List.filter_singleton, hother]
      simpa using (hold.filter _).length_le.trans (ht.inv.readable_le digest')

lemma safe_addCache {call : SearchCall} {items : List OfficialRegistryItem} {results : Value}
    {bytes : ByteString} (h : Vacant limits call.workspaceId queryDigest now s) :
    (addCache P limits call queryDigest items results bytes now).wp (·.id)
      (WithinQuotas limits call.workspaceId)
      (fun _ => Committable (·.id) (WithinQuotas limits call.workspaceId)) s := by
  rw [addCache, wp_bind, wp_select]
  intro t ht
  have hvacant := h.rely ht
  dsimp only
  split
  · trivial
  case isFalse hquota =>
    rw [not_or, Nat.not_le, Nat.not_lt] at hquota
    rw [wp_bind]
    refine wp_attempt fun responseDigest _ => ?_
    rw [wp_bind, wp_add]
    refine ⟨hvacant.held, fun u hu => ?_⟩
    have hsub : (ownCaches call.workspaceId _).Sublist (ownCaches call.workspaceId _) :=
      WithinQuotas.ownCaches_sublist (view_sublist hu hvacant.held)
    have hlength := hsub.length_le
    have hsum := WithinQuotas.bytes_mono hsub
    refine committable_add (hvacant.rely hu) rfl rfl ?_ ?_
    · exact lt_of_le_of_lt hlength hquota.1
    · exact (Nat.add_le_add_right hsum _).trans hquota.2

/-- A transaction that has inserted nothing may return. -/
lemma committable_of_nil (h : s.changes.inserted = []) :
    Committable (·.id) (WithinQuotas limits W) s := .of_nil WithinQuotas.lasting h

/-- Once a rejected row is deleted, no row answers the query: there was one at most. -/
lemma vacant_of_rejected (hheld : s.held = true) (hinserted : s.changes.inserted = [])
    (hclock : now ≤ s.clock) {cache : RegistrySearchCache} {rows : List RegistrySearchCache}
    (hone : (rows.filter (readable limits W queryDigest now)).length ≤ 1)
    (hcache : cache ∈ rows.filter (readable limits W queryDigest now))
    (hsub : (s.changes.view (·.id) s.rows).Sublist rows) :
    Vacant limits W queryDigest now
      { s with changes := s.changes.deleteWhere (·.id) s.rows fun other => other.id == cache.id } := by
  refine ⟨hheld, Changes.deleteWhere_of_nil hinserted _ _, hclock, fun other hother => ?_⟩
  obtain ⟨hseen, hkept⟩ := Changes.mem_view_deleteWhere hother
  by_contra hreadable
  have hfound : other ∈ rows.filter (readable limits W queryDigest now) :=
    List.mem_filter.mpr ⟨hsub.mem hseen, by simpa using hreadable⟩
  have hsame : other = cache := by
    obtain ⟨single, hsingle⟩ := List.length_eq_one_iff.mp
      (le_antisymm hone (List.length_pos_of_mem hcache))
    rw [hsingle, List.mem_singleton] at hfound hcache
    rw [hfound, hcache]
  rw [hsame] at hkept
  simp at hkept

lemma safe_storeResults {call : SearchCall} {items : List OfficialRegistryItem} {results : Value}
    {bytes : ByteString} (hheld : s.held = true) (hinserted : s.changes.inserted = []) :
    (storeResults P limits call queryDigest items results bytes).wp (·.id)
      (WithinQuotas limits call.workspaceId)
      (fun _ => Committable (·.id) (WithinQuotas limits call.workspaceId)) s := by
  rw [storeResults, wp_bind, wp_clock]
  intro t ht
  rw [wp_bind, purgeExpired, wp_deleteWhere]
  intro u hu
  rw [wp_bind]
  refine wp_readCache fun v w reading hv hw hreading => ?_
  have hheldt : t.held = true := ht.held.trans hheld
  have hheldv : v.held = true := hv.held.trans (hu.held.trans hheldt)
  have hnonev : v.changes.inserted = [] := by
    rw [hv.changes]
    exact Changes.deleteWhere_of_nil (by rw [hu.changes, ht.changes, hinserted]) _ _
  have hone : ((v.changes.view (·.id) v.rows).filter
      (readable limits call.workspaceId queryDigest t.clock)).length ≤ 1 := by
    have hrows : (v.changes.view (·.id) v.rows).Sublist t.rows :=
      (Changes.view_of_nil hnonev v.rows).trans
        ((hv.sublist (hu.held.trans hheldt)).trans (hu.sublist hheldt))
    exact (hrows.filter _).length_le.trans (ht.inv.readable_le queryDigest)
  have hclock : t.clock ≤ w.clock := hu.clock.trans (hv.clock.trans hw.clock)
  have hheldw : w.held = true := hw.held.trans hheldv
  have hnonew : w.changes.inserted = [] := by rw [hw.changes, hnonev]
  cases reading with
  | accepted result => exact committable_of_nil hnonew
  | missing =>
    refine safe_addCache ⟨hheldw, hnonew, hclock, fun cache hcache => ?_⟩
    by_contra hreadable
    have hfound : cache ∈ (v.changes.view (·.id) v.rows).filter
        (readable limits call.workspaceId queryDigest t.clock) :=
      List.mem_filter.mpr ⟨(view_sublist hw hheldv).mem hcache, by simpa using hreadable⟩
    rw [show _ = [] from hreading] at hfound
    cases hfound
  | rejected cache =>
    dsimp only
    rw [wp_bind, purgeRejected, wp_bind, wp_registerAfterRollback, wp_deleteWhere]
    intro x hx
    have hseen : (w.changes.view (·.id) w.rows).Sublist (v.changes.view (·.id) v.rows) :=
      view_sublist hw hheldv
    have hsub : (x.changes.view (·.id) x.rows).Sublist (v.changes.view (·.id) v.rows) := by
      rw [hx.changes]
      exact (Changes.view_mono _ (hx.sublist hheldw)).trans hseen
    refine safe_addCache (vacant_of_rejected (hx.held.trans hheldw) ?_ (hclock.trans hx.clock)
      hone hreading hsub)
    rw [hx.changes]
    exact hnonew

lemma safe_fetchResults {call : SearchCall} {normalizedQuery : Text} {locked : Bool}
    (hheld : locked = true → s.held = true) (hinserted : s.changes.inserted = []) :
    (fetchResults P limits call normalizedQuery queryDigest locked).wp (·.id)
      (WithinQuotas limits call.workspaceId)
      (fun _ => Committable (·.id) (WithinQuotas limits call.workspaceId)) s := by
  rw [fetchResults, wp_bind]
  refine wp_attempt fun items _ => ?_
  rw [wp_bind]
  refine wp_attempt fun normalized _ => ?_
  dsimp only
  split
  case isTrue hlocked => exact safe_storeResults (hheld hlocked) hinserted
  case isFalse =>
    rw [wp_bind, wp_acquire]
    intro t ht
    exact safe_storeResults rfl (by rw [ht.changes, hinserted])

lemma safe_searchAuthorized (call : SearchCall) (hinserted : s.changes.inserted = []) :
    (searchAuthorized P limits call).wp (·.id) (WithinQuotas limits call.workspaceId)
      (fun _ => Committable (·.id) (WithinQuotas limits call.workspaceId)) s := by
  rw [searchAuthorized, wp_bind]
  refine wp_attempt fun normalizedQuery _ => ?_
  dsimp only
  rw [wp_bind, wp_clock]
  intro t ht
  rw [wp_bind]
  refine wp_readCache fun u v reading hu hv _ => ?_
  have hnone : v.changes.inserted = [] := by
    rw [hv.changes, hu.changes, ht.changes, hinserted]
  cases reading with
  | accepted result => exact committable_of_nil hnone
  | missing => exact safe_fetchResults (by simp) hnone
  | rejected =>
    dsimp only
    rw [wp_bind, wp_acquire]
    intro w hw
    rw [wp_bind, wp_clock]
    intro x hx
    rw [wp_bind]
    refine wp_readCache fun y z reading hy hz _ => ?_
    have hnonez : z.changes.inserted = [] := by
      rw [hz.changes, hy.changes, hx.changes]
      exact (congrArg _ hw.changes).trans hnone
    have hheldz : z.held = true := hz.held.trans (hy.held.trans hx.held)
    cases reading with
    | accepted result => exact committable_of_nil hnonez
    | missing => exact safe_fetchResults (fun _ => hheldz) hnonez
    | rejected cache =>
      dsimp only
      rw [wp_bind, purgeRejected, wp_bind, wp_registerAfterRollback, wp_deleteWhere]
      intro a ha
      refine safe_fetchResults (fun _ => ha.held.trans hheldz) (Changes.deleteWhere_of_nil ?_ _ _)
      rw [ha.changes]
      exact hnonez

lemma safe_importCachedItem (call : ImportCall) (hinserted : s.changes.inserted = []) :
    (importCachedItem P limits call).wp (·.id) (WithinQuotas limits W)
      (fun _ => Committable (·.id) (WithinQuotas limits W)) s := by
  dsimp only [importCachedItem]
  rw [wp_bind, wp_acquire]
  intro t ht
  split
  · trivial
  rw [wp_bind, wp_clock]
  intro u hu
  rw [wp_bind, purgeExpired, wp_deleteWhere]
  intro v hv
  rw [wp_bind, wp_select]
  intro w hw
  rw [wp_bind]
  refine wp_attempt fun cache _ => ?_
  have hnone : w.changes.inserted = [] := by
    rw [hw.changes]
    refine Changes.deleteWhere_of_nil ?_ _ _
    rw [hv.changes, hu.changes]
    exact (congrArg _ ht.changes).trans hinserted
  split
  case h_1 =>
    rw [wp_bind]
    have hpurge : (purgeRejected call.context.workspaceId cache).wp (·.id) (WithinQuotas limits W)
        (fun _ _ => True) w := by
      simp [purgeRejected, wp_bind]
    exact wp_mono hpurge fun _ _ _ => trivial
  case h_2 =>
    rw [wp_bind, wp_clock]
    intro x hx
    split
    · trivial
    split
    · trivial
    · exact committable_of_nil (by rw [hx.changes, hnone])

lemma safe_purgeExpiredRegistryCache (at' : Option Time) (batchSize : Nat) (locked : Uuid → Bool)
    (hinserted : s.changes.inserted = []) :
    (purgeExpiredRegistryCache at' batchSize locked).Safe (·.id) (WithinQuotas limits W) s := by
  dsimp only [purgeExpiredRegistryCache, Safe]
  rw [wp_bind, wp_clock]
  intro t ht
  rw [wp_bind, wp_select]
  intro u hu
  rw [wp_deleteWhere]
  intro v hv
  refine committable_of_nil (Changes.deleteWhere_of_nil ?_ _ _)
  rw [hv.changes, hu.changes, ht.changes, hinserted]

lemma safe_of_cacheCall {script : CacheScript Unit} (h : CacheCall P limits W script)
    (hnone : s.changes = .none) : script.Safe (·.id) (WithinQuotas limits W) s := by
  have hinserted : s.changes.inserted = [] := by rw [hnone]; rfl
  cases h with
  | search call hworkspace =>
    subst hworkspace
    rw [Safe, wp_bind]
    exact safe_searchAuthorized call hinserted
  | importCached call =>
    rw [Safe, wp_bind]
    exact safe_importCachedItem call hinserted
  | purge now batchSize locked => exact safe_purgeExpiredRegistryCache now batchSize locked hinserted

end safe

section quotas
variable {ι : Type} [DecidableEq ι]

abbrev CacheWorld (ι : Type) := Transactions.World ι RegistrySearchCache Uuid Time OfficialRegistryFailureCode

/-- No call is running yet, and the rows that are there keep to the quotas. -/
def Initial (limits : OfficialRegistryLimits) (workspaceId : Uuid) (w : CacheWorld ι) : Prop :=
  WithinQuotas limits workspaceId w.rows w.clock ∧ w.holder = none ∧ ∀ i, w.callers i = none

/-- `_read_cache` finds the row and accepts it, its clock always reading `now`. -/
def acceptable (P : OfficialPlatform) (limits : OfficialRegistryLimits)
    (scan : Value → Except OfficialRegistryFailureCode Bool) (workspaceId : Uuid)
    (queryDigest : Text) (now : Time) (cache : RegistrySearchCache) : Bool :=
  readable limits workspaceId queryDigest now cache &&
    match parseCachedItems P limits scan cache.normalizedResults with
    | .error _ => false
    | .ok items =>
      match validCache P limits cache items now with
      | .ok valid => valid
      | .error _ => false

/-- Whatever the calls of a workspace do to each other, its cached rows keep to the quotas, and at
most one of them would answer a query. -/
theorem search_cache_within_quotas (P : OfficialPlatform) (limits : OfficialRegistryLimits)
    (workspaceId : Uuid) {w : CacheWorld ι}
    (h : Reachable (Initial limits workspaceId)
      (Transactions.Step (·.id) (CacheCall P limits workspaceId)) w) :
    WithinQuotas limits workspaceId w.rows w.clock ∧
      ∀ scan queryDigest,
        (w.rows.filter (acceptable P limits scan workspaceId queryDigest w.clock)).length ≤ 1 := by
  have hquotas : WithinQuotas limits workspaceId w.rows w.clock :=
    kept_of_reachable WithinQuotas.lasting
      (fun _ hcall _ _ hnone _ => safe_of_cacheCall hcall hnone) (fun _ hinit => hinit) h
  refine ⟨hquotas, fun scan queryDigest => ?_⟩
  refine le_trans (List.Sublist.length_le ?_) (hquotas.readable_le queryDigest)
  refine List.monotone_filter_right _ fun cache hcache => ?_
  rw [acceptable, Bool.and_eq_true] at hcache
  exact hcache.1

namespace Sample

/-- A search that finds one server. -/
def search (cacheId : Uuid) : SearchCall where
  workspaceId := 1
  query := text " acme "
  scanQuery _ := .ok false
  searchScreened _ := normalizeItems platform [server "1.0.0"]
  scanUnlocked _ := .ok false
  scanRejected _ := .ok false
  scanLocked _ := .ok false
  cacheId := cacheId

def searchScript (cacheId : Uuid) : CacheScript Unit := do
  let _ ← searchAuthorized platform limits (search cacheId)
  return ()

/-- No rows and no calls. -/
def idle : CacheWorld Bool := ⟨[], 0, none, fun _ => none⟩

/-- Two searches of one query have begun. -/
def searching : CacheWorld Bool :=
  { idle with
    callers := Function.update
      (Function.update idle.callers false (some ⟨.none, searchScript 10, []⟩)) true
      (some ⟨.none, searchScript 11, []⟩) }

/-- Both miss the cache, and one waits for the other's lock. -/
def schedule : List Bool :=
  [false, false, true, true, true, true, true, true, true, true, true] ++ List.replicate 6 false

theorem searching_reached :
    Reachable (Initial limits 1) (Transactions.Step (·.id) (CacheCall platform limits 1))
      searching := by
  have hidle : Initial limits 1 idle :=
    ⟨⟨Nat.zero_le _, Nat.zero_le _, fun _ => Nat.zero_le _⟩, rfl, fun _ => rfl⟩
  have hfirst : Transactions.Step (·.id) (CacheCall platform limits 1) idle (.begins false) _ :=
    .begins idle false (searchScript 10) (.search (search 10) rfl) rfl
  exact ⟨_, _, hidle, (Path.single hfirst).snoc
    (.begins _ true (searchScript 11) (.search (search 11) rfl) rfl)⟩

/-- How the race ends: both calls are over, and one row is cached. -/
def raced (w : CacheWorld Bool) : Bool :=
  w.rows.map (·.id) == [11] && (w.callers false).isNone && (w.callers true).isNone

end Sample

/-- The search that waited finds the other's row and adds none of its own. -/
theorem search_cache_within_quotas_raced :
    ∃ w, Sample.searching.follow (·.id) Sample.schedule = some w ∧ Sample.raced w = true ∧
      WithinQuotas Sample.limits 1 w.rows w.clock ∧
      ∀ scan queryDigest, (w.rows.filter
        (acceptable Sample.platform Sample.limits scan 1 queryDigest w.clock)).length ≤ 1 := by
  have hends : ((Sample.searching.follow (·.id) Sample.schedule).any Sample.raced) = true := by
    decide +kernel
  obtain ⟨w, hfollow, hraced⟩ := (Option.any_eq_true _ _).mp hends
  exact ⟨w, hfollow, hraced, search_cache_within_quotas Sample.platform Sample.limits 1
    (Transactions.World.follow_reachable Sample.searching_reached hfollow)⟩

end quotas

end Modall.Registry.Official
