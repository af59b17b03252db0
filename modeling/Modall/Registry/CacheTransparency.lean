import Modall.Registry.MetadataScanner
import Modall.Registry.OfficialSearch
import Modall.Registry.SearchCache

/-!
# The cache answers as the registry did

A search that succeeds keeps to the limits on pages, bytes and items, and finds no item twice. The row
it stores is read back as the same items: each was checked as a part of its page, and the checks of
the stored list ask nothing of an item that its page did not.
-/
namespace Modall.Registry.Official

open Library Library.Json Library.Transactions Library.Transactions.Script Security

lemma except_bind_ok {ε α β : Type} {x : Except ε α} {f : α → Except ε β} {b : β} :
    (x >>= f) = .ok b ↔ ∃ a, x = .ok a ∧ f a = .ok b := by
  cases x with
  | error e => exact ⟨nofun, fun ⟨_, ha, _⟩ => nomatch ha⟩
  | ok a => exact ⟨fun h => ⟨a, rfl, h⟩, fun ⟨_, ha, h⟩ => by cases ha; exact h⟩

section items
variable {P : OfficialPlatform}

/-! ## One item -/

/-- The server record of a value. -/
def serverOf : Value → Option (List (Text × Value))
  | .object members =>
    match members.lookup (text "server") with
    | some (.object server) => some server
    | _ => none
  | _ => none

/-- The item that a value with this server record is normalized to. -/
structure Normalized (P : OfficialPlatform) (value : Value) (server : List (Text × Value))
    (item : OfficialRegistryItem) : Prop where
  externalId : requiredString (server.lookup (text "name")) 256 = .ok item.externalId
  sourceVersion : requiredString (server.lookup (text "version")) 128 = .ok item.sourceVersion
  name : requiredString (some ((server.lookup (text "title")).getD (.str item.externalId))) 256 =
    .ok item.name
  description : optionalString (server.lookup (text "description")) 2048 = .ok item.description
  urls : advertisedUrls server = .ok item.advertisedUrls
  written : ∃ bytes, canonicalJson P value = .ok bytes
  digest_eq : digest P (value.sorted P.floatText) = .ok item.provenanceDigest
  metadata : item.normalizedMetadata = value.sorted P.floatText

lemma normalizeItem_eq_ok {identities : List (Text × Text)} {value : Value}
    {item : OfficialRegistryItem} :
    normalizeItem P identities value = .ok item ↔ item.identity ∉ identities ∧
      ∃ server, serverOf value = some server ∧ Normalized P value server item := by
  constructor
  · intro h
    unfold normalizeItem at h
    split at h
    case h_2 => cases h
    case h_1 members =>
      split at h
      case h_2 => cases h
      case h_1 server hserver =>
        simp only [except_bind_ok] at h
        obtain ⟨externalId, hexternal, version, hversion, h⟩ := h
        split at h
        · cases h
        case isFalse hfresh =>
          simp only [except_bind_ok] at h
          obtain ⟨name, hname, description, hdescription, urls, hurls, bytes, hbytes, provenance,
            hprovenance, h⟩ := h
          cases h
          exact ⟨hfresh, server, by simp [serverOf, hserver], hexternal, hversion, hname,
            hdescription, hurls, ⟨bytes, hbytes⟩, hprovenance, rfl⟩
  · rintro ⟨hfresh, server, hserver, h⟩
    unfold serverOf at hserver
    split at hserver
    case h_2 => cases hserver
    case h_1 members =>
      split at hserver
      case h_2 => cases hserver
      case h_1 found hfound =>
        obtain rfl := Option.some.inj hserver
        obtain ⟨bytes, hbytes⟩ := h.written
        obtain ⟨externalId, sourceVersion, name, description, urls, provenance, metadata⟩ := item
        obtain rfl : metadata = _ := h.metadata
        have hfresh' : ¬ (externalId, sourceVersion) ∈ identities := hfresh
        simp only [normalizeItem, hfound, except_bind_ok]
        refine ⟨externalId, h.externalId, sourceVersion, h.sourceVersion, ?_⟩
        rw [if_neg hfresh']
        simp only [except_bind_ok]
        exact ⟨name, h.name, description, h.description, urls, h.urls, bytes, hbytes, provenance,
          h.digest_eq, rfl⟩

/-- The value is normalized to the item, by itself. -/
abbrev Normalizes (P : OfficialPlatform) (value : Value) (item : OfficialRegistryItem) : Prop :=
  normalizeItem P [] value = .ok item

/-- The rounds succeed when each value does and no identity comes twice. -/
lemma normalizeRounds_eq_ok {identities : List (Text × Text)} {values : List Value}
    {items : List OfficialRegistryItem} :
    normalizeRounds P identities values = .ok items ↔
      List.Forall₂ (Normalizes P) values items ∧ (items.map (·.identity)).Nodup ∧
        ∀ item ∈ items, item.identity ∉ identities := by
  induction values generalizing identities items with
  | nil =>
    simp only [normalizeRounds, Except.ok.injEq, List.forall₂_nil_left_iff]
    constructor
    · rintro rfl
      simp
    · exact fun h => h.1.symm
  | cons value values ih =>
    simp only [normalizeRounds, except_bind_ok, ih]
    constructor
    · rintro ⟨item, hitem, others, ⟨hothers, hnodup, hfresh⟩, h⟩
      cases h
      obtain ⟨hnew, hserver⟩ := normalizeItem_eq_ok.1 hitem
      refine ⟨.cons (normalizeItem_eq_ok.2 ⟨List.not_mem_nil, hserver⟩) hothers, ?_, ?_⟩
      · rw [List.map_cons, List.nodup_cons]
        refine ⟨fun hmem => ?_, hnodup⟩
        obtain ⟨other, hother, hsame⟩ := List.mem_map.1 hmem
        exact hfresh other hother (hsame ▸ List.mem_cons_self)
      · rintro other (_ | ⟨_, hother⟩)
        · exact hnew
        · exact fun hmem => hfresh other hother (List.mem_cons_of_mem _ hmem)
    · rintro ⟨hall, hnodup, hfresh⟩
      obtain ⟨item, others, hitem, hothers, rfl⟩ := List.forall₂_cons_left_iff.1 hall
      rw [List.map_cons, List.nodup_cons] at hnodup
      have hfirst : normalizeItem P identities value = .ok item :=
        normalizeItem_eq_ok.2 ⟨hfresh item List.mem_cons_self, (normalizeItem_eq_ok.1 hitem).2⟩
      refine ⟨item, hfirst, others, ⟨hothers, hnodup.2, fun other hother hmem => ?_⟩, rfl⟩
      obtain hsame | hmem := List.mem_cons.1 hmem
      · exact hnodup.1 (List.mem_map.2 ⟨other, hother, hsame⟩)
      · exact hfresh other (List.mem_cons_of_mem _ hother) hmem

/-! ## The item as it is stored -/

lemma requiredString_sorted {floatText : Text → Text} (value : Option Value) (maximum : Nat) :
    requiredString (value.map (·.sorted floatText)) maximum = requiredString value maximum := by
  obtain _ | _ | _ | _ | _ | _ | _ | _ := value <;> rfl

lemma optionalString_sorted {floatText : Text → Text} (value : Option Value) (maximum : Nat) :
    optionalString (value.map (·.sorted floatText)) maximum = optionalString value maximum := by
  obtain _ | _ | _ | _ | _ | _ | _ | _ := value <;> rfl

lemma remoteUrls_sorted {floatText : Text → Text} (remotes : List Value) :
    remoteUrls (remotes.map (·.sorted floatText)) = remoteUrls remotes := by
  induction remotes with
  | nil => rfl
  | cons remote remotes ih =>
    cases remote with
    | object members =>
      rw [List.map_cons, Value.sorted_object, remoteUrls, remoteUrls, Value.lookup_sortMembers,
        optionalString_sorted, ih]
    | _ => rfl

lemma advertisedUrls_sorted {floatText : Text → Text} (server : List (Text × Value)) :
    advertisedUrls (Value.sortMembers floatText server) = advertisedUrls server := by
  rw [advertisedUrls, advertisedUrls, Value.lookup_sortMembers, Value.lookup_sortMembers,
    optionalString_sorted]
  obtain _ | _ | _ | _ | _ | _ | _ | _ := server.lookup (text "remotes") <;> try rfl
  simp only [Option.map_some, Value.sorted_list, remoteUrls_sorted]

lemma serverOf_sorted {floatText : Text → Text} {value : Value} {server : List (Text × Value)}
    (h : serverOf value = some server) :
    serverOf (value.sorted floatText) = some (Value.sortMembers floatText server) := by
  unfold serverOf at h
  split at h
  case h_2 => cases h
  case h_1 members =>
    split at h
    case h_2 => cases h
    case h_1 found hfound =>
      obtain rfl := Option.some.inj h
      rw [Value.sorted_object, serverOf, Value.lookup_sortMembers, hfound, Option.map_some,
        Value.sorted_object]

lemma written_of_digest {value : Value} {provenance : Text}
    (h : digest P value = .ok provenance) : ∃ bytes, canonicalJson P value = .ok bytes := by
  rw [digest] at h
  cases hcanonical : canonicalJson P value with
  | error code =>
    rw [hcanonical] at h
    cases h
  | ok bytes => exact ⟨bytes, rfl⟩

variable (hfloat : ∀ s, P.floatText (P.floatText s) = P.floatText s)
include hfloat

/-- An item's stored metadata is normalized to the item again. -/
theorem Normalizes.again {value : Value} {item : OfficialRegistryItem}
    (h : Normalizes P value item) : Normalizes P item.normalizedMetadata item := by
  obtain ⟨hfresh, server, hserver, hitem⟩ := normalizeItem_eq_ok.1 h
  have hsorted : (value.sorted P.floatText).sorted P.floatText = value.sorted P.floatText :=
    Value.sorted_sorted hfloat value
  rw [hitem.metadata]
  refine normalizeItem_eq_ok.2 ⟨hfresh, _, serverOf_sorted hserver, ?_⟩
  exact {
    externalId := by rw [Value.lookup_sortMembers, requiredString_sorted, hitem.externalId]
    sourceVersion := by rw [Value.lookup_sortMembers, requiredString_sorted, hitem.sourceVersion]
    name := by
      have hname := hitem.name
      rw [Value.lookup_sortMembers]
      cases htitle : server.lookup (text "title") with
      | none => rwa [htitle] at hname
      | some title =>
        rw [htitle] at hname
        exact (requiredString_sorted (some title) 256).trans hname
    description := by rw [Value.lookup_sortMembers, optionalString_sorted, hitem.description]
    urls := by rw [advertisedUrls_sorted, hitem.urls]
    written := written_of_digest hitem.digest_eq
    digest_eq := by rw [hsorted, hitem.digest_eq]
    metadata := by rw [hsorted, hitem.metadata] }

end items

/-! ## The pages of a search -/

section pages
variable {P : OfficialPlatform} {J : JsonReader} {limits : OfficialRegistryLimits}
  {scan : Value → Except OfficialRegistryFailureCode Bool} {upstream : Upstream} {query : Text}

/-- Where the items of a search came from: the bodies that the registry sent, one page each. -/
structure Fetched (P : OfficialPlatform) (J : JsonReader) (limits : OfficialRegistryLimits)
    (scan : Value → Except OfficialRegistryFailureCode Bool) (upstream : Upstream)
    (pages : List ByteString) (items : List OfficialRegistryItem) : Prop where
  answered : ∀ i page, pages[i]? = some page → ∃ request response,
    upstream i request = .ok response ∧ page = response.chunks.flatten
  parsed : ∃ parts, items = parts.flatten ∧ List.Forall₂
    (fun page part => ∃ cursor, parsePage P J limits scan page = .ok (part, cursor)) pages parts
  bytes_le : (pages.map List.length).sum ≤ limits.maxResponseBytes
  items_le : items.length ≤ limits.maxItems
  distinct : (items.map (·.identity)).Nodup

lemma fetched_nil : Fetched P J limits scan upstream [] [] where
  answered := by simp
  parsed := ⟨[], rfl, .nil⟩
  bytes_le := Nat.zero_le _
  items_le := Nat.zero_le _
  distinct := List.nodup_nil

lemma readChunks_ok {totalBytes total : Nat} {chunks : List ByteString} {body : ByteString}
    (h : readChunks limits totalBytes chunks = .ok (body, total)) :
    body = chunks.flatten ∧ total = totalBytes + body.length ∧
      (totalBytes ≤ limits.maxResponseBytes → total ≤ limits.maxResponseBytes) := by
  induction chunks generalizing totalBytes total body with
  | nil =>
    cases h
    exact ⟨rfl, rfl, id⟩
  | cons chunk chunks ih =>
    rw [readChunks] at h
    split at h
    · cases h
    case isFalse hfits =>
      obtain ⟨⟨rest, t⟩, hrest, h⟩ := except_bind_ok.1 h
      cases h
      obtain ⟨rfl, rfl, hle⟩ := ih hrest
      refine ⟨rfl, ?_, fun _ => hle (by omega)⟩
      rw [List.length_append]
      omega

/-- What a round has read and parsed when it gets that far. -/
lemma fetchPage_ok {s : SearchState} {body : ByteString} {page : List OfficialRegistryItem}
    {cursor : Option Text} {total : Nat}
    (h : fetchPage P J limits scan upstream query s = .ok (body, page, cursor, total)) :
    (∃ request response, upstream s.sent request = .ok response ∧ body = response.chunks.flatten) ∧
      parsePage P J limits scan body = .ok (page, cursor) ∧ total = s.totalBytes + body.length ∧
      (s.totalBytes ≤ limits.maxResponseBytes → total ≤ limits.maxResponseBytes) := by
  unfold fetchPage at h
  split at h
  · cases h
  case h_2 response hresponse =>
    simp only [except_bind_ok] at h
    obtain ⟨-, -, ⟨body', total'⟩, hbody, ⟨page', cursor'⟩, hpage, h⟩ := h
    cases h
    obtain ⟨⟨body', total'⟩, hread, hfailure⟩ := except_bind_ok.1 hbody
    split at hfailure
    case h_2 => cases hfailure
    case h_1 =>
      cases hfailure
      obtain ⟨hflat, htotal, hle⟩ := readChunks_ok hread
      exact ⟨⟨_, response, hresponse, hflat⟩, hpage, htotal, hle⟩

lemma Fetched.snoc {pages : List ByteString} {items page : List OfficialRegistryItem}
    {body : ByteString} {cursor : Option Text} (h : Fetched P J limits scan upstream pages items)
    (hanswered : ∃ request response, upstream pages.length request = .ok response ∧
      body = response.chunks.flatten)
    (hparsed : parsePage P J limits scan body = .ok (page, cursor))
    (hbytes : (pages.map List.length).sum + body.length ≤ limits.maxResponseBytes)
    (hitems : items.length + page.length ≤ limits.maxItems)
    (hnodup : (page.map (·.identity)).Nodup)
    (hdisjoint : ∀ identity ∈ items.map (·.identity), identity ∉ page.map (·.identity)) :
    Fetched P J limits scan upstream (pages ++ [body]) (items ++ page) where
  answered i found hfound := by
    rw [List.getElem?_append] at hfound
    split at hfound
    · exact h.answered i found hfound
    case isFalse hlt =>
      obtain ⟨hi, rfl⟩ : i - pages.length = 0 ∧ body = found := by
        cases hindex : i - pages.length <;> simp_all
      obtain rfl : i = pages.length := by omega
      exact hanswered
  parsed := by
    obtain ⟨parts, rfl, hall⟩ := h.parsed
    exact ⟨parts ++ [page], by simp, List.rel_append hall (.cons ⟨cursor, hparsed⟩ .nil)⟩
  bytes_le := by simpa using hbytes
  items_le := by simpa using hitems
  distinct := by
    rw [List.map_append, List.nodup_append]
    exact ⟨h.distinct, hnodup, fun a ha b hb hab => hdisjoint a ha (hab ▸ hb)⟩

/-- What a page went through. -/
lemma parsePage_ok {body : ByteString} {page : List OfficialRegistryItem}
    {cursor : Option Text} (h : parsePage P J limits scan body = .ok (page, cursor)) :
    ∃ payload servers, decodeRegistryJson J body = some payload ∧ scan payload = .ok false ∧
      pageParts limits payload = .ok (servers, cursor) ∧ normalizeItems P servers = .ok page := by
  unfold parsePage at h
  split at h
  · cases h
  case h_2 payload hpayload =>
    dsimp only at h
    split at h
    · cases h
    simp only [except_bind_ok] at h
    obtain ⟨unsafe', hscan, h⟩ := h
    cases unsafe' with
    | true => cases h
    | false =>
      simp only [Bool.false_eq_true, if_false, except_bind_ok] at h
      obtain ⟨⟨servers, cursor'⟩, hparts, items, hitems, h⟩ := h
      cases h
      exact ⟨payload, servers, hpayload, hscan, hparts, hitems⟩

/-- The rounds that are left fetch as many pages at most. -/
theorem fetched_of_searchRounds {rounds : Nat} {s : SearchState} {items : List OfficialRegistryItem}
    {pages : List ByteString} (h : searchRounds P J limits scan upstream query rounds s = .ok items)
    (hfetched : Fetched P J limits scan upstream pages s.items) (hsent : s.sent = pages.length)
    (htotal : s.totalBytes = (pages.map List.length).sum)
    (hidentities : s.identities = s.items.map (·.identity)) :
    ∃ more, more.length ≤ rounds ∧ Fetched P J limits scan upstream (pages ++ more) items := by
  induction rounds generalizing s pages with
  | zero => cases h
  | succ rounds ih =>
    rw [searchRounds] at h
    obtain ⟨⟨body, page, cursor, total⟩, hpage, h⟩ := except_bind_ok.1 h
    obtain ⟨hanswered, hparsed, htotal', hle⟩ := fetchPage_ok hpage
    dsimp only at h
    split at h
    · cases h
    case isFalse hitems =>
    split at h
    · cases h
    case isFalse hcommon =>
    have hdisjoint : ∀ identity ∈ s.items.map (·.identity), identity ∉ page.map (·.identity) := by
      rw [← hidentities]
      simpa using hcommon
    have hnodup : (page.map (·.identity)).Nodup := by
      obtain ⟨payload, servers, -, -, -, hnormalized⟩ := parsePage_ok hparsed
      exact (normalizeRounds_eq_ok.1 hnormalized).2.1
    have hbytes : (pages.map List.length).sum + body.length ≤ limits.maxResponseBytes := by
      rw [← htotal, ← htotal']
      exact hle (htotal ▸ hfetched.bytes_le)
    have hsnoc := hfetched.snoc (hsent ▸ hanswered) hparsed hbytes (Nat.not_lt.1 hitems) hnodup
      hdisjoint
    cases cursor with
    | none =>
      cases h
      exact ⟨[body], by simp, hsnoc⟩
    | some next =>
      dsimp only at h
      split at h
      · cases h
      obtain ⟨more, hmore, hall⟩ := ih h hsnoc (by simp [hsent]) (by simp [htotal', htotal])
        (by simp [hidentities])
      refine ⟨body :: more, by simpa using hmore, ?_⟩
      rwa [List.append_assoc] at hall

/-- A search that succeeds keeps to the limits, and finds no item twice. -/
theorem fetched_of_search {items : List OfficialRegistryItem}
    (h : searchWithClient P J limits scan upstream query = .ok items) :
    ∃ pages, pages.length ≤ limits.maxPages ∧ Fetched P J limits scan upstream pages items :=
  fetched_of_searchRounds h fetched_nil rfl rfl rfl

end pages

/-! ## The stored row -/

section stored
variable {P : OfficialPlatform} {U : UrlPlatform} {J : JsonReader} {limits : OfficialRegistryLimits}
  {upstream : Upstream}

lemma pageParts_ok {payload : Value} {servers : List Value} {cursor : Option Text}
    (h : pageParts limits payload = .ok (servers, cursor)) :
    ∃ members, payload = .object members ∧ (text "servers", .list servers) ∈ members := by
  unfold pageParts at h
  split at h
  case h_2 => cases h
  case h_1 members =>
    split at h
    · cases h
    split at h
    case h_2 => cases h
    case h_1 found metadata hservers hmetadata =>
      split at h
      case h_2 => cases h
      case h_1 =>
        split at h
        · cases h
        · cases hcursor : pageCursor limits (metadata.lookup (text "nextCursor")) with
          | error code =>
            rw [hcursor] at h
            cases h
          | ok cursor' =>
            rw [hcursor] at h
            cases h
            obtain ⟨before, after, hsplit, -⟩ := List.lookup_eq_some_iff.1 hservers
            exact ⟨members, rfl, hsplit ▸ List.mem_append_right _ List.mem_cons_self⟩

/-- The item that is stored passes the scanner and is normalized to itself. -/
lemma stored_item (hfloat : ∀ s, P.floatText (P.floatText s) = P.floatText s)
    {pages : List ByteString} {items : List OfficialRegistryItem}
    (h : Fetched P J limits (runScanner P U) upstream pages items) {item : OfficialRegistryItem}
    (hitem : item ∈ items) :
    Passes P U item.normalizedMetadata ∧ Normalizes P item.normalizedMetadata item ∧
      item.normalizedMetadata.sorted P.floatText = item.normalizedMetadata := by
  obtain ⟨parts, rfl, hall⟩ := h.parsed
  obtain ⟨part, hpart, hmem⟩ := List.mem_flatten.1 hitem
  obtain ⟨page, -, cursor, hparsed⟩ := exists_of_forall₂ hall.flip hpart
  obtain ⟨payload, servers, -, hscan, hparts, hnormalized⟩ := parsePage_ok hparsed
  obtain ⟨members, rfl, hservers⟩ := pageParts_ok hparts
  obtain ⟨value, hvalue, hnormalizes⟩ :=
    exists_of_forall₂ (normalizeRounds_eq_ok.1 hnormalized).1.flip hmem
  have hpasses : Passes P U value :=
    passes_list.1 (passes_servers (runScanner_eq_false_iff.1 hscan) hservers) value hvalue
  change Normalizes P value item at hnormalizes
  obtain ⟨-, server, -, hfacts⟩ := normalizeItem_eq_ok.1 hnormalizes
  rw [hfacts.metadata]
  refine ⟨hpasses.sorted hfloat, ?_, Value.sorted_sorted hfloat value⟩
  rw [← hfacts.metadata]
  exact Normalizes.again hfloat hnormalizes

/-- The list that is stored is read as the items. -/
theorem parse_stored (hfloat : ∀ s, P.floatText (P.floatText s) = P.floatText s)
    {pages : List ByteString} {items : List OfficialRegistryItem}
    (h : Fetched P J limits (runScanner P U) upstream pages items) {results : Value}
    {bytes : ByteString} (hresults : normalizeResults P limits items = .ok (results, bytes)) :
    parseCachedItems P limits (runScanner P U) results = .ok items ∧
      canonicalJson P results = .ok bytes ∧ bytes.length ≤ limits.maxResponseBytes := by
  have hfixed : (Value.list (items.map (·.normalizedMetadata))).sorted P.floatText =
      .list (items.map (·.normalizedMetadata)) := by
    rw [Value.sorted_list, List.map_map]
    congr 1
    exact List.map_congr_left fun item hitem => (stored_item hfloat h hitem).2.2
  simp only [normalizeResults, except_bind_ok, hfixed] at hresults
  obtain ⟨-, -, bytes', hbytes, hresults⟩ := hresults
  split at hresults
  · cases hresults
  case isFalse hlimit =>
    cases hresults
    rw [not_or, Nat.not_lt, Bool.not_eq_false] at hlimit
    refine ⟨?_, hbytes, hlimit.1⟩
    have hscan : runScanner P U (.list (items.map (·.normalizedMetadata))) = .ok false := by
      refine runScanner_eq_false_iff.2 (passes_list.2 fun value hvalue => ?_)
      obtain ⟨item, hitem, rfl⟩ := List.mem_map.1 hvalue
      exact (stored_item hfloat h hitem).1
    have hnormalized : normalizeItems P (items.map (·.normalizedMetadata)) = .ok items := by
      refine normalizeRounds_eq_ok.2 ⟨?_, h.distinct, fun item _ => List.not_mem_nil⟩
      rw [List.forall₂_map_left_iff, List.forall₂_same]
      exact fun item hitem => (stored_item hfloat h hitem).2.1
    simp [parseCachedItems, Nat.not_lt.2 h.items_le, hlimit.2, hscan, hnormalized, Bind.bind,
      Except.bind]

/-- Until it expires the row answers its query, and when it is read it is read as these items. -/
def ReadsBack (P : OfficialPlatform) (limits : OfficialRegistryLimits)
    (scan : Value → Except OfficialRegistryFailureCode Bool) (row : RegistrySearchCache)
    (items : List OfficialRegistryItem) : Prop :=
  ∀ now < row.expiresAt, readable limits row.workspaceId row.queryDigest now row = true ∧
    ∀ (rows : List RegistrySearchCache) (validatedAt : Time), validatedAt < row.expiresAt →
      (orderedBy latestFirst
        (rows.filter (readable limits row.workspaceId row.queryDigest now))).head? = some row →
      (readCache P limits scan row.workspaceId row.queryDigest now).outcome rows [validatedAt] =
        some (.ok (.accepted (searchResult row items true)))

/-- What `_search_authorized` writes down with the items. -/
structure Describes (P : OfficialPlatform) (limits : OfficialRegistryLimits)
    (row : RegistrySearchCache) (items : List OfficialRegistryItem) (bytes : ByteString) : Prop where
  results : normalizeResults P limits items = .ok (row.normalizedResults, bytes)
  count : row.resultCount = items.length
  bytes_eq : row.byteCount = bytes.length
  digest_eq : digest P row.normalizedResults = .ok row.responseDigest
  expires : row.expiresAt = row.fetchedAt + limits.cacheTtl

theorem Describes.readsBack (hfloat : ∀ s, P.floatText (P.floatText s) = P.floatText s)
    {pages : List ByteString} {row : RegistrySearchCache} {items : List OfficialRegistryItem}
    {bytes : ByteString} (h : Describes P limits row items bytes)
    (hfetched : Fetched P J limits (runScanner P U) upstream pages items) :
    ReadsBack P limits (runScanner P U) row items := by
  obtain ⟨hparsed, hbytes, hle⟩ := parse_stored hfloat hfetched h.results
  intro now hnow
  have hexpires := h.expires
  refine ⟨?_, fun rows validatedAt hvalidated hhead => ?_⟩
  · have hfetched : now - limits.cacheTtl < row.fetchedAt :=
      sub_lt_iff_lt_add.2 (hexpires ▸ hnow)
    simp [readable, hnow, hfetched, h.bytes_eq, hle]
  · have hvalid : validCache P limits row items validatedAt = .ok true := by
      have hlater : validatedAt - limits.cacheTtl < row.fetchedAt :=
        sub_lt_iff_lt_add.2 (hexpires ▸ hvalidated)
      simp [validCache, hbytes, h.digest_eq, h.count, h.bytes_eq, hvalidated, hlater, Bind.bind,
        Except.bind, pure, Except.pure]
    simp only [readCache, select, clock, Bind.bind, Script.bind, Script.outcome, hhead, hparsed,
      hvalid, pure]

end stored

/-! ## The search that stores it -/

section search
variable {P : OfficialPlatform} {limits : OfficialRegistryLimits} {queryDigest : Text} {now : Time}
  {s : Point RegistrySearchCache Uuid Time}

/-- Nothing is asked of the other callers. -/
abbrev anything (_ : List RegistrySearchCache) (_ : Time) : Prop := True

/-- What a search has inserted: nothing, or the record of the items it returns. -/
def Records (P : OfficialPlatform) (limits : OfficialRegistryLimits) (workspaceId : Uuid)
    (queryDigest : Text) (found : List OfficialRegistryItem → Prop)
    (result : OfficialRegistrySearchResult) (s : Point RegistrySearchCache Uuid Time) : Prop :=
  ∀ row ∈ s.changes.inserted, row.workspaceId = workspaceId ∧ row.queryDigest = queryDigest ∧
    found result.items ∧ ∃ bytes, Describes P limits row result.items bytes

lemma screenQuery_ok {scan : Text → Except OfficialRegistryFailureCode Bool} {query found : Text}
    (h : screenQuery limits scan query = .ok found) : found = strip query := by
  dsimp only [screenQuery] at h
  split at h
  · cases h
  split at h
  · cases h
  obtain ⟨unsafe', -, h⟩ := except_bind_ok.1 h
  cases unsafe' with
  | true => cases h
  | false =>
    cases h
    rfl

lemma records_of_nil {workspaceId : Uuid} {found : List OfficialRegistryItem → Prop}
    {result : OfficialRegistrySearchResult} (h : s.changes.inserted = []) :
    Records P limits workspaceId queryDigest found result s := by
  rw [Records, h]
  simp

lemma wp_addCache {call : SearchCall} {found : List OfficialRegistryItem → Prop}
    {items : List OfficialRegistryItem} {results : Value} {bytes : ByteString}
    (hheld : s.held = true) (hinserted : s.changes.inserted = []) (hfound : found items)
    (hresults : normalizeResults P limits items = .ok (results, bytes)) :
    (addCache P limits call queryDigest items results bytes now).wp (·.id) anything
      (Records P limits call.workspaceId queryDigest found) s := by
  rw [addCache, wp_bind, wp_select]
  intro t ht
  dsimp only
  split
  · trivial
  rw [wp_bind]
  refine wp_attempt fun responseDigest hdigest => ?_
  rw [wp_bind, wp_add]
  refine ⟨ht.held.trans hheld, fun u hu => ?_⟩
  intro row hrow
  rw [show u.changes.inserted = [] by rw [hu.changes, ht.changes, hinserted], List.nil_append,
    List.mem_singleton] at hrow
  subst hrow
  exact ⟨rfl, rfl, hfound, bytes, hresults, rfl, rfl, hdigest, rfl⟩

lemma wp_storeResults {call : SearchCall} {found : List OfficialRegistryItem → Prop}
    {items : List OfficialRegistryItem} {results : Value} {bytes : ByteString}
    (hheld : s.held = true) (hinserted : s.changes.inserted = []) (hfound : found items)
    (hresults : normalizeResults P limits items = .ok (results, bytes)) :
    (storeResults P limits call queryDigest items results bytes).wp (·.id) anything
      (Records P limits call.workspaceId queryDigest found) s := by
  rw [storeResults, wp_bind, wp_clock]
  intro t ht
  rw [wp_bind, purgeExpired, wp_deleteWhere]
  intro u hu
  rw [wp_bind]
  refine wp_readCache fun v w reading hv hw _ => ?_
  have hheldw : w.held = true :=
    hw.held.trans (hv.held.trans (hu.held.trans (ht.held.trans hheld)))
  have hnone : w.changes.inserted = [] := by
    rw [hw.changes, hv.changes]
    exact Changes.deleteWhere_of_nil (by rw [hu.changes, ht.changes, hinserted]) _ _
  cases reading with
  | accepted result => exact records_of_nil hnone
  | missing => exact wp_addCache hheldw hnone hfound hresults
  | rejected cache =>
    dsimp only
    rw [wp_bind, purgeRejected, wp_bind, wp_registerAfterRollback, wp_deleteWhere]
    intro x hx
    refine wp_addCache (hx.held.trans hheldw) (Changes.deleteWhere_of_nil ?_ _ _) hfound hresults
    rw [hx.changes]
    exact hnone

lemma wp_fetchResults {call : SearchCall} {found : List OfficialRegistryItem → Prop}
    {normalizedQuery : Text} {locked : Bool} (hheld : locked = true → s.held = true)
    (hinserted : s.changes.inserted = [])
    (hfound : ∀ items, call.searchScreened normalizedQuery = .ok items → found items) :
    (fetchResults P limits call normalizedQuery queryDigest locked).wp (·.id) anything
      (Records P limits call.workspaceId queryDigest found) s := by
  rw [fetchResults, wp_bind]
  refine wp_attempt fun items hitems => ?_
  rw [wp_bind]
  refine wp_attempt fun normalized hnormalized => ?_
  dsimp only
  split
  case isTrue hlocked =>
    exact wp_storeResults (hheld hlocked) hinserted (hfound items hitems) hnormalized
  case isFalse =>
    rw [wp_bind, wp_acquire]
    intro t ht
    exact wp_storeResults rfl (by rw [ht.changes, hinserted]) (hfound items hitems) hnormalized

lemma wp_searchAuthorized {call : SearchCall} {found : List OfficialRegistryItem → Prop}
    (hinserted : s.changes.inserted = [])
    (hfound : ∀ normalizedQuery items,
      call.searchScreened normalizedQuery = .ok items → found items) :
    (searchAuthorized P limits call).wp (·.id) anything (fun result t => ∃ normalizedQuery,
      screenQuery limits call.scanQuery call.query = .ok normalizedQuery ∧
      Records P limits call.workspaceId (P.sha256 ((encode normalizedQuery).getD [])) found
        result t) s := by
  rw [searchAuthorized, wp_bind]
  refine wp_attempt fun normalizedQuery hquery => ?_
  refine wp_mono ?_ fun result t h => ⟨normalizedQuery, hquery, h⟩
  dsimp only
  rw [wp_bind, wp_clock]
  intro t ht
  rw [wp_bind]
  refine wp_readCache fun u v reading hu hv _ => ?_
  have hnone : v.changes.inserted = [] := by
    rw [hv.changes, hu.changes, ht.changes, hinserted]
  cases reading with
  | accepted result => exact records_of_nil hnone
  | missing => exact wp_fetchResults (by simp) hnone (hfound normalizedQuery)
  | rejected =>
    dsimp only
    rw [wp_bind, wp_acquire]
    intro w hw
    rw [wp_bind, wp_clock]
    intro x hx
    rw [wp_bind]
    refine wp_readCache fun y z reading hy hz _ => ?_
    have hnonez : z.changes.inserted = [] := by
      rw [hz.changes, hy.changes, hx.changes]
      exact (congrArg _ hw.changes).trans hnone
    have hheldz : z.held = true := hz.held.trans (hy.held.trans hx.held)
    cases reading with
    | accepted result => exact records_of_nil hnonez
    | missing => exact wp_fetchResults (fun _ => hheldz) hnonez (hfound normalizedQuery)
    | rejected cache =>
      dsimp only
      rw [wp_bind, purgeRejected, wp_bind, wp_registerAfterRollback, wp_deleteWhere]
      intro a ha
      refine wp_fetchResults (fun _ => ha.held.trans hheldz) (Changes.deleteWhere_of_nil ?_ _ _)
        (hfound normalizedQuery)
      rw [ha.changes]
      exact hnonez

/-- A search by the adapter with its default scanners, whose processes end in time. -/
def defaultSearch (P : OfficialPlatform) (U : UrlPlatform) (J : JsonReader)
    (limits : OfficialRegistryLimits) (upstream : Upstream) (workspaceId : Uuid) (query : Text)
    (cacheId : Uuid) : SearchCall where
  workspaceId := workspaceId
  query := query
  scanQuery normalized := runScanner P U (.str normalized)
  searchScreened := searchWithClient P J limits (runScanner P U) upstream
  scanUnlocked := runScanner P U
  scanRejected := runScanner P U
  scanLocked := runScanner P U
  cacheId := cacheId

/-- Whatever the registry answers, a search that succeeds keeps to the limits and finds no item
twice; and the row that it stores, whatever runs besides, is read as its items until it expires. -/
theorem registry_cache_transparent (P : OfficialPlatform) (U : UrlPlatform) (J : JsonReader)
    (limits : OfficialRegistryLimits) (upstream : Upstream)
    (hfloat : ∀ s, P.floatText (P.floatText s) = P.floatText s) :
    (∀ query items, searchWithClient P J limits (runScanner P U) upstream query = .ok items →
      ∃ pages, pages.length ≤ limits.maxPages ∧
        Fetched P J limits (runScanner P U) upstream pages items) ∧
    ∀ (workspaceId : Uuid) (query : Text) (cacheId : Uuid) (s : Point RegistrySearchCache Uuid Time),
      s.changes = .none →
      (searchAuthorized P limits (defaultSearch P U J limits upstream workspaceId query cacheId)).wp
        (·.id) anything (fun result t => ∀ row ∈ t.changes.inserted,
          row.workspaceId = workspaceId ∧
          row.queryDigest = P.sha256 ((encode (strip query)).getD []) ∧
          (∃ pages, pages.length ≤ limits.maxPages ∧
            Fetched P J limits (runScanner P U) upstream pages result.items) ∧
          ReadsBack P limits (runScanner P U) row result.items) s := by
  refine ⟨fun query items => fetched_of_search, fun workspaceId query cacheId s hnone => ?_⟩
  refine wp_mono (wp_searchAuthorized (by rw [hnone]; rfl)
    (fun normalizedQuery items => fetched_of_search)) ?_
  rintro result t ⟨normalizedQuery, hquery, hrecords⟩ row hrow
  obtain ⟨hworkspace, hdigest, ⟨pages, hpages, hfetched⟩, bytes, hrecorded⟩ := hrecords row hrow
  obtain rfl := screenQuery_ok hquery
  exact ⟨hworkspace, hdigest, ⟨pages, hpages, hfetched⟩, hrecorded.readsBack hfloat hfetched⟩

end search

namespace Sample

def reader : JsonReader := ⟨1000, fun _ => true⟩

/-- The standard library, for texts without URLs. -/
def plain : UrlPlatform where
  lower := Text.lower
  urlsplit _ := none
  ipAddress _ := none
  idnaEncode _ := none
  inetAton _ := false

def page (version next : String) : ByteString :=
  ascii ("\x7b\"servers\":[\x7b\"server\":\x7b\"version\":\"" ++ version ++
    "\",\"name\":\"acme/search\"\x7d\x7d],\"metadata\":\x7b\"count\":1" ++ next ++ "\x7d\x7d")

/-- Two versions of a server, one on each page. -/
def registry : Upstream := fun sent _ =>
  .ok {
    isRedirect := false
    statusCode := 200
    contentType := some (text "application/json; charset=utf-8")
    contentEncoding := none
    contentLength := none
    chunks := [if sent = 0 then page "1.0.0" ",\"nextCursor\":\"2\"" else page "1.1.0" ""]
    failure := none }

def found : Except OfficialRegistryFailureCode (List OfficialRegistryItem) :=
  searchWithClient platform reader limits (runScanner platform plain) registry (text "acme")

/-- The two pages written out: a literal costs the kernel more than its bytes do. -/
def firstPage : ByteString :=
  [123, 34, 115, 101, 114, 118, 101, 114, 115, 34, 58, 91, 123, 34, 115, 101, 114, 118, 101, 114,
    34, 58, 123, 34, 118, 101, 114, 115, 105, 111, 110, 34, 58, 34, 49, 46, 48, 46, 48, 34, 44,
    34, 110, 97, 109, 101, 34, 58, 34, 97, 99, 109, 101, 47, 115, 101, 97, 114, 99, 104, 34, 125,
    125, 93, 44, 34, 109, 101, 116, 97, 100, 97, 116, 97, 34, 58, 123, 34, 99, 111, 117, 110, 116,
    34, 58, 49, 44, 34, 110, 101, 120, 116, 67, 117, 114, 115, 111, 114, 34, 58, 34, 50, 34, 125,
    125]

def lastPage : ByteString :=
  [123, 34, 115, 101, 114, 118, 101, 114, 115, 34, 58, 91, 123, 34, 115, 101, 114, 118, 101, 114,
    34, 58, 123, 34, 118, 101, 114, 115, 105, 111, 110, 34, 58, 34, 49, 46, 49, 46, 48, 34, 44,
    34, 110, 97, 109, 101, 34, 58, 34, 97, 99, 109, 101, 47, 115, 101, 97, 114, 99, 104, 34, 125,
    125, 93, 44, 34, 109, 101, 116, 97, 100, 97, 116, 97, 34, 58, 123, 34, 99, 111, 117, 110, 116,
    34, 58, 49, 125, 125]

end Sample

/-- A search over two pages. -/
theorem registry_cache_transparent_pages :
    ∃ items, Sample.found = .ok items ∧ items.length = 2 ∧ ∃ pages, pages.length ≤ 5 ∧
      Fetched Sample.platform Sample.reader Sample.limits
        (runScanner Sample.platform Sample.plain) Sample.registry pages items := by
  have hfirst : Sample.page "1.0.0" ",\"nextCursor\":\"2\"" = Sample.firstPage := by decide +kernel
  have hlast : Sample.page "1.1.0" "" = Sample.lastPage := by decide +kernel
  have hfound : (Sample.found.toOption.any fun items => items.length == 2) = true := by
    unfold Sample.found Sample.registry
    rw [hfirst, hlast]
    decide +kernel
  cases hitems : Sample.found with
  | error code =>
    rw [hitems] at hfound
    cases hfound
  | ok items =>
    rw [hitems] at hfound
    exact ⟨items, rfl, beq_iff_eq.1 hfound,
      (registry_cache_transparent Sample.platform Sample.plain Sample.reader Sample.limits
        Sample.registry fun _ => rfl).1 (text "acme") items hitems⟩

end Modall.Registry.Official
