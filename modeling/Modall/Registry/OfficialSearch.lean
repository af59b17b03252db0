import Modall.McpAdapter.Screens
import Modall.Registry.OfficialItems

/-!
# Searching the official registry

The adapter of `modall/registry/official.py` that asks the registry for one page after the other. What
the server and the transport do is a parameter: any answer to any request, and any failure.
-/
namespace Modall.Registry.Official

open Library Library.Json

/-- What the adapter takes from the interpreter to read JSON. -/
structure JsonReader where
  /-- How deep the decoder nests before it raises a `RecursionError`. -/
  nesting : Nat
  /-- `math.isfinite(float(spelling))`. -/
  isFinite : Text → Bool

/-- `_reject_duplicate_members`. -/
def rejectDuplicateMembers : List (Text × Value) → Option (List (Text × Value)) :=
  McpAdapter.rejectDuplicateMembers

section finite
variable (isFinite : Text → Bool)

mutual

/-- Neither `_reject_nonfinite` nor `_parse_finite_float` raises. -/
def allFinite : Value → Bool
  | .float spelling => isFinite spelling
  | .list items => allFiniteItems items
  | .object members => allFiniteMembers members
  | _ => true

def allFiniteItems : List Value → Bool
  | [] => true
  | item :: items => allFinite item && allFiniteItems items

def allFiniteMembers : List (Text × Value) → Bool
  | [] => true
  | (_, child) :: members => allFinite child && allFiniteMembers members

end

end finite

/-- `_decode_registry_json`; whatever goes wrong, the answer is the same. -/
def decodeRegistryJson (J : JsonReader) (body : ByteString) : Option Value :=
  match decodeStrict body with
  | none => none
  | some decoded =>
    match (Decoder.mk J.nesting rejectDuplicateMembers).decode decoded with
    | .found payload _ => if allFinite J.isFinite payload then some payload else none
    | _ => none

/-! ## Lengths -/

/-- The spaces `int` ignores around a number. -/
def isIntSpace (c : Nat) : Bool :=
  (0x09 ≤ c && c ≤ 0x0d) || c == 0x20 || (0x7f ≤ c && Text.isspace c)

/-- The digits of a number; a single underscore may stand between two of them. -/
def intDigits (afterDigit : Bool) : Text → Option (List Nat)
  | [] => if afterDigit then some [] else none
  | c :: rest =>
    if c = '_'.toNat then if afterDigit then intDigits false rest else none
    else match Text.decimalValue c with
      | none => none
      | some digit => (intDigits true rest).map (digit :: ·)

/-- `_parse_content_length`. -/
def parseContentLength (value : Text) : Option Int :=
  let body := (value.dropWhile isIntSpace).rdropWhile isIntSpace
  let (negative, unsigned) := match body with
    | c :: rest =>
      if c = '-'.toNat then (true, rest) else if c = '+'.toNat then (false, rest) else (false, body)
    | [] => (false, [])
  match intDigits false unsigned with
  | none => none
  | some digits =>
    let magnitude : Int := digits.foldl (fun n d => n * 10 + d) 0
    if maxStrDigits < digits.length then none
    else some (if negative then -magnitude else magnitude)

/-! ## Answers -/

/-- The exceptions of `httpx`, and that of the time limit. -/
inductive TransportFailure where
  | timesOut | decodingError | httpError

def TransportFailure.code : TransportFailure → OfficialRegistryFailureCode
  | .timesOut => .timeout
  | .decodingError => .invalidResponse
  | .httpError => .upstreamUnavailable

/-- A response: its headers, and the chunks that arrive before it ends or fails. -/
structure Response where
  isRedirect : Bool
  statusCode : Nat
  contentType : Option Text
  contentEncoding : Option Text
  contentLength : Option Text
  chunks : List ByteString
  failure : Option TransportFailure

/-- The parameters of a request, besides the constant ones. -/
structure PageRequest where
  search : Text
  limit : Nat
  cursor : Option Text

/-- What comes of the request that is sent after that many others. -/
abbrev Upstream := Nat → PageRequest → Except TransportFailure Response

section pages
variable (P : OfficialPlatform) (J : JsonReader) (limits : OfficialRegistryLimits)
  (scan : Value → Except OfficialRegistryFailureCode Bool)

/-- The checks of a response that come before its body is read. -/
def checkResponse (totalBytes : Nat) (response : Response) :
    Except OfficialRegistryFailureCode Unit := do
  if response.isRedirect then throw .upstreamUnavailable
  if response.statusCode ≠ 200 then throw .upstreamUnavailable
  let contentType := (response.contentType.getD []).takeWhile (· != ';'.toNat)
  if Text.lower (strip contentType) ≠ text "application/json" then throw .invalidResponse
  let contentEncoding := response.contentEncoding.getD (text "identity")
  if Text.lower (strip contentEncoding) ≠ text "identity" then throw .invalidResponse
  match response.contentLength with
  | none => return ()
  | some declaredLength =>
    match parseContentLength declaredLength with
    | none => throw .invalidResponse
    | some parsedLength =>
      if parsedLength < 0 ∨ limits.maxResponseBytes < totalBytes + parsedLength then
        throw .responseLimit

/-- The chunks in one, and the bytes of all bodies so far. -/
def readChunks (totalBytes : Nat) :
    List ByteString → Except OfficialRegistryFailureCode (ByteString × Nat)
  | [] => .ok ([], totalBytes)
  | chunk :: chunks =>
    if limits.maxResponseBytes < totalBytes + chunk.length then .error .responseLimit
    else do
      let (buffered, total) ← readChunks (totalBytes + chunk.length) chunks
      return (chunk ++ buffered, total)

def readBody (totalBytes : Nat) (response : Response) :
    Except OfficialRegistryFailureCode (ByteString × Nat) := do
  let read ← readChunks limits totalBytes response.chunks
  match response.failure with
  | none => return read
  | some failure => throw failure.code

/-- The cursor of a page: absent, or a text that may be sent. -/
def pageCursor (cursor : Option Value) : Except OfficialRegistryFailureCode (Option Text) :=
  match cursor with
  | none | some .null => .ok none
  | some (.str cursor) =>
    if cursor = [] ∨ limits.maxCursorCharacters < cursor.length ∨
        (cursor.any fun c => decide (c < 32) || c == 127) = true ∨ isUtf8 cursor = false then
      .error .invalidResponse
    else .ok (some cursor)
  | some _ => .error .invalidResponse

/-- The list of servers and the cursor of a payload that has the shape of a page. -/
def pageParts (payload : Value) :
    Except OfficialRegistryFailureCode (List Value × Option Text) :=
  match payload with
  | .object members =>
    if (members.any fun m => m.1 != text "servers" && m.1 != text "metadata") = true then
      .error .invalidResponse
    else match members.lookup (text "servers"), members.lookup (text "metadata") with
      | some (.list servers), some (.object metadata) =>
        match metadata.lookup (text "count") with
        | some (.int count) =>
          if count ≠ servers.length then .error .invalidResponse
          else (pageCursor limits (metadata.lookup (text "nextCursor"))).map (servers, ·)
        | _ => .error .invalidResponse
      | _, _ => .error .invalidResponse
  | _ => .error .invalidResponse

/-- `_parse_page`. -/
def parsePage (body : ByteString) :
    Except OfficialRegistryFailureCode (List OfficialRegistryItem × Option Text) :=
  match decodeRegistryJson J body with
  | none => .error .invalidResponse
  | some payload => do
    if isBoundedJson payload = false then throw .responseLimit
    if ← scan payload then throw .unsafeMetadata
    let (servers, cursor) ← pageParts limits payload
    let items ← normalizeItems P servers
    return (items, cursor)

def OfficialRegistryItem.identity (item : OfficialRegistryItem) : Text × Text :=
  (item.externalId, item.sourceVersion)

/-- The variables of the loop of `_search_with_client`. -/
structure SearchState where
  /-- How many requests have been sent. -/
  sent : Nat
  items : List OfficialRegistryItem
  identities : List (Text × Text)
  cursor : Option Text
  seenCursors : List Text
  totalBytes : Nat

variable (upstream : Upstream) (query : Text)

/-- One round up to the parsed page: its body, its items, its cursor and the bytes read so far. -/
def fetchPage (s : SearchState) : Except OfficialRegistryFailureCode
    (ByteString × List OfficialRegistryItem × Option Text × Nat) := do
  match upstream s.sent ⟨query, min 100 limits.maxItems, s.cursor⟩ with
  | .error failure => throw failure.code
  | .ok response => do
    checkResponse limits s.totalBytes response
    let (body, totalBytes) ← readBody limits s.totalBytes response
    let (page, cursor) ← parsePage P J limits scan body
    return (body, page, cursor, totalBytes)

/-- The rounds of `_search_with_client` that are left. -/
def searchRounds : Nat → SearchState → Except OfficialRegistryFailureCode (List OfficialRegistryItem)
  | 0, _ => .error .responseLimit
  | rounds + 1, s => do
    let (_, page, cursor, totalBytes) ← fetchPage P J limits scan upstream query s
    if limits.maxItems < s.items.length + page.length then throw .responseLimit
    let pageIdentities := page.map (·.identity)
    if (s.identities.any (pageIdentities.contains ·)) = true then throw .invalidResponse
    match cursor with
    | none => return s.items ++ page
    | some next =>
      if s.seenCursors.contains next = true then throw .invalidResponse
      searchRounds rounds {
        sent := s.sent + 1
        items := s.items ++ page
        identities := s.identities ++ pageIdentities
        cursor := some next
        seenCursors := s.seenCursors ++ [next]
        totalBytes := totalBytes }

/-- `_search_with_client`. -/
def searchWithClient : Except OfficialRegistryFailureCode (List OfficialRegistryItem) :=
  searchRounds P J limits scan upstream query limits.maxPages ⟨0, [], [], none, [], 0⟩

end pages

end Modall.Registry.Official
