import Modall.Library.Dumps
import Modall.Library.Codecs
import Modall.Library.Places
import Modall.Security.Bounds

/-!
# Items of the official registry

The part of `modall/registry/official.py` that turns cached public metadata into items: each server
record is checked and normalized by itself, and its digest is taken of the normalized record.
-/
namespace Modall.Registry.Official

open Library Library.Json

inductive OfficialRegistryFailureCode where
  | invalidQuery | unsafeQuery | scannerFailed | timeout | upstreamUnavailable | responseLimit
  | invalidResponse | unsafeMetadata | cacheMiss | persistenceFailure
deriving DecidableEq

/-- The bounds of `OfficialRegistryLimits` and what its constructor checks of them. -/
structure OfficialRegistryLimits where
  maxQueryCharacters : Nat
  maxPages : Nat
  maxItems : Nat
  maxResponseBytes : Nat
  maxWorkspaceCacheRows : Nat
  maxWorkspaceCacheBytes : Nat
  maxCursorCharacters : Nat
  cacheTtl : Int
  queryCharacters_pos : 0 < maxQueryCharacters
  pages_pos : 0 < maxPages
  items_pos : 0 < maxItems
  responseBytes_pos : 0 < maxResponseBytes
  cacheRows_pos : 0 < maxWorkspaceCacheRows
  response_fits : maxResponseBytes ≤ maxWorkspaceCacheBytes
  cursorCharacters_pos : 0 < maxCursorCharacters
  ttl_pos : 0 < cacheTtl
  ttl_le_hour : cacheTtl ≤ 3600000000

structure OfficialRegistryItem where
  externalId : Text
  sourceVersion : Text
  name : Text
  description : Option Text
  advertisedUrls : List Text
  provenanceDigest : Text
  normalizedMetadata : Value

/-- What the adapter takes from the interpreter and from `hashlib`. -/
structure OfficialPlatform where
  /-- `repr(float(spelling))`. -/
  floatText : Text → Text
  /-- `json.dumps` raises on the value: it runs out of stack, or an integer is too long. -/
  unwritable : Value → Bool
  /-- `hashlib.sha256(data).hexdigest()`. -/
  sha256 : ByteString → Text

def isUtf8 (value : Text) : Bool := (encode value).isSome

/-- `value.strip()`. -/
def strip (value : Text) : Text := Text.rstrip (Text.lstrip value)

mutual

/-- The decoded value as the bounds see it. -/
def toPy : Value → Security.PyValue
  | .null => .none
  | .bool b => .bool b
  | .int n => .int n
  | .float spelling => .float spelling
  | .str value => .str value
  | .list items => .list (toPyItems items)
  | .object members => .dict (toPyEntries members)

def toPyItems : List Value → List Security.PyValue
  | [] => []
  | item :: items => toPy item :: toPyItems items

def toPyEntries : List (Text × Value) → List (Option Text × Security.PyValue)
  | [] => []
  | (key, child) :: members => (some key, toPy child) :: toPyEntries members

end

def isBoundedJson (value : Value) : Bool := (Security.validateBoundedJson (toPy value)).isOk

section items
variable (P : OfficialPlatform)

/-- `_canonical_json`. -/
def canonicalJson (value : Value) : Except OfficialRegistryFailureCode ByteString :=
  if P.unwritable value then .error .invalidResponse
  else match encode (dump (value.sorted P.floatText)) with
    | some encoded => .ok encoded
    | none => .error .invalidResponse

/-- `_digest`. -/
def digest (value : Value) : Except OfficialRegistryFailureCode Text :=
  (canonicalJson P value).map P.sha256

/-- `_required_string` of what `dict.get` returns. -/
def requiredString (value : Option Value) (maximum : Nat) :
    Except OfficialRegistryFailureCode Text :=
  match value with
  | some (.str value) =>
    if strip value = [] ∨ maximum < value.length ∨ 0 ∈ value ∨ isUtf8 value = false then
      .error .invalidResponse
    else .ok (strip value)
  | _ => .error .invalidResponse

/-- A value that may be absent or `None`, and is a string otherwise. -/
def optionalString (value : Option Value) (maximum : Nat) :
    Except OfficialRegistryFailureCode (Option Text) :=
  match value with
  | none | some .null => .ok none
  | value => (requiredString value maximum).map some

/-- The URLs of the remotes, in their order. -/
def remoteUrls : List Value → Except OfficialRegistryFailureCode (List Text)
  | [] => .ok []
  | .object remote :: remotes => do
    let url ← optionalString (remote.lookup (text "url")) 2048
    let urls ← remoteUrls remotes
    return url.toList ++ urls
  | _ :: _ => .error .invalidResponse

def advertisedUrls (server : List (Text × Value)) :
    Except OfficialRegistryFailureCode (List Text) := do
  let website ← optionalString (server.lookup (text "websiteUrl")) 2048
  match server.lookup (text "remotes") with
  | none => return website.toList
  | some (.list remotes) => return website.toList ++ (← remoteUrls remotes)
  | some _ => throw .invalidResponse

/-- One round of the loop of `_normalize_items`, given the identities of the rounds before. -/
def normalizeItem (identities : List (Text × Text)) (value : Value) :
    Except OfficialRegistryFailureCode OfficialRegistryItem :=
  match value with
  | .object members =>
    match members.lookup (text "server") with
    | some (.object server) => do
      let externalId ← requiredString (server.lookup (text "name")) 256
      let sourceVersion ← requiredString (server.lookup (text "version")) 128
      if (externalId, sourceVersion) ∈ identities then throw .invalidResponse
      let name ←
        requiredString (some ((server.lookup (text "title")).getD (.str externalId))) 256
      let description ← optionalString (server.lookup (text "description")) 2048
      let urls ← advertisedUrls server
      let _ ← canonicalJson P value
      let normalized := value.sorted P.floatText
      let provenanceDigest ← digest P normalized
      return ⟨externalId, sourceVersion, name, description, urls, provenanceDigest, normalized⟩
    | _ => .error .invalidResponse
  | _ => .error .invalidResponse

/-- The rounds of `_normalize_items` over the values that are left. -/
def normalizeRounds (identities : List (Text × Text)) :
    List Value → Except OfficialRegistryFailureCode (List OfficialRegistryItem)
  | [] => .ok []
  | value :: values => do
    let item ← normalizeItem P identities value
    let items ← normalizeRounds ((item.externalId, item.sourceVersion) :: identities) values
    return item :: items

def normalizeItems (values : List Value) :
    Except OfficialRegistryFailureCode (List OfficialRegistryItem) := normalizeRounds P [] values

/-- `parse_cached_items`, given what the scanner process answers. -/
def parseCachedItems (limits : OfficialRegistryLimits)
    (scan : Value → Except OfficialRegistryFailureCode Bool) (values : Value) :
    Except OfficialRegistryFailureCode (List OfficialRegistryItem) :=
  match values with
  | .list items => do
    if limits.maxItems < items.length then throw .invalidResponse
    if isBoundedJson values = false then throw .responseLimit
    if ← scan values then throw .unsafeMetadata
    normalizeItems P items
  | _ => .error .invalidResponse

end items

end Modall.Registry.Official
