import Modall.Library.Quoting
import Modall.Security.Metadata

/-!
# Endpoints

Host names and URL paths: `modall/security/endpoints.py`, and the part of
`modall/security/metadata.py` that screens them. What the standard library and the `idna` package do
with host names and URLs is a parameter.
-/
namespace Modall.Security

open Library Library.Regex Library.Text
open Library.Regex.Pattern (optional upTo sequence)

/-- An address, as `ipaddress` classifies it. -/
structure IpAddress where
  compressed : Text
  isGlobal : Bool
  isMulticast : Bool
  isLoopback : Bool
  isLinkLocal : Bool
  isPrivate : Bool
  isReserved : Bool
  isUnspecified : Bool
deriving DecidableEq

/-- What `urlsplit` returns. Reading the port may raise a `ValueError`. -/
structure SplitResult where
  scheme : Text
  username : Option Text
  password : Option Text
  hostname : Option Text
  port : Option (Option Nat)
  path : Text
  query : Text
  fragment : Text

/-- The parameters; `none` is a `ValueError`. -/
structure UrlPlatform where
  lower : Text → Text
  urlsplit : Text → Option SplitResult
  ipAddress : Text → Option IpAddress
  /-- `idna.encode(hostname).decode("ascii")`. -/
  idnaEncode : Text → Option Text
  /-- `inet_aton` accepts the text. -/
  inetAton : Text → Bool

structure NormalizedEndpointHost where
  value : Text
  parsedIp : Option IpAddress
  isIpLiteral : Bool

def isAsciiAlnum (c : Nat) : Bool := within 'A' 'Z' c || within 'a' 'z' c || within '0' '9' c

/-- `[A-Za-z0-9](?:[A-Za-z0-9-]{0,61}[A-Za-z0-9])?\Z`. -/
def dnsLabel : Pattern Nat :=
  sequence [.one isAsciiAlnum,
    optional (.seq (upTo (.one fun c => isAsciiAlnum c || among "-" c) 61) (.one isAsciiAlnum)),
    .finish]

/-- `value.removesuffix(".")`. -/
def removeDot (value : Text) : Text := if value.getLast? = some '.'.toNat then value.dropLast else value

/-- `value.split(separator)`. -/
def split (separator : Char) (value : Text) : List Text := value.splitOn separator.toNat

/-- `normalize_endpoint_host`. -/
def normalizeEndpointHost (U : UrlPlatform) (rawHostname : Option Text) :
    Option NormalizedEndpointHost :=
  let lowered :=
    match rawHostname with
    | none | some [] => []
    | some hostname => U.lower hostname
  if lowered = [] ∨ text ".." <:+ lowered ∨ '%'.toNat ∈ lowered then none
  else
    let hostname := removeDot lowered
    match U.ipAddress hostname with
    | some parsedIpLiteral =>
      some ⟨parsedIpLiteral.compressed, some parsedIpLiteral, true⟩
    | none => do
      let normalized ← U.idnaEncode hostname
      if 253 < normalized.length ∨
          ((split '.' normalized).any fun label => (fullmatch dnsLabel label).isNone) = true then
        none
      else some ⟨normalized, none, U.inetAton normalized⟩

/-! ## Markers in hosts and paths -/

def looksLikeMarkerSuffix (value : Text) : Bool :=
  looksLikeSecretCandidate value ||
    looksLikeSecretCandidate (value.filter fun c => !among "./" c)

/-- `word.isalpha() and word.islower()` of a word of letters that `re.IGNORECASE` compares with ASCII
ones, digits and signs. -/
def isLowerWord (word : Text) : Bool :=
  !word.isEmpty && word.all fun c => within 'a' 'z' c || c == 0x131 || c == 0x17f

def looksLikeInternalMarkerSuffix (value : Text) : Bool :=
  let words := split '-' value
  if 1 < words.length && words.all isLowerWord then false else looksLikeMarkerSuffix value

/-- The value behind a marker in a whole label or segment. -/
def markedValue (pattern : Pattern Nat) (suspicious : Text → Bool) (label : Text) : Bool :=
  match fullmatch pattern label with
  | some m => (m.group valueGroup).any suspicious
  | none => false

/-- A label that names a secret, in front of labels that could be one. -/
def markedLabels : List Text → Bool
  | [] | [_] => false
  | label :: next :: rest =>
    isSensitiveField label &&
        ((next :: rest).inits.any fun labels =>
          !labels.isEmpty && looksLikeMarkerSuffix (join (text ".") labels)) ||
      markedLabels (next :: rest)

def containsSensitiveHostname (hostname : Text) : Bool :=
  let labels := split '.' (hostname.rdropWhile (· == '.'.toNat))
  markedLabels labels || labels.any (markedValue sensitiveMarkerPrefix looksLikeMarkerSuffix) ||
    labels.any (markedValue sensitiveHostLabelMarker looksLikeMarkerSuffix)

def containsSensitiveUrlPath (path : Text) : Bool :=
  (split '/' path).any (markedValue sensitiveMarkerPrefix looksLikeMarkerSuffix) ||
    (split '/' path).any (markedValue sensitiveHostLabelMarker looksLikeInternalMarkerSuffix) ||
    (findAll sensitivePathMarker path).any fun m => (m.group valueGroup).any looksLikeMarkerSuffix

/-! ## Paths -/

/-- `unquote(value, errors="strict")`. -/
def unquoteStrict (value : Text) : Option Text := (unquoteUnits .between value).allSome

/-- `%` with two hexadecimal digits behind it. -/
def isEscape : Text → Bool
  | 0x25 :: a :: b :: _ => (hexByte a b).isSome
  | _ => false

/-- A `%` without two hexadecimal digits behind it. -/
def hasStrayPercent (value : Text) : Bool :=
  value.tails.any fun rest => rest.head? == some 0x25 && !isEscape rest

def decodeSafeUrlPath (path : Text) : Option Text :=
  if hasStrayPercent path then none
  else
    match unquoteStrict path with
    | none => none
    | some decodedPath =>
      if decodedPath.tails.any isEscape ||
          decodedPath.any (fun c => isspace c || decide (c < 32) || (127 ≤ c && c ≤ 159)) then none
      else some decodedPath

/-! ## URLs in texts -/

/-- `https?://[^\s<>\[\]{}"']+` under `re.IGNORECASE`. -/
def urlCandidate : Pattern Nat :=
  sequence [word "http", optional (word "s"), word "://",
    .many (fun c => !isspace c && !among "<>[]\x7b\x7d\"'" c) 1 true]

/-- The texts that up to that many rounds of decoding give, as long as they change something. -/
def decodings : Nat → Text → List Text
  | 0, _ => []
  | rounds + 1, value =>
    match unquoteStrict value with
    | none => []
    | some decoded => if decoded = value then [] else decoded :: decodings rounds decoded

/-- The screens of a path, a query, a fragment or a user name. -/
def isSensitivePart (part : Text) : Bool :=
  containsSensitiveUrlPath part || containsObviousSecret part

/-- The screen of a URL by its parts; `none` where one of them cannot be read. -/
def urlPartsSensitive (U : UrlPlatform) (candidate : Text) : Option Bool := do
  let parsed ← U.urlsplit candidate
  let host ← normalizeEndpointHost U parsed.hostname
  let decodedPath ← decodeSafeUrlPath parsed.path
  let decodedUsername ←
    match parsed.username with
    | none => some none
    | some username => (decodeSafeUrlPath username).map some
  let decodedQuery ← decodeSafeUrlPath parsed.query
  let decodedFragment ← decodeSafeUrlPath parsed.fragment
  return parsed.password.isSome || containsSensitiveHostname host.value ||
    isSensitivePart decodedPath || isSensitivePart decodedQuery || isSensitivePart decodedFragment ||
    decodedUsername.any isSensitivePart

/-- One embedded URL, without the punctuation behind it. -/
def isSensitiveUrl (U : UrlPlatform) (found : Text) : Bool :=
  let candidate := found.rdropWhile (among ".,;:!?)]")
  isSensitivePart ((decodeSafeUrlPath candidate).getD candidate) ||
    (urlPartsSensitive U candidate).getD false

def containsSensitiveUrl (U : UrlPlatform) (value : Text) : Bool :=
  (value :: decodings 3 value).any fun candidate =>
    (findAll urlCandidate candidate).any fun m => isSensitiveUrl U m.text

end Modall.Security
