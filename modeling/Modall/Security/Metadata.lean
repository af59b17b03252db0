import Mathlib
import Modall.Library.Regex
import Modall.Library.Text

/-!
# Credential-shaped text

The patterns and the tests of the metadata screen: text that contains something like a credential,
values that look opaque, field names that announce a secret, and host names and URL paths with a
marker in front of an opaque value.
-/
namespace Modall.Security

open Library Library.Regex Library.Text
open Library.Regex.Pattern (optional upTo times oneOf sequence)

/-! ## Patterns -/

/-- A literal under `re.IGNORECASE`, written in lower case. -/
def word (s : String) : Pattern Nat :=
  sequence ((text s).map fun letter => .one fun c => fold c == letter)

/-- `[A-Za-z0-9]` under `re.IGNORECASE`. -/
def isAlnum (c : Nat) : Bool := within 'a' 'z' (fold c) || within '0' '9' (fold c)

/-- `[A-Za-z0-9._~+/=\-]` under `re.IGNORECASE`. -/
def isOpaque (c : Nat) : Bool := isAlnum c || among "._~+/=-" c

def dash : Pattern Nat := .one (among "_-")

/-- `$`: the end, or a line feed that ends the text. -/
def dollar : Pattern Nat := .ahead (.alt .finish (.seq (.one (· == 0x0a)) .finish))

/-- Which groups the patterns name. -/
def valueGroup : Nat := 0
def assignedGroup : Nat := 1
def bearerGroup : Nat := 2

/-- `(?:access|refresh|session|auth|bearer)`. -/
def tokenKind : Pattern Nat :=
  oneOf [word "access", word "refresh", word "session", word "auth", word "bearer"]

def obviousSecret : Pattern Nat :=
  oneOf [.seq (word "sk_live_") (.many isAlnum 8 true),
    .seq (word "sk-") (.many (fun c => isAlnum c || among "_-" c) 16 true),
    sequence [word "gh", .one (fun c => among "pousr" (fold c)), word "_", .many isAlnum 16 true],
    .seq (word "akia") (times (.one isAlnum) 16),
    sequence [word "-----begin ", .many (fun c => within 'a' 'z' (fold c) || among " " c) 0 true,
      word "private key-----"]]

/-- The marker words, with the dash each of the patterns allows in them. -/
def genericSecretMarker : Pattern Nat :=
  oneOf [sequence [word "api", optional dash, word "key"],
    .seq (optional (.seq tokenKind (optional dash))) (word "token"),
    word "credential", sequence [word "private", optional dash, word "key"], word "secret",
    word "password"]

def genericSecretValue : Pattern Nat :=
  sequence [genericSecretMarker, optional (.one (among "\"'")),
    oneOf [.seq (.one (among "=:/"))
        (.many (fun c => isspace c || c ≤ 0x1f || (0x7f ≤ c && c ≤ 0x9f)) 0 true),
      .many isspace 1 true],
    optional (.one (among "\"'\x60")), .many isspace 0 true,
    .group valueGroup (.many isOpaque 8 true)]

def authorizationValue : Pattern Nat :=
  oneOf [sequence [oneOf [word "authorization", word "authentication"], .many isspace 0 true,
      .one (among ":="), .many isspace 0 true,
      optional (.seq (word "bearer") (.many isspace 1 true)),
      .group assignedGroup (.many isOpaque 8 true)],
    sequence [word "bearer", .many isspace 1 true, .group bearerGroup (.many isOpaque 8 true)]]

def sensitiveJsonField : Pattern Nat :=
  sequence [.alt .start dash,
    oneOf [sequence [word "api", optional dash, word "key"],
      sequence [optional tokenKind, optional dash, word "token"],
      word "authorization", word "authentication",
      .seq (word "credential") (optional (word "s")),
      sequence [word "private", optional dash, word "key"], word "secret", word "password"],
    .alt dollar dash]

/-- `[A-Za-z0-9._~+/=\-]{8,}\Z`, where case counts. -/
def opaqueAnnotationValue : Pattern Nat :=
  .seq (.many (fun c => within 'A' 'Z' c || within 'a' 'z' c || within '0' '9' c ||
    among "._~+/=-" c) 8 true) .finish

def sensitiveMarkerPrefix : Pattern Nat :=
  sequence [genericSecretMarker, dash, .group valueGroup (.many isOpaque 8 true), .finish]

def sensitivePathMarker : Pattern Nat :=
  sequence [.alt .start (.one (among "!$&'()*+,.;:=@/")), genericSecretMarker, dash,
    .group valueGroup (.many isOpaque 8 false),
    .ahead (.alt dollar (.one (among "!$&'()*,;:=@")))]

def sensitiveHostLabelMarker : Pattern Nat :=
  sequence [.alt .start (.seq (.many (· != 0x0a) 0 true) (.one (among "-"))), genericSecretMarker,
    dash, .group valueGroup (.many (fun c => isAlnum c || among "_~+=-" c) 8 true), .finish]

def authModeWords : List Text :=
  ["anonymous", "api", "apikey", "auth", "authentication", "authorization", "basic", "bearer",
    "client", "code", "credentials", "device", "digest", "disabled", "enabled", "key", "jwt",
    "mtls", "none", "oauth", "oauth2", "oidc", "optional", "pkce", "public", "required",
    "supported", "unsupported"].map text

/-! ## Values -/

/-- Whether `2 * _entropy_bits(value) >= bits`, without the logarithms: `count * log2(length /
count)` summed over the characters is `log2` of `length ^ length / ∏ count ^ count`. -/
def entropyReaches (bits : Nat) (value : Text) : Bool :=
  2 ^ bits * ((value.dedup.map fun c => value.count c ^ (2 * value.count c)).prod) ≤
    value.length ^ (2 * value.length)

def looksLikeOpaqueValue (value : Text) : Bool :=
  if value.length < 12 || (fullmatch opaqueAnnotationValue value).isNone then false
  else entropyReaches (7 * value.length) value

def looksLikeSecretCandidate (value : Text) : Bool :=
  looksLikeOpaqueValue value ||
    (16 ≤ value.length && isdecimal value && entropyReaches 128 value)

def isAuthMode (value : Text) : Bool :=
  let words := words (among "_-") (lower value)
  !words.isEmpty && words.all (authModeWords.contains ·)

/-- The text from each marker to the next one, or to the end. -/
def markerWindows : List (Match Nat) → List Text
  | [] => []
  | [m] => [m.start]
  | m :: next :: rest =>
    m.start.take (m.start.length - next.start.length) :: markerWindows (next :: rest)

/-- The value a marker is followed by; the pattern asks nothing about the text before it. -/
def genericSecretAt (window : Text) : Bool :=
  match matchAt genericSecretValue [] window with
  | some m => (m.group valueGroup).any looksLikeSecretCandidate
  | none => false

def authorizationSecret (m : Match Nat) : Bool :=
  match m.group assignedGroup with
  | some candidate => !isAuthMode candidate && looksLikeSecretCandidate candidate
  | none => (m.group bearerGroup).any looksLikeSecretCandidate

def containsObviousSecret (value : Text) : Bool :=
  (search obviousSecret [] value).isSome ||
    (markerWindows (findAll genericSecretMarker value)).any genericSecretAt ||
    (findAll authorizationValue value).any authorizationSecret

/-- No credential begins with a line break, so one at the front makes no difference. -/
lemma containsObviousSecret_cons {c : Nat} (h : c = 0x0a ∨ c = 0x0d) (rest : Text) :
    containsObviousSecret (c :: rest) = containsObviousSecret rest := by
  have hsecret : matchAt obviousSecret [] (c :: rest) = none := by obtain rfl | rfl := h <;> rfl
  have hmarker : matchAt genericSecretMarker [] (c :: rest) = none := by
    obtain rfl | rfl := h <;> rfl
  have hvalue : matchAt authorizationValue [] (c :: rest) = none := by
    obtain rfl | rfl := h <;> rfl
  rw [containsObviousSecret, containsObviousSecret, search_cons rfl c rest hsecret,
    findAll_cons rfl c rest hmarker, findAll_cons rfl c rest hvalue]

/-! ## Field names -/

/-- `re.sub(r"(?<=[a-z0-9])(?=[A-Z])", "_", key)`. -/
def splitCamel : Text → Text
  | a :: b :: rest =>
    if (within 'a' 'z' a || within '0' '9' a) && within 'A' 'Z' b then
      a :: '_'.toNat :: splitCamel (b :: rest)
    else a :: splitCamel (b :: rest)
  | short => short

/-- `re.sub(r"[^A-Za-z0-9]+", "_", value)`; `inside` says that the run has its dash already. -/
def joinWords (inside : Bool) : Text → Text
  | [] => []
  | c :: rest =>
    if within 'A' 'Z' c || within 'a' 'z' c || within '0' '9' c then c :: joinWords false rest
    else if inside then joinWords true rest
    else '_'.toNat :: joinWords true rest

def isSensitiveField (key : Text) : Bool :=
  (search sensitiveJsonField [] (joinWords false (splitCamel key))).isSome

def isExpirationField (key : Text) : Bool :=
  let words := words (fun c => !(within 'a' 'z' c || within '0' '9' c)) (lower (splitCamel key))
  words.any (["expiration", "expires", "expiry", "lifetime", "ttl"].map text).contains

end Modall.Security
