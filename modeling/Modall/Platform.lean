import Modall.Persistence.Session

/-!
# What the ledger calls but does not define

Hashing, token signing, JSON text, the content screens and the database collation are
functions of libraries or of other packages. The ledger's behaviour is stated for any choice
of them; a result that relies on a property of one says so in a hypothesis.

Byte strings are kept as the text whose UTF-8 encoding they are. The two byte strings that
the idempotency keys authenticate are kept by their parts: `b"key\0"` and `b"request\0"`
separate the domains, and inside each the parts are delimited by fixed text.
-/
namespace Modall
open Library

/-- The string order of the database, used by `>` and `ORDER BY` alike. -/
structure Collation where
  lt : String → String → Bool
  irrefl : ∀ a, lt a a = false
  trans : ∀ a b c, lt a b = true → lt b c = true → lt a c = true
  total : ∀ a b, a ≠ b → lt a b = true ∨ lt b a = true

inductive SchemaValidationResult where
  | valid | invalidArguments | invalidSchema | scannerFailed
deriving DecidableEq

/-- The JSON object `_canonical_request` dumps. -/
structure CanonicalRequest where
  capabilityId : Uuid
  capabilityVersionId : Uuid
  connectionId : Uuid
  connectionVersionId : Uuid
  argumentDigest : Digest
  deadline : Option Time
  method : String
  route : String
deriving DecidableEq

/-- A message authenticated under an idempotency key. -/
inductive HmacMessage where
  | key (workspaceId actorUserId : Uuid) (method route rawKey : String)
  | request (canonicalRequest : CanonicalRequest)
deriving DecidableEq

/-- The claims of a confirmation token. -/
structure TokenPayload where
  iss : String
  aud : String
  iat : Int
  exp : Int
  jti : String
  w : Uuid
  a : Uuid
  cv : Uuid
  c : Uuid
  cn : Uuid
  cnv : Uuid
  ad : Digest
  r : String
deriving DecidableEq

/-- A token signed with HS256: its `kid` header, the secret that signs it and its claims. -/
structure ConfirmationToken where
  kid : String
  secret : Bytes
  payload : TokenPayload
deriving DecidableEq

/-- The functions the ledger is given. -/
structure Platform where
  /-- `validate_bounded_json` returns normally. -/
  validateBoundedJson : Json → Bool
  /-- `json.dumps(..., sort_keys=True, separators=(",", ":")).encode()`, unless it raises. -/
  canonicalJson : Json → Option String
  loads : String → Json
  sha256 : String → Digest
  hmacHex : Bytes → HmacMessage → Digest
  /-- `contains_sensitive_json`, unless it raises. -/
  containsSensitiveJson : Json → Option Bool
  validateSchemaArguments : Json → Json → SchemaValidationResult
  /-- The number of characters of the token's compact serialization. -/
  tokenLength : ConfirmationToken → Nat
  collation : Collation

/-- HMAC under one secret tells distinct messages apart. -/
def Platform.HmacInjective (P : Platform) : Prop :=
  ∀ secret m n, P.hmacHex secret m = P.hmacHex secret n → m = n

end Modall
