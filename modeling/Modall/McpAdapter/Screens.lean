import Modall.Library.Codecs
import Modall.Security.Documents

/-!
# Screens for response bodies

What the adapter asks of the body of a response: whether its JSON holds something sensitive, as one
document or as one event of a stream, and whether it is the answer to the request.
-/
namespace Modall.McpAdapter

open Library Library.Json Library.Text Library.Regex Security

/-- What the screens depend on in the interpreter. -/
structure Interpreter where
  /-- `str(float(spelling))`. -/
  floatText : Text → Text
  /-- How deep the JSON decoder nests before it raises a `RecursionError`. -/
  nesting : Nat

/-- An exception that a screen does not handle. -/
inductive Unhandled where
  | valueError
  | recursionError
deriving DecidableEq

abbrev Screen := Except Unhandled Bool

/-- `first or second`. -/
def Screen.orElse (first second : Screen) : Screen :=
  match first with
  | .error e => .error e
  | .ok true => .ok true
  | .ok false => second

/-- `any(tests)`. -/
def Screen.any : List Screen → Screen
  | [] => .ok false
  | test :: tests => test.orElse (Screen.any tests)

/-! ## JSON text -/

/-- `_reject_duplicate_members`; `none` is a `_DuplicateJsonMember`. -/
def rejectDuplicateMembers (pairs : List (Text × Value)) : Option (List (Text × Value)) :=
  pairs.foldlM (fun value (key, child) =>
    if value.any (·.1 == key) then none else some (value ++ [(key, child)])) []

/-- The members of a dictionary that is filled from pairs: a later pair replaces the value of an
earlier one. -/
def mergeMembers (pairs : List (Text × Value)) : List (Text × Value) :=
  pairs.foldl (fun value (key, child) =>
    if value.any (·.1 == key) then
      value.map fun member => if member.1 == key then (key, child) else member
    else value ++ [(key, child)]) []

namespace Interpreter
variable (I : Interpreter)

def uniqueDecoder : Decoder := ⟨I.nesting, rejectDuplicateMembers⟩

def plainDecoder : Decoder := ⟨I.nesting, fun pairs => some (mergeMembers pairs)⟩

end Interpreter

/-- `"(?:\\.|[^"\\]){1,128}"\s*:`, where a dot accepts no line feed. -/
def jsonMemberName : Pattern Nat :=
  let quote := .one (· == '"'.toNat)
  let unit := .alt (.seq (.one (· == '\\'.toNat)) (.one (· != 0x0a)))
    (.one fun c => c != '"'.toNat && c != '\\'.toNat)
  Pattern.sequence [quote, unit, Pattern.upTo unit 127, quote, .many isspace 0 true,
    .one (· == ':'.toNat)]

namespace Interpreter
variable (I : Interpreter)

/-- The key of one match of the member pattern, if it decodes. -/
def memberName (m : Match Nat) : Option Text :=
  match I.plainDecoder.decode (rstrip m.text.dropLast) with
  | .found (.str key) _ => some key
  | _ => none

/-- A value that is opaque enough to be refused below a sensitive name. -/
def probe : Value := .str (text "AbCdEfGhIjKlMnOpQrStUvWx")

def containsSensitiveMemberName (value : Text) : Bool :=
  (findAll jsonMemberName value).any fun m =>
    (I.memberName m).any fun key => containsSensitiveJson I.floatText (.object [(key, probe)])

/-- The later of two positions in a text. -/
def later (a b : Text) : Text := if a.length ≤ b.length then a else b

def isOpening (c : Nat) : Bool := c == '\x7b'.toNat || c == '['.toNat

/-- The loop of `_contains_sensitive_json_text` over the values in a text, at one position. Every
round begins behind the round before it. -/
def scanValues (value : Text) : Nat → Text → Screen
  | 0, _ => .ok false
  | fuel + 1, position =>
    match lstrip position with
    | [] => .ok false
    | c :: rest =>
      match I.uniqueDecoder.rawDecode (c :: rest) with
      | .found parsed next =>
        if containsSensitiveJson I.floatText parsed then .ok true else scanValues value fuel next
      | .refused => .ok true
      | .tooDeep => .ok true
      | .tooLong => .error .valueError
      | .failed error =>
        if I.containsSensitiveMemberName value then .ok true
        else scanValues value fuel
          (((later (c :: rest) error).drop 1).dropWhile fun c => !isOpening c)

/-- The text read as the members of an object, first. -/
def containsSensitiveMembers (value : Text) : Screen :=
  match I.uniqueDecoder.decode ('\x7b'.toNat :: value ++ ['\x7d'.toNat]) with
  | .refused => .ok true
  | .failed _ => .ok false
  | .tooDeep => .ok false
  | .tooLong => .error .valueError
  | .found member _ => .ok (containsSensitiveJson I.floatText member)

def containsSensitiveJsonText (value : Text) : Screen :=
  (I.containsSensitiveMembers value).orElse
    (I.scanValues value ((lstrip value).length + 1) value)

def containsSensitiveJsonDocument (value : ByteString) : Screen :=
  I.containsSensitiveJsonText (decodeIgnore value)

/-! ## Events -/

/-- `line.partition(":")[2].lstrip()`. -/
def fieldValue (line : Text) : Text := lstrip (behind ':'.toNat line)

/-- The values of the `data` fields. -/
def dataLines (lines : List Text) : List Text :=
  (lines.filter ((text "data:").isPrefixOf ·)).map fieldValue

/-- The tests of `_contains_sensitive_sse_event` on the lines of an event. -/
def containsSensitiveLines (lines : List Text) : Screen :=
  let fields := lines.filter (·.contains ':'.toNat)
  (Screen.any (lines.map I.containsSensitiveJsonText)).orElse
    ((Screen.any ((fields.map fieldValue).map I.containsSensitiveJsonText)).orElse
      ((Screen.any ((fields.map fun line => '\x7b'.toNat :: line ++ ['\x7d'.toNat]).map
          I.containsSensitiveJsonText)).orElse
        (if (dataLines lines).isEmpty then .ok false
          else I.containsSensitiveJsonText (join [0x0a] (dataLines lines)))))

def containsSensitiveSseEvent (event : ByteString) : Screen :=
  match decodeStrict event with
  | none => .ok false
  | some text =>
    if containsObviousSecret text then .ok true else I.containsSensitiveLines (splitlines text)

/-! ## Answers -/

/-- The request's identifier as a response has to give it: `expected id` is
`type(id) is type(expected_id) and id == expected_id`. -/
abbrev ExpectedId := Value → Bool

def isObject : Value → Bool
  | .object _ => true
  | _ => false

/-- The classification of a decoded body: whether it answers the request, and with an error. -/
def classifyPayload (expected : ExpectedId) : Value → Bool × Bool
  | .object members =>
    match members.lookup (text "jsonrpc"), members.lookup (text "id") with
    | some (.str version), some id =>
      if version ≠ text "2.0" ∨ (members.lookup (text "result")).isNone ∧
          (members.lookup (text "error")).isNone then (false, false)
      else (expected id, expected id && (members.lookup (text "error")).any isObject)
    | _, _ => (false, false)
  | _ => (false, false)

/-- `_jsonrpc_response`; `none` is a body that does not decode. -/
def jsonrpcResponse (expected : ExpectedId) (value : ByteString) :
    Except Unhandled (Option (Bool × Bool)) :=
  match decodeDetected value with
  | none => .ok none
  | some decoded =>
    match I.plainDecoder.decode decoded with
    | .found payload _ => .ok (some (classifyPayload expected payload))
    | .failed _ => .ok none
    | .refused => .ok none
    | .tooDeep => .error .recursionError
    | .tooLong => .error .valueError

/-- `_sse_jsonrpc_response`. Text that was decoded has no surrogates, so it encodes. -/
def sseJsonrpcResponse (expected : ExpectedId) (event : ByteString) :
    Except Unhandled (Bool × Bool) :=
  match encode (join [0x0a] (dataLines (splitlines (decodeIgnore event)))) with
  | none => .ok (false, false)
  | some body =>
    match I.jsonrpcResponse expected body with
    | .error e => .error e
    | .ok response => .ok (response.getD (false, false))

end Interpreter

end Modall.McpAdapter
