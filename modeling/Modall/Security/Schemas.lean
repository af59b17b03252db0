import Modall.Library.Worklist
import Modall.Security.Documents
import Modall.Security.References

/-!
# Secrets in schemas

`contains_sensitive_schema` walks the subschemas of a schema with an explicit stack. An entry of
the stack is a subschema and whether a property name above it is sensitive. Local references are
followed below sensitive names only, so the walk can go in circles: it marks what it has seen.
-/
namespace Modall.Security

open Library Library.Json Library.Text

def schemaMapKeys : List Text :=
  ["$defs", "definitions", "dependentSchemas", "patternProperties"].map text

def schemaKeys : List Text :=
  ["additionalProperties", "contains", "contentSchema", "else", "if", "items", "not",
    "propertyNames", "then", "unevaluatedItems", "unevaluatedProperties"].map text

def schemaArrayKeys : List Text := ["allOf", "anyOf", "oneOf", "prefixItems"].map text

def annotationKeys : List Text := ["$comment", "description", "title"].map text

def referenceKeys : List Text := ["$ref", "$dynamicRef", "$recursiveRef"].map text

def anchorKeys : List Text := ["$anchor", "$dynamicAnchor"].map text

/-- `isinstance(value, dict)`. -/
def isDict : Value → Bool
  | .object _ => true
  | _ => false

/-- `isinstance(value, list)`. -/
def isList : Value → Bool
  | .list _ => true
  | _ => false

/-- `isinstance(value, (dict, bool))`. -/
def isSchema : Value → Bool
  | .object _ | .bool _ => true
  | _ => false

/-! ## Anchors -/

/-- The anchors an object declares, in the order in which they are read. -/
def declaredAnchors (current : Place) : List Text :=
  anchorKeys.filterMap fun keyword =>
    match current.value.child (.member keyword) with
    | some (.str anchor) => some anchor
    | _ => none

/-- Entering anchors for an object; `none` where one is there already. -/
def enterAnchors (current : Place) :
    List (Text × Place) → List Text → Option (List (Text × Place))
  | anchors, [] => some anchors
  | anchors, anchor :: rest =>
    if (anchors.lookup anchor).isSome then none
    else enterAnchors current ((anchor, current) :: anchors) rest

/-- The values of a member that is an object. -/
def valuesAt (current : Place) (key : Text) : List Place :=
  match current.child (.member key) with
  | some schemas => schemas.members.map Prod.snd
  | none => []

def schemaAt (current : Place) (key : Text) : List Place :=
  match current.child (.member key) with
  | some schema => if isSchema schema.value then [schema] else []
  | none => []

def itemsAt (current : Place) (key : Text) : List Place :=
  match current.child (.member key) with
  | some schemas => schemas.items
  | none => []

/-- The subschemas the index goes on with. The keywords are kept in sets, and the order in which a
set is read does not matter. -/
def candidates (current : Place) : List Place :=
  valuesAt current (text "properties") ++ schemaMapKeys.flatMap (valuesAt current) ++
    schemaKeys.flatMap (schemaAt current) ++ schemaArrayKeys.flatMap (itemsAt current)

def visitCandidate (anchors : List (Text × Place)) (current : Place) :
    Except Unit (List (Text × Place) × List Place) :=
  match enterAnchors current anchors (declaredAnchors current) with
  | some anchors' => .ok (anchors', candidates current)
  | none => .error ()

/-- `_index_schema_anchors`: the object of each anchor, or `none` where an anchor is declared
twice. The outer `none` says that the loop needs more fuel. -/
def indexSchemaAnchors (fuel : Nat) (root : Value) : Option (Option (List (Text × Place))) :=
  (Worklist.traverse visitCandidate Place.path fuel [] [] [.root root]).map Except.toOption

/-! ## The walk -/

/-- How the walk ends early. -/
inductive Ending where
  | secret
  | raised (error : ValueError)
  deriving DecidableEq

abbrev Entry := Place × Bool

def sensitiveFieldProbes : List Text :=
  ["api_key", "apiKey", "access_token", "refresh_token", "session_token", "auth_token",
    "bearer_token", "credential", "credentials", "authorization", "authentication", "private_key",
    "privateKey", "client_secret", "clientSecret", "secret", "password", "token"].map text

/-- What the modelled code calls: `re2.compile`, whose result searches a text, and `str` of a
float. -/
structure Libraries where
  compile : Text → Option (Text → Bool)
  floatText : Text → Text

def patternMatchesSensitiveField (libraries : Libraries) (pattern : Text) : Bool :=
  match libraries.compile pattern with
  | none => true
  | some search => sensitiveFieldProbes.any search

/-- The local reference a member holds. -/
def localReference (key : Text) : Value → Option Text
  | .str reference =>
    if referenceKeys.contains key && reference.head? == some '#'.toNat then some reference else none
  | _ => none

/-- Where the walk stops at a member that is no subschema. -/
def memberExposes (libraries : Libraries) (sensitive : Bool) (key : Text) (child : Value) : Bool :=
  (sensitive && literalKeys.contains key &&
      containsObviousSecretInJson libraries.floatText true child) ||
    (sensitive && annotationKeys.contains key && match child with
      | .str value => looksLikeSecretCandidate value || containsObviousSecret value
      | _ => false) ||
    (!literalKeys.contains key &&
      containsSensitiveJson libraries.floatText (.object [(key, child)])) ||
    (literalKeys.contains key && containsSensitiveJson libraries.floatText child)

section walk
variable (libraries : Libraries) (root : Value) (anchors : List (Text × Place))

/-- One member of a subschema: the entries it pushes, or how it ends the walk. -/
def visitMember (sensitive : Bool) (key : Text) (child : Place) : Except Ending (List Entry) :=
  match if sensitive then localReference key child.value else none with
  | some reference =>
    match resolveLocalSchemaReference root reference anchors with
    | .error error => .error (.raised error)
    | .ok target => .ok (target.toList.map (·, true))
  | none =>
    if key = text "properties" ∧ isDict child.value then
      .ok (child.members.map fun (name, schema) => (schema, sensitive || isSensitiveField name))
    else if key = text "patternProperties" ∧ isDict child.value then
      .ok (child.members.map fun (pattern, schema) =>
        (schema, sensitive || patternMatchesSensitiveField libraries pattern))
    else if key = text "dependentSchemas" ∧ isDict child.value then
      .ok (child.members.map fun (name, schema) => (schema, sensitive || isSensitiveField name))
    else if schemaMapKeys.contains key ∧ isDict child.value then
      .ok (child.members.map fun (_, schema) => (schema, sensitive))
    else if schemaKeys.contains key ∧ isSchema child.value then .ok [(child, sensitive)]
    else if schemaArrayKeys.contains key ∧ isList child.value then
      .ok (child.items.map (·, sensitive))
    else if memberExposes libraries sensitive key child.value then .error .secret
    else .ok []

def visitMembers (sensitive : Bool) : List (Text × Place) → Except Ending (List Entry)
  | [] => .ok []
  | (key, child) :: members =>
    match visitMember libraries root anchors sensitive key child with
    | .error ending => .error ending
    | .ok pushed => (visitMembers sensitive members).map (pushed ++ ·)

def visitEntry : Entry → Except Ending (List Entry)
  | (current, sensitive) =>
    match current.value with
    | .object _ => visitMembers libraries root anchors sensitive current.members
    | .str value =>
      if (sensitive && looksLikeSecretCandidate value) || containsObviousSecret value then
        .error .secret
      else .ok []
    | value =>
      if sensitive && isNumber value &&
          decide (8 ≤ (numberText libraries.floatText value).length) then .error .secret
      else .ok []

def visitSchema (_ : Unit) (entry : Entry) : Except Ending (Unit × List Entry) :=
  (visitEntry libraries root anchors entry).map ((), ·)

/-- What marks an entry: the identity of the object, and the flag. -/
def mark (entry : Entry) : Path × Bool := (entry.1.path, entry.2)

end walk

/-- `contains_sensitive_schema`, or `none` while the loops need more fuel. -/
def containsSensitiveSchema (libraries : Libraries) (fuel : Nat) (value : Value) :
    Option (Except ValueError Bool) := do
  match ← indexSchemaAnchors fuel value with
  | none => return .ok true
  | some anchors =>
    match ← Worklist.traverse (visitSchema libraries value anchors) mark fuel [] ()
      [(.root value, false)] with
    | .ok _ => return .ok false
    | .error .secret => return .ok true
    | .error (.raised error) => return .error error

end Modall.Security
