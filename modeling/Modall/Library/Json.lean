import Modall.Library.Text

/-!
# Decoding JSON text

The decoder of the Python standard library. A position in the text is the text from there on, so
an error carries the text at the position it reports, and what follows a value is what is left.
-/
namespace Modall.Library.Json

/-- A decoded value; a float keeps the text that spells it. -/
inductive Value where
  | null
  | bool (b : Bool)
  | int (n : Int)
  | float (spelling : Text)
  | str (value : Text)
  | list (items : List Value)
  | object (members : List (Text × Value))

namespace Value

mutual

/-- The number of values in a value, itself included. -/
def nodes : Value → Nat
  | .list items => itemNodes items + 1
  | .object members => memberNodes members + 1
  | _ => 1

def itemNodes : List Value → Nat
  | [] => 0
  | item :: items => item.nodes + itemNodes items

def memberNodes : List (Text × Value) → Nat
  | [] => 0
  | (_, child) :: members => child.nodes + memberNodes members

end

lemma nodes_pos (v : Value) : 0 < v.nodes := by
  cases v <;> simp [nodes]

lemma itemNodes_eq (items : List Value) : itemNodes items = (items.map nodes).sum := by
  induction items with
  | nil => simp [itemNodes]
  | cons item items ih => simp [itemNodes, ih]

lemma memberNodes_eq (members : List (Text × Value)) :
    memberNodes members = (members.map fun member => member.2.nodes).sum := by
  induction members with
  | nil => simp [memberNodes]
  | cons member members ih => simp [memberNodes, ih]

/-- The values that occur in a value, at any depth. -/
inductive Within (v : Value) : Value → Prop where
  | root : Within v v
  | item {items : List Value} {item : Value} : Within v (.list items) → item ∈ items →
      Within v item
  | member {members : List (Text × Value)} {key : Text} {child : Value} :
      Within v (.object members) → (key, child) ∈ members → Within v child

end Value

/-- What decoding at one position comes to. -/
inductive Scan (β : Type) where
  | found (value : β) (rest : Text)
  /-- A `JSONDecodeError`, with the text at its position. -/
  | failed (position : Text)
  /-- The hook for an object's members refuses them. -/
  | refused
  /-- A `RecursionError`. -/
  | tooDeep
  /-- The `ValueError` for an integer of more digits than the interpreter converts. -/
  | tooLong

namespace Scan

def bind {β γ : Type} (scan : Scan β) (next : β → Text → Scan γ) : Scan γ :=
  match scan with
  | .found value rest => next value rest
  | .failed position => .failed position
  | .refused => .refused
  | .tooDeep => .tooDeep
  | .tooLong => .tooLong

end Scan

/-! ## Strings -/

def isDigit (c : Nat) : Bool := Text.within '0' '9' c

def hexValue (c : Nat) : Option Nat :=
  if Text.within '0' '9' c then some (c - '0'.toNat)
  else if Text.within 'a' 'f' c then some (c - 'a'.toNat + 10)
  else if Text.within 'A' 'F' c then some (c - 'A'.toNat + 10)
  else none

/-- The four digits behind `\u`. -/
def fourHex : Text → Option (Nat × Text)
  | a :: b :: c :: d :: rest => do
    let a ← hexValue a
    let b ← hexValue b
    let c ← hexValue c
    let d ← hexValue d
    return (((a * 16 + b) * 16 + c) * 16 + d, rest)
  | _ => none

/-- What the character behind a backslash stands for. -/
def shortEscape (c : Nat) : Option Nat :=
  if c = '"'.toNat then some c
  else if c = '\\'.toNat then some c
  else if c = '/'.toNat then some c
  else if c = 'b'.toNat then some 8
  else if c = 'f'.toNat then some 12
  else if c = 'n'.toNat then some 10
  else if c = 'r'.toNat then some 13
  else if c = 't'.toNat then some 9
  else none

/-- The character of a `\u` escape, at its `u`; a pair of surrogates is one character. The closing
quote must still follow. -/
def unicodeEscape (u : Text) : Scan Nat :=
  match fourHex (u.drop 1) with
  | none => .failed u
  | some (_, []) => .failed u
  | some (high, rest) =>
    if 0xd800 ≤ high ∧ high < 0xdc00 ∧ 6 < rest.length ∧
        rest.take 2 = ['\\'.toNat, 'u'.toNat] then
      match fourHex (rest.drop 2) with
      | none => .failed (rest.drop 1)
      | some (low, rest') =>
        if 0xdc00 ≤ low ∧ low < 0xe000 then
          .found (0x10000 + (high - 0xd800) * 0x400 + (low - 0xdc00)) rest'
        else .found high rest
    else .found high rest

/-- `scanstring` behind the opening quote, which stands at `opening`. -/
def scanString (opening : Text) : Nat → Text → Scan Text
  | 0, _ => .failed opening
  | _ + 1, [] => .failed opening
  | fuel + 1, c :: rest =>
    if c = '"'.toNat then .found [] rest
    else if c = '\\'.toNat then
      match rest with
      | [] => .failed opening
      | e :: rest' =>
        if e = 'u'.toNat then
          (unicodeEscape rest).bind fun value rest'' =>
            (scanString opening fuel rest'').bind fun tail rest => .found (value :: tail) rest
        else match shortEscape e with
          | none => .failed (c :: rest)
          | some value =>
            (scanString opening fuel rest').bind fun tail rest => .found (value :: tail) rest
    else if c ≤ 0x1f then .failed (c :: rest)
    else (scanString opening fuel rest).bind fun tail rest => .found (c :: tail) rest

/-! ## Numbers -/

/-- The digits a text starts with, and the rest. -/
def spanDigits (s : Text) : Text × Text := s.span isDigit

/-- `\.\d+`, or nothing. -/
def spanFraction : Text → Text × Text
  | point :: rest =>
    let (digits, rest') := spanDigits rest
    if point = '.'.toNat ∧ digits ≠ [] then (point :: digits, rest') else ([], point :: rest)
  | [] => ([], [])

/-- `[eE][-+]?\d+`, or nothing. -/
def spanExponent : Text → Text × Text
  | e :: rest =>
    let (sign, rest') := match rest with
      | c :: rest' => if Text.among "+-" c then ([c], rest') else ([], rest)
      | [] => ([], [])
    let (digits, rest'') := spanDigits rest'
    if Text.among "eE" e ∧ digits ≠ [] then (e :: sign ++ digits, rest'') else ([], e :: rest)
  | [] => ([], [])

def digitsValue (digits : Text) : Nat := digits.foldl (fun n d => n * 10 + (d - '0'.toNat)) 0

/-- The number of decimal digits up to which the interpreter converts a text to an integer. -/
def maxStrDigits : Nat := 4300

def scanNumber (s : Text) : Scan Value :=
  let (sign, unsigned) := match s with
    | c :: rest => if c = '-'.toNat then ([c], rest) else ([], s)
    | [] => ([], [])
  let (whole, rest) := match unsigned with
    | c :: rest => if c = '0'.toNat then ([c], rest) else spanDigits unsigned
    | [] => ([], [])
  if whole.isEmpty then .failed s
  else
    let (fraction, rest) := spanFraction rest
    let (exponent, rest) := spanExponent rest
    if fraction.isEmpty ∧ exponent.isEmpty then
      if maxStrDigits < whole.length then .tooLong
      else .found (.int (if sign.isEmpty then digitsValue whole else -digitsValue whole)) rest
    else .found (.float (sign ++ whole ++ fraction ++ exponent)) rest

/-! ## Values -/

/-- What the decoder is given: how deep containers may nest, and what becomes of an object's
members. -/
structure Decoder where
  nesting : Nat
  hook : List (Text × Value) → Option (List (Text × Value))

def isWhitespace (c : Nat) : Bool := c == 0x20 || c == 0x09 || c == 0x0a || c == 0x0d

def skip (s : Text) : Text := s.dropWhile isWhitespace

/-- The named constants. -/
def scanConstant (s : Text) : Option (Value × Text) :=
  [("null", Value.null), ("true", .bool true), ("false", .bool false),
    ("NaN", .float (text "NaN")), ("Infinity", .float (text "Infinity")),
    ("-Infinity", .float (text "-Infinity"))].findSome? fun (name, value) =>
      if (text name).isPrefixOf s then some (value, s.drop (text name).length) else none

namespace Decoder
variable (d : Decoder)

mutual

/-- `scan_once`. -/
def scanOnce : Nat → Nat → Text → Scan Value
  | 0, _, s => .failed s
  | _ + 1, _, [] => .failed []
  | fuel + 1, nesting, c :: rest =>
    if c = '"'.toNat then
      (scanString (c :: rest) (rest.length + 1) rest).bind fun value rest => .found (.str value) rest
    else if c = '\x7b'.toNat then
      match nesting with
      | 0 => .tooDeep
      | nesting + 1 =>
        if (skip rest).head? = some '\x7d'.toNat then
          match d.hook [] with
          | none => .refused
          | some members => .found (.object members) ((skip rest).drop 1)
        else (scanMembers fuel nesting (skip rest)).bind fun pairs rest =>
          match d.hook pairs with
          | none => .refused
          | some members => .found (.object members) rest
    else if c = '['.toNat then
      match nesting with
      | 0 => .tooDeep
      | nesting + 1 =>
        if (skip rest).head? = some ']'.toNat then .found (.list []) ((skip rest).drop 1)
        else (scanItems fuel nesting (skip rest)).bind fun items rest => .found (.list items) rest
    else match scanConstant (c :: rest) with
      | some (value, rest) => .found value rest
      | none => scanNumber (c :: rest)

/-- The members of an object up to its closing brace, at the first key. -/
def scanMembers : Nat → Nat → Text → Scan (List (Text × Value))
  | 0, _, s => .failed s
  | fuel + 1, nesting, s =>
    match s with
    | [] => .failed []
    | c :: rest =>
      if c ≠ '"'.toNat then .failed (c :: rest)
      else (scanString (c :: rest) (rest.length + 1) rest).bind fun key rest =>
        match skip rest with
        | [] => .failed []
        | colon :: rest =>
          if colon ≠ ':'.toNat then .failed (colon :: rest)
          else (scanOnce fuel nesting (skip rest)).bind fun value rest =>
            match skip rest with
            | [] => .failed []
            | next :: rest =>
              if next = '\x7d'.toNat then .found [(key, value)] rest
              else if next ≠ ','.toNat then .failed (next :: rest)
              else if (skip rest).head? = some '\x7d'.toNat then .failed (next :: rest)
              else (scanMembers fuel nesting (skip rest)).bind fun pairs rest =>
                .found ((key, value) :: pairs) rest

/-- The items of an array up to its closing bracket, at the first item. -/
def scanItems : Nat → Nat → Text → Scan (List Value)
  | 0, _, s => .failed s
  | fuel + 1, nesting, s =>
    (scanOnce fuel nesting s).bind fun value rest =>
      match skip rest with
      | [] => .failed []
      | next :: rest =>
        if next = ']'.toNat then .found [value] rest
        else if next ≠ ','.toNat then .failed (next :: rest)
        else if (skip rest).head? = some ']'.toNat then .failed (next :: rest)
        else (scanItems fuel nesting (skip rest)).bind fun items rest =>
          .found (value :: items) rest

end

/-- `raw_decode`; the calls that are not on a shorter text are those from an array to its items. -/
def rawDecode (s : Text) : Scan Value := d.scanOnce (2 * s.length + 1) d.nesting s

/-- `decode`, which leaves nothing behind the value. -/
def decode (s : Text) : Scan Value :=
  (d.rawDecode (skip s)).bind fun value rest =>
    match skip rest with
    | [] => .found value []
    | extra => .failed extra

end Decoder

end Modall.Library.Json
