import Mathlib
import Modall.Library.Json

/-!
# Writing JSON text

`json.dumps` with `ensure_ascii=False`, `separators=(",", ":")` and `sort_keys=True`. Sorting comes
first: `sorted` is the value that decoding the text gives back, its members in the order of their
keys and its floats spelled as they are written.
-/
namespace Modall.Library.Json

namespace Value

-- `repr(float(spelling))`
variable (floatText : Text → Text)

mutual

def sorted : Value → Value
  | .float spelling => .float (floatText spelling)
  | .list items => .list (sortedItems items)
  | .object members => .object ((sortedMembers members).insertionSort fun a b => a.1 ≤ b.1)
  | v => v

def sortedItems : List Value → List Value
  | [] => []
  | item :: items => item.sorted :: sortedItems items

def sortedMembers : List (Text × Value) → List (Text × Value)
  | [] => []
  | (key, child) :: members => (key, child.sorted) :: sortedMembers members

end

end Value

def hexDigit (n : Nat) : Nat := if n < 10 then '0'.toNat + n else 'a'.toNat + (n - 10)

/-- A character between the quotes. -/
def dumpChar (c : Nat) : Text :=
  if c = '"'.toNat then text "\\\""
  else if c = '\\'.toNat then text "\\\\"
  else if c = 10 then text "\\n"
  else if c = 13 then text "\\r"
  else if c = 9 then text "\\t"
  else if c = 12 then text "\\f"
  else if c = 8 then text "\\b"
  else if c < 0x20 then text "\\u00" ++ [hexDigit (c / 16), hexDigit (c % 16)]
  else [c]

def dumpString (value : Text) : Text := text "\"" ++ value.flatMap dumpChar ++ text "\""

mutual

/-- The text of a value whose members are in order. -/
def dump : Value → Text
  | .null => text "null"
  | .bool true => text "true"
  | .bool false => text "false"
  | .int n => text (toString n)
  | .float spelling => spelling
  | .str value => dumpString value
  | .list items => text "[" ++ Text.join (text ",") (dumpItems items) ++ text "]"
  | .object members => text "\x7b" ++ Text.join (text ",") (dumpMembers members) ++ text "\x7d"

def dumpItems : List Value → List Text
  | [] => []
  | item :: items => dump item :: dumpItems items

def dumpMembers : List (Text × Value) → List Text
  | [] => []
  | (key, child) :: members => (dumpString key ++ text ":" ++ dump child) :: dumpMembers members

end

end Modall.Library.Json
