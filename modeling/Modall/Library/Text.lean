import Mathlib

/-!
# Python text

A `str` is a list of code points: lone surrogates are possible, so it is no `String`. This module
has the operations of `str` that screens of untrusted text use.
-/
namespace Modall.Library

abbrev Text := List Nat

/-- The text of a literal. -/
def text (s : String) : Text := s.toList.map Char.toNat

namespace Text

/-! ## Characters -/

def within (low high : Char) (c : Nat) : Bool := low.toNat ≤ c && c ≤ high.toNat

def among (chars : String) (c : Nat) : Bool := (text chars).contains c

/-- `str.isspace`, which is also what `\s` accepts. -/
def isspace (c : Nat) : Bool :=
  (0x09 ≤ c && c ≤ 0x0d) || (0x1c ≤ c && c ≤ 0x20) || c == 0x85 || c == 0xa0 || c == 0x1680 ||
    (0x2000 ≤ c && c ≤ 0x200a) || c == 0x2028 || c == 0x2029 || c == 0x202f || c == 0x205f ||
    c == 0x3000

/-- The first digit of each run of ten decimal digits in Unicode; the five mathematical alphabets
of digits from 0x1d7ce on stand next to each other. -/
def decimalZeros : List Nat :=
  [0x30, 0x660, 0x6f0, 0x7c0, 0x966, 0x9e6, 0xa66, 0xae6, 0xb66, 0xbe6, 0xc66, 0xce6, 0xd66, 0xde6,
    0xe50, 0xed0, 0xf20, 0x1040, 0x1090, 0x17e0, 0x1810, 0x1946, 0x19d0, 0x1a80, 0x1a90, 0x1b50,
    0x1bb0, 0x1c40, 0x1c50, 0xa620, 0xa8d0, 0xa900, 0xa9d0, 0xa9f0, 0xaa50, 0xabf0, 0xff10,
    0x104a0, 0x10d30, 0x11066, 0x110f0, 0x11136, 0x111d0, 0x112f0, 0x11450, 0x114d0, 0x11650,
    0x116c0, 0x11730, 0x118e0, 0x11950, 0x11c50, 0x11d50, 0x11da0, 0x11f50, 0x16a60, 0x16ac0,
    0x16b50, 0x1d7ce, 0x1d7d8, 0x1d7e2, 0x1d7ec, 0x1d7f6, 0x1e140, 0x1e2f0, 0x1e4f0, 0x1e950,
    0x1fbf0]

def isdecimal (value : Text) : Bool :=
  !value.isEmpty && value.all fun c => decimalZeros.any fun zero => zero ≤ c && c ≤ zero + 9

/-- The digits that are not decimal: superscripts, subscripts, circled and bracketed digits and those
of a few scripts. -/
def otherDigits : List (Nat × Nat) :=
  [(0xb2, 0xb3), (0xb9, 0xb9), (0x1369, 0x1371), (0x19da, 0x19da), (0x2070, 0x2070),
    (0x2074, 0x2079), (0x2080, 0x2089), (0x2460, 0x2468), (0x2474, 0x247c), (0x2488, 0x2490),
    (0x24ea, 0x24ea), (0x24f5, 0x24fd), (0x24ff, 0x24ff), (0x2776, 0x277e), (0x2780, 0x2788),
    (0x278a, 0x2792), (0x10a40, 0x10a43), (0x10e60, 0x10e68), (0x11052, 0x1105a),
    (0x1f100, 0x1f10a)]

/-- What a decimal digit stands for. -/
def decimalValue (c : Nat) : Option Nat :=
  (decimalZeros.find? fun zero => zero ≤ c && c ≤ zero + 9).map (c - ·)

def isdigit (value : Text) : Bool :=
  !value.isEmpty && value.all fun c =>
    (decimalValue c).isSome || otherDigits.any fun range => range.1 ≤ c && c ≤ range.2

/-- `str.lower`, as far as it reaches ASCII: a character that is not here has a lower-case form
outside ASCII, and no caller tells those apart. -/
def lower (value : Text) : Text :=
  value.flatMap fun c =>
    if within 'A' 'Z' c then [c + 32]
    else if c = 0x130 then [0x69, 0x307]
    else if c = 0x212a then [0x6b]
    else [c]

/-- The character that `re.IGNORECASE` compares with an ASCII one: besides the capitals, the two
dotted and dotless letters, the long s and the Kelvin sign. -/
def fold (c : Nat) : Nat :=
  if within 'A' 'Z' c then c + 32
  else if c = 0x130 ∨ c = 0x131 then 0x69
  else if c = 0x17f then 0x73
  else if c = 0x212a then 0x6b
  else c

/-! ## Parts of a text -/

def lstrip (value : Text) : Text := value.dropWhile isspace

def rstrip (value : Text) : Text := value.rdropWhile isspace

/-- `value.partition(":")[2]`, the text behind the first occurrence. -/
def behind (separator : Nat) (value : Text) : Text := (value.dropWhile (· != separator)).drop 1

/-- The parts between the characters that satisfy `separates`, without the empty ones. -/
def words (separates : Nat → Bool) (value : Text) : List Text :=
  (value.splitOnP separates).filter (!·.isEmpty)

def join (separator : Text) : List Text → Text
  | [] => []
  | [part] => part
  | part :: parts => part ++ separator ++ join separator parts

/-- `value.replace(first + second, by)` for a pattern of two characters. -/
def replacePair (first second : Nat) (replacement : Text) : Text → Text
  | a :: b :: rest =>
    if a = first ∧ b = second then replacement ++ replacePair first second replacement rest
    else a :: replacePair first second replacement (b :: rest)
  | short => short

/-- The line boundaries of `str.splitlines` other than a line feed and a carriage return. -/
def isRareBreak (c : Nat) : Bool :=
  (0x0b ≤ c && c ≤ 0x0c) || (0x1c ≤ c && c ≤ 0x1e) || c == 0x85 || c == 0x2028 || c == 0x2029

def isBreak (c : Nat) : Bool := c == 0x0a || c == 0x0d || isRareBreak c

/-- `str.splitlines`; `line` is the line so far, its last character first. -/
def splitlinesFrom (line : Text) : Text → List Text
  | [] => if line.isEmpty then [] else [line.reverse]
  | 0x0d :: 0x0a :: rest => line.reverse :: splitlinesFrom [] rest
  | c :: rest =>
    if isBreak c then line.reverse :: splitlinesFrom [] rest else splitlinesFrom (c :: line) rest

def splitlines (value : Text) : List Text := splitlinesFrom [] value

/-- A break at the front is an empty line, with the line feed that may belong to it. -/
lemma splitlines_cons {c : Nat} (h : c = 0x0a ∨ c = 0x0d) (rest : Text) :
    splitlines (c :: rest) = [] :: splitlines rest ∨ splitlines (c :: rest) = splitlines rest := by
  obtain rfl | rfl := h
  · exact .inl rfl
  · match rest with
    | [] => exact .inl rfl
    | d :: rest =>
      by_cases hd : d = 0x0a
      · subst hd
        exact .inr rfl
      · refine .inl ?_
        rw [splitlines, splitlinesFrom, if_pos (by decide)]
        · rfl
        · simpa using hd

end Text

end Modall.Library
