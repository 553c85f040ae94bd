import Runbook.Json.Value
import Runbook.Decimal.Layout

/-!
# The compact text of a JSON value

No blanks between tokens, members in their order.  A quote, a backslash and the controls below a
space are escaped in texts, all other characters stand for themselves.  A binary64 number has the
shortest digits that read back, positional from `1e-5` up to below `1e16`, and always a point or an
exponent (`Json.realLayout`).
-/

namespace Runbook.Json

/-- Numbers in JSON text: a leading digit of exponent `-5` to `15` is written in positional
notation with at least one decimal, all else with a signed exponent. -/
def realLayout : Decimal.Layout where
  least := some (-5)
  greatest := some 15
  keepPoint := true
  plusSign := true
  tie := .toEven

/-- A hexadecimal digit, lower case. -/
def hexDigit (n : Nat) : Char :=
  if n < 10 then Char.ofNat ('0'.toNat + n) else Char.ofNat ('a'.toNat + (n - 10))

/-- One character of a text, escaped where JSON needs it. -/
def escapeChar (c : Char) : List Char :=
  if c = '"' then ['\\', '"']
  else if c = '\\' then ['\\', '\\']
  else if c = '\x08' then ['\\', 'b']
  else if c = '\x0c' then ['\\', 'f']
  else if c = '\n' then ['\\', 'n']
  else if c = '\r' then ['\\', 'r']
  else if c = '\t' then ['\\', 't']
  else if c.toNat < 0x20 then
    ['\\', 'u', '0', '0', hexDigit (c.toNat / 16), hexDigit (c.toNat % 16)]
  else [c]

/-- A text between quotes. -/
def quoteChars (s : List Char) : List Char :=
  '"' :: s.flatMap escapeChar ++ ['"']

/-- The characters of an integer. -/
def integerChars (n : Int) : List Char :=
  if n < 0 then '-' :: Nat.toDigits 10 n.natAbs else Nat.toDigits 10 n.natAbs

/-- The characters of a number; an infinite one cannot be written and becomes `null`. -/
def Number.chars : Number → List Char
  | .integer n => integerChars n
  | .real x => if x.isInfinite then ['n', 'u', 'l', 'l'] else realLayout.chars x

mutual

/-- **The compact text of a value**, as characters. -/
def chars : Json → List Char
  | null => ['n', 'u', 'l', 'l']
  | boolean true => ['t', 'r', 'u', 'e']
  | boolean false => ['f', 'a', 'l', 's', 'e']
  | number n => n.chars
  | text s => quoteChars s.toList
  | array [] => ['[', ']']
  | array (v :: rest) => '[' :: v.chars ++ itemsChars rest ++ [']']
  | object [] => ['\x7b', '\x7d']
  | object ((k, v) :: rest) =>
    '\x7b' :: quoteChars k.toList ++ ':' :: v.chars ++ membersChars rest ++ ['\x7d']

/-- The items after the first, each after a comma. -/
def itemsChars : List Json → List Char
  | [] => []
  | v :: rest => ',' :: v.chars ++ itemsChars rest

/-- The members after the first, each after a comma. -/
def membersChars : List (String × Json) → List Char
  | [] => []
  | (k, v) :: rest => ',' :: quoteChars k.toList ++ ':' :: v.chars ++ membersChars rest

end

/-- **The compact text of a value.** -/
def compact (v : Json) : String :=
  String.ofList v.chars

/-- **The text that stands for a value where text is needed**: a text is itself, `null` is
nothing, and any other value is its compact text. -/
def display : Json → String
  | text s => s
  | null => ""
  | v => v.compact

end Runbook.Json
