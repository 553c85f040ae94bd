import Runbook.Json.Value
import Runbook.Decimal.Scaled

/-!
# The tokens of JSON text

Texts and scalars are read whole; blanks between tokens are skipped.  Reading a token takes at
least one character, so the tokens of a text are found by recursion on its length.

A token may be written well and still mean nothing: a text with half of a surrogate pair, and a
number that is too large.
-/

namespace Runbook.Json

/-- **A token of JSON text.** -/
inductive Token
  | openArray
  | closeArray
  | openObject
  | closeObject
  | comma
  | colon
  /-- A text with its escapes resolved, `none` where half of a surrogate pair stands alone. -/
  | text (value : Option String)
  /-- A word or a number, `none` for a number that is too large. -/
  | scalar (value : Option Json)

namespace Token

/-- A character that may stand between tokens. -/
def isSpace (c : Char) : Bool :=
  c == ' ' || c == '\t' || c == '\n' || c == '\r'

/-- The value of a hexadecimal digit. -/
def hexValue? (c : Char) : Option Nat :=
  if c.isDigit then some (c.toNat - '0'.toNat)
  else if 'a' ≤ c ∧ c ≤ 'f' then some (c.toNat - 'a'.toNat + 10)
  else if 'A' ≤ c ∧ c ≤ 'F' then some (c.toNat - 'A'.toNat + 10)
  else none

/-- The value of four hexadecimal digits. -/
def hex4? (a b c d : Char) : Option Nat := do
  let a ← hexValue? a
  let b ← hexValue? b
  let c ← hexValue? c
  let d ← hexValue? d
  return ((a * 16 + b) * 16 + c) * 16 + d

/-- The character of a simple escape. -/
def escape? (c : Char) : Option Char :=
  match c with
  | '"' => some '"'
  | '\\' => some '\\'
  | '/' => some '/'
  | 'b' => some '\x08'
  | 'f' => some '\x0c'
  | 'n' => some '\n'
  | 'r' => some '\r'
  | 't' => some '\t'
  | _ => none

/-- What a text between quotes is made of. -/
inductive Piece
  /-- A character, as it stands or after a backslash. -/
  | char (c : Char)
  /-- A 16-bit unit, written as four hexadecimal digits. -/
  | unit (n : Nat)

/-- The pieces of a text up to its closing quote, and what follows the quote.  Controls below a
space may not stand in a text. -/
def pieces? : List Char → Option (List Piece × List Char)
  | [] => none
  | '"' :: rest => some ([], rest)
  | '\\' :: 'u' :: a :: b :: c :: d :: rest =>
    (hex4? a b c d).bind fun n => (pieces? rest).map fun (ps, tail) => (.unit n :: ps, tail)
  | '\\' :: c :: rest =>
    (escape? c).bind fun escaped => (pieces? rest).map fun (ps, tail) => (.char escaped :: ps, tail)
  | c :: rest =>
    if c.toNat < 0x20 || c = '\\' then none
    else (pieces? rest).map fun (ps, tail) => (.char c :: ps, tail)

/-- The first half of a surrogate pair. -/
def isHighSurrogate (n : Nat) : Bool := 0xD800 ≤ n && n < 0xDC00

/-- The second half of a surrogate pair. -/
def isLowSurrogate (n : Nat) : Bool := 0xDC00 ≤ n && n < 0xE000

/-- The characters that pieces spell; the halves of a surrogate pair stand only together. -/
def spelled? : List Piece → Option (List Char)
  | [] => some []
  | .char c :: rest => (spelled? rest).map (c :: ·)
  | .unit first :: .unit second :: rest =>
    if isHighSurrogate first then
      if isLowSurrogate second then
        let code := 0x10000 + (first - 0xD800) * 0x400 + (second - 0xDC00)
        (spelled? rest).map (Char.ofNat code :: ·)
      else none
    else if isLowSurrogate first then none
    else (spelled? (.unit second :: rest)).map (Char.ofNat first :: ·)
  | .unit n :: rest =>
    if isHighSurrogate n || isLowSurrogate n then none
    else (spelled? rest).map (Char.ofNat n :: ·)

/-- A character that may stand in a number. -/
def isNumberChar (c : Char) : Bool :=
  c.isDigit || c == '-' || c == '+' || c == '.' || c == 'e' || c == 'E'

/-- A literal without its sign, and whether it is negative. -/
def unsigned (cs : List Char) : Bool × List Char :=
  match cs with
  | '-' :: rest => (true, rest)
  | rest => (false, rest)

/-- **The spelling of a number**: no leading zero, digits on both sides of a point, and digits in
an exponent. -/
def isNumber (cs : List Char) : Bool :=
  let (_, digits) := unsigned cs
  let rest := digits.dropWhile Char.isDigit
  let wholeFine := match digits.takeWhile Char.isDigit with
    | [] => false
    | [_] => true
    | d :: _ => d != '0'
  let pointFine := match rest with
    | '.' :: d :: _ => d.isDigit
    | '.' :: [] => false
    | _ => true
  wholeFine && pointFine && (Decimal.parts? digits).isSome

/-- **The number that a literal denotes.**  Digits alone are an integer if it fits 64 bits; `-0`
and all other literals are binary64 numbers, which must be finite. -/
def number? (cs : List Char) : Option Number :=
  let (negative, digits) := unsigned cs
  let magnitude := Decimal.digitsValue digits
  let value : Int := if negative then -(magnitude : Int) else magnitude
  if digits.all Char.isDigit && Number.fits value && !(negative && magnitude == 0) then
    some (.integer value)
  else
    (Decimal.scaled? negative digits).map .real

/-- The token at the start of a text without leading blanks, and what follows it. -/
def next? : List Char → Option (Token × List Char)
  | '[' :: rest => some (openArray, rest)
  | ']' :: rest => some (closeArray, rest)
  | '\x7b' :: rest => some (openObject, rest)
  | '\x7d' :: rest => some (closeObject, rest)
  | ',' :: rest => some (comma, rest)
  | ':' :: rest => some (colon, rest)
  | '"' :: rest =>
    (pieces? rest).map fun (ps, tail) => (text ((spelled? ps).map String.ofList), tail)
  | 'n' :: 'u' :: 'l' :: 'l' :: rest => some (scalar (some .null), rest)
  | 't' :: 'r' :: 'u' :: 'e' :: rest => some (scalar (some (.boolean true)), rest)
  | 'f' :: 'a' :: 'l' :: 's' :: 'e' :: rest => some (scalar (some (.boolean false)), rest)
  | cs =>
    let literal := cs.takeWhile isNumberChar
    if isNumber literal then
      some (scalar ((number? literal).map .number), cs.dropWhile isNumberChar)
    else none

/-- The tokens that are left after `fuel` steps at most, each of which takes a blank or a token. -/
def scanSteps : Nat → List Char → Option (List Token)
  | _, [] => some []
  | 0, _ :: _ => none
  | fuel + 1, c :: rest =>
    if isSpace c then scanSteps fuel rest
    else do
      let (token, tail) ← next? (c :: rest)
      let tokens ← scanSteps fuel tail
      return token :: tokens

/-- **The tokens of a text**; a step takes a character at least, so the length bounds the steps. -/
def scan (cs : List Char) : Option (List Token) :=
  scanSteps cs.length cs

end Token

end Runbook.Json
