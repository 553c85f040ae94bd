/-!
# Places in a YAML text

A cursor is a place in a text: the characters that are left, and the counts of octets, lines and
columns before them.  Lines end at a line feed, a carriage return, both together, or one of the
Unicode line separators.
-/

namespace Runbook.Yaml

/-- A character that ends a line. -/
def isBreak (c : Char) : Bool :=
  c == '\n' || c == '\r' || c == '\u0085' || c == '\u2028' || c == '\u2029'

/-- A space or a tab. -/
def isBlank (c : Char) : Bool :=
  c == ' ' || c == '\t'

/-- A character of a name: an ASCII letter or digit, an underscore or a hyphen. -/
def isNameChar (c : Char) : Bool :=
  c.isAlphanum || c == '_' || c == '-'

/-- A character that a YAML text may hold. -/
def isPrintable (c : Char) : Bool :=
  let n := c.toNat
  n == 0x09 || n == 0x0A || n == 0x0D || (0x20 ≤ n && n ≤ 0x7E) || n == 0x85 ||
  (0xA0 ≤ n && n ≤ 0xD7FF) || (0xE000 ≤ n && n ≤ 0xFFFD) || 0x10000 ≤ n

/-- The number of octets that characters take in UTF-8. -/
def octetCount (cs : List Char) : Nat :=
  cs.foldl (fun n c => n + c.utf8Size) 0

/-- **A place in a text.** -/
structure Cursor where
  /-- The characters that are left. -/
  rest : List Char
  /-- How many they are. -/
  left : Nat
  /-- The number of octets before the place. -/
  index : Nat
  /-- The number of lines before the place. -/
  line : Nat
  /-- The number of characters before the place on its line. -/
  column : Nat

namespace Cursor

/-- The start of a text. -/
def start (cs : List Char) : Cursor := ⟨cs, cs.length, 0, 0, 0⟩

/-- The character at the place. -/
def peek (c : Cursor) : Option Char := c.rest.head?

/-- The character `n` places further. -/
def peekAt (c : Cursor) (n : Nat) : Option Char := c.rest[n]?

/-- The text ends here. -/
def atEnd (c : Cursor) : Bool := c.rest.isEmpty

/-- The character at the place is `x`. -/
def is (c : Cursor) (x : Char) : Bool := c.peek == some x

/-- The character at the place satisfies `p`. -/
def has (c : Cursor) (p : Char → Bool) : Bool := c.peek.any p

/-- The character `n` places further is a blank or a line break, or the text ends there. -/
def blankOrEndAt (c : Cursor) (n : Nat) : Bool :=
  match c.peekAt n with
  | none => true
  | some x => isBlank x || isBreak x

/-- The place is at a blank, a line break or the end. -/
def blankOrEnd (c : Cursor) : Bool := c.blankOrEndAt 0

/-- The place is at a line break or the end. -/
def breakOrEnd (c : Cursor) : Bool := c.peek.all isBreak

/-- `n` characters further on the same line. -/
def skip (c : Cursor) (n : Nat) : Cursor :=
  ⟨c.rest.drop n, c.left - n, c.index + octetCount (c.rest.take n), c.line, c.column + n⟩

/-- The characters on this line from here on that satisfy `p`, and the place after them. -/
def span (c : Cursor) (p : Char → Bool) : List Char × Cursor :=
  let taken := c.rest.takeWhile p
  (taken, c.skip taken.length)

/-- The place after the characters from here on that satisfy `p`. -/
def skipWhile (c : Cursor) (p : Char → Bool) : Cursor :=
  (c.span p).2

/-- The start of the next line, after the line break `taken` with `rest` behind it. -/
def afterBreak (c : Cursor) (taken rest : List Char) : Cursor :=
  ⟨rest, c.left - taken.length, c.index + octetCount taken, c.line + 1, 0⟩

/-- The line break at the place as it counts in a scalar, and the start of the next line.  All
breaks count as a line feed but the two Unicode separators, which stand for themselves. -/
def takeBreak (c : Cursor) : List Char × Cursor :=
  match c.rest with
  | '\r' :: '\n' :: rest => (['\n'], c.afterBreak ['\r', '\n'] rest)
  | '\u2028' :: rest => (['\u2028'], c.afterBreak ['\u2028'] rest)
  | '\u2029' :: rest => (['\u2029'], c.afterBreak ['\u2029'] rest)
  | x :: rest => if isBreak x then (['\n'], c.afterBreak [x] rest) else ([], c)
  | [] => ([], c)

/-- The start of the next line, if a line ends here. -/
def skipBreak (c : Cursor) : Cursor := c.takeBreak.2

/-- A document marker made of three times `x` stands at the start of this line. -/
def atMarker (c : Cursor) (x : Char) : Bool :=
  c.column == 0 && c.is x && c.peekAt 1 == some x && c.peekAt 2 == some x && c.blankOrEndAt 3

/-- Either document marker stands at the start of this line. -/
def atDocumentMarker (c : Cursor) : Bool := c.atMarker '-' || c.atMarker '.'

end Cursor

end Runbook.Yaml
