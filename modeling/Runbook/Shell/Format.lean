import Runbook.Json.Token

/-!
# Formatted output

Escapes after a backslash, and formats with conversions after a percent sign.  A format is used
again as long as arguments are left, and a missing argument counts as an empty text or as zero.
-/

namespace Runbook.Shell.Format

/-- The bytes of characters. -/
def encode (cs : List Char) : List UInt8 :=
  (String.ofList cs).toUTF8.toList

/-- At most `count` digits of a radix at the start of the text: their number, how many there are,
and the rest. -/
def digits (radix : Nat) : Nat → List Char → Nat × Nat × List Char
  | 0, cs => (0, 0, cs)
  | _ + 1, [] => (0, 0, [])
  | count + 1, c :: rest =>
    match Json.Token.hexValue? c with
    | some d =>
      if d < radix then
        let (n, k, tail) := digits radix count rest
        (d * Nat.pow radix k + n, k + 1, tail)
      else (0, 0, c :: rest)
    | none => (0, 0, c :: rest)

/-- Where escapes are read, they differ in how octal digits are announced. -/
inductive Dialect
  /-- In a format: one to three octal digits. -/
  | format
  /-- In an argument: a zero and up to three octal digits. -/
  | argument
deriving DecidableEq

/-- The byte that a letter after a backslash stands for. -/
def control? (c : Char) : Option UInt8 :=
  match c with
  | 'a' => some 7
  | 'b' => some 8
  | 't' => some 9
  | 'n' => some 10
  | 'v' => some 11
  | 'f' => some 12
  | 'r' => some 13
  | 'e' => some 27
  | 'E' => some 27
  | '\\' => some 92
  | _ => none

/-- The bytes of the escape after a backslash and the rest of the text; `none` if output ends
here. -/
def escape (dialect : Dialect) : List Char → Option (List UInt8 × List Char)
  | [] => some ([92], [])
  | c :: rest =>
    match control? c with
    | some b => some ([b], rest)
    | none =>
      if c = 'c' && dialect == .argument then none
      else if c = 'x' then
        match digits 16 2 rest with
        | (_, 0, _) => some ([92, 120], rest)
        | (n, _, tail) => some ([n.toUInt8], tail)
      else if c = 'u' || c = 'U' then
        match digits 16 (if c = 'u' then 4 else 8) rest with
        | (_, 0, _) => some (encode ['\\', c], rest)
        | (n, _, tail) => some (encode [Char.ofNat n], tail)
      else if c = '0' && dialect == .argument then
        let (n, _, tail) := digits 8 3 rest
        some ([n.toUInt8], tail)
      else if '0' ≤ c && c ≤ '7' then
        let (n, _, tail) := digits 8 3 (c :: rest)
        some ([n.toUInt8], tail)
      else if (c = '"' || c = '\'') && dialect == .format then some (encode [c], rest)
      else some (encode ['\\', c], rest)

/-- The bytes of a text with escapes, at most `fuel` steps of it, and whether output goes on after
it. -/
def unescapeWithin (fuel : Nat) (cs : List Char) : List UInt8 × Bool :=
  match fuel, cs with
  | 0, _ => ([], true)
  | _, [] => ([], true)
  | fuel + 1, '\\' :: rest =>
    match escape .argument rest with
    | none => ([], false)
    | some (bytes, tail) =>
      let (more, goesOn) := unescapeWithin fuel tail
      (bytes ++ more, goesOn)
  | fuel + 1, c :: rest =>
    let (more, goesOn) := unescapeWithin fuel rest
    (encode [c] ++ more, goesOn)

/-- The bytes of an argument with escapes, and whether output goes on after it. -/
def unescape (cs : List Char) : List UInt8 × Bool :=
  unescapeWithin cs.length cs

/-- **A conversion of a format.** -/
structure Conversion where
  /-- Padding goes to the right. -/
  left : Bool
  /-- Numbers are padded with zeros. -/
  zero : Bool
  /-- The least width. -/
  width : Nat
  /-- The most characters of a text. -/
  precision : Option Nat
  /-- The letter that ends the conversion. -/
  letter : Char

/-- A part of a format. -/
inductive Part
  | bytes (bs : List UInt8)
  | conversion (c : Conversion)

/-- The conversion after a percent sign, and the rest of the format. -/
def conversion? (cs : List Char) : Option (Conversion × List Char) :=
  let flags := cs.takeWhile fun c => ['-', '0', '+', ' ', '#'].contains c
  let afterFlags := cs.drop flags.length
  let width := afterFlags.takeWhile Char.isDigit
  let afterWidth := afterFlags.drop width.length
  let (precision, afterPrecision) := match afterWidth with
    | '.' :: rest =>
      let ds := rest.takeWhile Char.isDigit
      (some ((String.ofList ds).toNat?.getD 0), rest.drop ds.length)
    | rest => (none, rest)
  match afterPrecision with
  | [] => none
  | letter :: rest =>
    some (⟨flags.contains '-', flags.contains '0', (String.ofList width).toNat?.getD 0,
      precision, letter⟩, rest)

/-- The parts of a format, at most `fuel` of them. -/
def partsWithin (fuel : Nat) (cs : List Char) : List Part :=
  match fuel, cs with
  | 0, _ => []
  | _, [] => []
  | fuel + 1, '\\' :: rest =>
    match escape .format rest with
    | none => []
    | some (bytes, tail) => .bytes bytes :: partsWithin fuel tail
  | fuel + 1, '%' :: '%' :: rest => .bytes [37] :: partsWithin fuel rest
  | fuel + 1, '%' :: rest =>
    match conversion? rest with
    | none => [.bytes [37]]
    | some (c, tail) => .conversion c :: partsWithin fuel tail
  | fuel + 1, c :: rest => .bytes (encode [c]) :: partsWithin fuel rest

/-- The bytes of a text padded to a width. -/
def pad (c : Conversion) (zero : Bool) (bytes : List UInt8) : List UInt8 :=
  let filler := List.replicate (c.width - bytes.length)
  if c.left then bytes ++ filler 32
  else if zero then
    match bytes with
    | 45 :: rest => 45 :: (filler 48 ++ rest)
    | _ => filler 48 ++ bytes
  else filler 32 ++ bytes

/-- The integer that an argument spells. -/
def integer? (s : String) : Option Int :=
  if s.isEmpty then some 0 else (if s.startsWith "+" then (s.drop 1).toString else s).toInt?

/-- The bytes of a conversion, whether its argument fits it, and whether output goes on. -/
def Conversion.apply (c : Conversion) (argument : String) : List UInt8 × Bool × Bool :=
  match c.letter with
  | 's' =>
    let bytes := encode argument.toList
    (pad c false (match c.precision with | some k => bytes.take k | none => bytes), true, true)
  | 'b' =>
    let (bytes, goesOn) := unescape argument.toList
    (pad c false bytes, true, goesOn)
  | 'c' => (pad c false (encode (argument.toList.take 1)), true, true)
  | letter =>
    let n := integer? argument
    let value := n.getD 0
    let text := match letter with
      | 'x' => Nat.toDigits 16 value.toNat
      | 'X' => (Nat.toDigits 16 value.toNat).map Char.toUpper
      | 'o' => Nat.toDigits 8 value.toNat
      | _ => (toString value).toList
    (pad c c.zero (encode text), n.isSome, true)

/-- What a format writes: bytes, the arguments that are left, those that do not fit, and whether
output goes on. -/
structure Output where
  bytes : List UInt8
  left : List String
  unfit : List String
  goesOn : Bool

/-- Writes a part of a format. -/
def writePart (o : Output) (p : Part) : Output :=
  if !o.goesOn then o
  else
    match p with
    | .bytes bs => { o with bytes := o.bytes ++ bs }
    | .conversion c =>
      let argument := o.left.head?.getD ""
      let (bytes, fits, goesOn) := c.apply argument
      ⟨o.bytes ++ bytes, o.left.tail, if fits then o.unfit else o.unfit ++ [argument], goesOn⟩

/-- Uses a format again while arguments are left and it takes some. -/
def writeAll (parts : List Part) (fuel : Nat) (o : Output) : Output :=
  match fuel with
  | 0 => o
  | fuel + 1 =>
    let next := parts.foldl writePart o
    if next.goesOn && !next.left.isEmpty && next.left.length < o.left.length then
      writeAll parts fuel next
    else next

/-- **The output of a format for arguments.** -/
def write (format : String) (arguments : List String) : Output :=
  let cs := format.toList
  writeAll (partsWithin cs.length cs) (arguments.length + 1) ⟨[], arguments, [], true⟩

end Runbook.Shell.Format
