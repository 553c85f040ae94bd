import Runbook.Decimal.Shortest

/-!
# Layouts of numbers

How the shortest digits of a number are laid out as text.  The choices in which number formats
differ are the fields of `Layout`: which exponents are written out in positional notation, whether
a whole number keeps a decimal point, and how an exponent is marked.
-/

namespace Runbook.Decimal

/-- **The choices of a number format.** -/
structure Layout where
  /-- The least exponent of the leading digit that is written in positional notation. -/
  least : Option Int
  /-- The greatest exponent of the leading digit that is written in positional notation. -/
  greatest : Option Int
  /-- A whole number in positional notation ends in a point and a zero. -/
  keepPoint : Bool
  /-- A positive exponent has a plus sign. -/
  plusSign : Bool
  /-- Which of two equally near shortest decimals is printed. -/
  tie : Tie

/-- The leading digit's exponent lies in the positional range. -/
def Layout.isPositional (f : Layout) (exponent : Int) : Bool :=
  f.least.all (· ≤ exponent) && f.greatest.all (exponent ≤ ·)

/-- `digits` with the point after the first `point` of them, in positional notation. -/
def Layout.positional (f : Layout) (digits : List Char) (point : Int) : List Char :=
  if point ≤ 0 then
    ['0', '.'] ++ List.replicate (-point).toNat '0' ++ digits
  else if (digits.length : Int) ≤ point then
    digits ++ List.replicate (point.toNat - digits.length) '0' ++
      (if f.keepPoint then ['.', '0'] else [])
  else
    digits.take point.toNat ++ '.' :: digits.drop point.toNat

/-- `digits` with the point after the first of them, times a power of ten. -/
def Layout.scientific (f : Layout) (digits : List Char) (exponent : Int) : List Char :=
  let mantissa := match digits with
    | [] => ['0']
    | [d] => [d]
    | d :: rest => d :: '.' :: rest
  let sign := if exponent < 0 then ['-'] else if f.plusSign then ['+'] else []
  mantissa ++ 'e' :: sign ++ Nat.toDigits 10 exponent.natAbs

/-- The magnitude with the given bits as text; an infinite one is `inf`. -/
def Layout.magnitude (f : Layout) (bits : Nat) : List Char :=
  if bits = 0 then
    if f.keepPoint then ['0', '.', '0'] else ['0']
  else if bits = Binary64.infinityBits then ['i', 'n', 'f']
  else
    let d := shortest f.tie bits
    let digits := Nat.toDigits 10 d.digits
    let point := (digits.length : Int) + d.exponent
    if f.isPositional (point - 1) then f.positional digits point
    else f.scientific digits (point - 1)

/-- **A number as text**, a sign before the magnitude of a negative one, zero included. -/
def Layout.chars (f : Layout) (x : Binary64) : List Char :=
  if x.negative then '-' :: f.magnitude x.bits else f.magnitude x.bits

/-- A number as a string. -/
def Layout.text (f : Layout) (x : Binary64) : String :=
  String.ofList (f.chars x)

end Runbook.Decimal
