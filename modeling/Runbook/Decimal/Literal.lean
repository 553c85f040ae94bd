import Runbook.Decimal.Binary64

/-!
# Decimal literals

Reading a number written as digits with at most one point and an optional exponent, such as `12`,
`1.`, `.5` or `2.5e-3`.  Formats that allow fewer spellings check the spelling themselves.
-/

namespace Runbook.Decimal

/-- The value of a digit. -/
def digitValue (c : Char) : Nat :=
  c.toNat - '0'.toNat

/-- The number that a list of digits spells; the empty list spells zero. -/
def digitsValue (cs : List Char) : Nat :=
  cs.foldl (fun n c => 10 * n + digitValue c) 0

/-- An exponent after its mark: an optional sign and at least one digit. -/
def exponent? (cs : List Char) : Option Int :=
  let (negative, digits) := match cs with
    | '-' :: rest => (true, rest)
    | '+' :: rest => (false, rest)
    | rest => (false, rest)
  if digits.isEmpty || !digits.all Char.isDigit then none
  else some (if negative then -(digitsValue digits : Int) else digitsValue digits)

/-- **The parts of a literal**: the digits before and after the point, and the exponent. -/
def parts? (cs : List Char) : Option (List Char × List Char × Int) :=
  let whole := cs.takeWhile Char.isDigit
  let rest := cs.dropWhile Char.isDigit
  let (fraction, rest) := match rest with
    | '.' :: tail => (tail.takeWhile Char.isDigit, tail.dropWhile Char.isDigit)
    | _ => ([], rest)
  if whole.isEmpty && fraction.isEmpty then none
  else match rest with
    | [] => some (whole, fraction, 0)
    | 'e' :: tail | 'E' :: tail => (exponent? tail).map fun e => (whole, fraction, e)
    | _ => none

/-- **The number that an unsigned literal denotes**, rounded to binary64. -/
def read? (negative : Bool) (cs : List Char) : Option Binary64 :=
  (parts? cs).map fun (whole, fraction, e) =>
    Binary64.ofDecimal negative (digitsValue (whole ++ fraction)) (e - fraction.length)

end Runbook.Decimal
