import Runbook.Decimal.Binary64

/-!
# Shortest decimals

The decimal with the fewest digits that reads back as a given magnitude.  The reals that round to a
magnitude form an interval; of the powers of ten, the largest is taken at which one of the two
neighbours of the value among its multiples lies in that interval, and of two such neighbours the
nearer one.
-/

namespace Runbook.Decimal

/-- Which of two decimals at the same distance is taken. -/
inductive Tie
  /-- The one whose last digit is even. -/
  | toEven
  /-- The larger one. -/
  | up
deriving DecidableEq

/-- A decimal: an integer count of a power of ten. -/
structure Numeral where
  /-- The digits, as an integer. -/
  digits : Nat
  /-- The power of ten that the last digit counts. -/
  exponent : Int
deriving DecidableEq

/-- A finite magnitude above zero and the interval of reals that round to it, in quarters of its
unit.  The ends belong to the interval when `closed` holds. -/
structure Interval where
  /-- The lower end. -/
  low : Nat
  /-- The value itself. -/
  value : Nat
  /-- The upper end. -/
  high : Nat
  /-- The power of two of a quarter of the unit. -/
  power : Int
  /-- A real at either end rounds to the value, which has an even count. -/
  closed : Bool

/-- The interval of the magnitude with the given bits.  Below a power of two the units are half as
long, so the lower end is nearer there. -/
def Interval.ofBits (bits : Nat) : Interval :=
  let parts := Binary64.parts bits
  let narrow := bits % Binary64.hidden = 0 ∧ 2 * Binary64.hidden ≤ bits
  { low := 4 * parts.1 - (if narrow then 1 else 2)
    value := 4 * parts.1
    high := 4 * parts.1 + 2
    power := parts.2 - 2
    closed := parts.1 % 2 = 0 }

/-- The multiple of `10 ^ exponent` in the interval that is nearest to its value, if one of the
value's two neighbours among these multiples lies in it.

Both sides are scaled to integers: `x` quarters stand at `x * up`, the multiple `d` at
`d * down`. -/
def Interval.nearestMultiple? (i : Interval) (tie : Tie) (exponent : Int) : Option Nat :=
  let up := Nat.pow 2 i.power.toNat * Nat.pow 10 (-exponent).toNat
  let down := Nat.pow 2 (-i.power).toNat * Nat.pow 10 exponent.toNat
  let inside (d : Nat) : Bool :=
    if i.closed then i.low * up ≤ d * down && d * down ≤ i.high * up
    else i.low * up < d * down && d * down < i.high * up
  let below := i.value * up / down
  let twice := 2 * (i.value * up % down)
  if twice = 0 then some below
  else
    let nearer :=
      if twice < down then below
      else if down < twice then below + 1
      else match tie with
        | .up => below + 1
        | .toEven => if below % 2 = 0 then below else below + 1
    let farther := if nearer = below then below + 1 else below
    if inside nearer then some nearer
    else if inside farther then some farther
    else none

/-- **The shortest decimal that reads back as the finite magnitude with these bits**, which are
above zero.  The search starts at a power of ten above the value and stops at the first grid with a
hit; seventeen digits always suffice. -/
def shortest (tie : Tie) (bits : Nat) : Numeral :=
  let i := Interval.ofBits bits
  let start := ((i.value.log2 : Int) + i.power) * 30103 / 100000 + 2
  let hit := (List.range 24).findSome? fun (n : Nat) =>
    (i.nearestMultiple? tie (start - n)).bind fun d =>
      if d = 0 then none else some (⟨d, start - n⟩ : Numeral)
  hit.getD ⟨i.value, 0⟩

end Runbook.Decimal
