/-!
# Binary64 numbers

A number of the format binary64, infinities included and not-a-number left out, as a sign and the
bits of its magnitude.  The bits of a magnitude, read as a natural number, grow with the magnitude,
so numbers are compared by `Binary64.key` alone and two zeros of different signs are equal.

A decimal is rounded to the nearest number, a half going to the even neighbour, in exact arithmetic
(`Binary64.ofDecimal`); a value past the largest finite number becomes infinite.
-/

namespace Runbook

/-- **A binary64 number**: its sign, and the exponent and fraction bits of its magnitude. -/
structure Binary64 where
  /-- The sign bit. -/
  negative : Bool
  /-- The exponent bits followed by the fraction bits. -/
  bits : Nat
  /-- No magnitude lies beyond infinity. -/
  bits_le : bits ≤ 0x7FF0000000000000
deriving DecidableEq

namespace Binary64

/-- The bits of an infinite magnitude. -/
def infinityBits : Nat := 0x7FF0000000000000

/-- The bit above the 52 fraction bits, which normal numbers have and do not store. -/
def hidden : Nat := 0x10000000000000

/-- Positive zero. -/
def zero : Binary64 := ⟨false, 0, by omega⟩

instance : Inhabited Binary64 := ⟨zero⟩

/-- One. -/
def one : Binary64 := ⟨false, 0x3FF0000000000000, by omega⟩

/-- The number of the opposite sign. -/
def neg (x : Binary64) : Binary64 := { x with negative := !x.negative }

/-- The place of a number in the order of values. -/
def key (x : Binary64) : Int :=
  if x.negative then -(x.bits : Int) else x.bits

/-- Both numbers have the same value. -/
def same (x y : Binary64) : Bool :=
  x.key == y.key

/-- The order of two numbers by value. -/
def order (x y : Binary64) : Ordering :=
  compare x.key y.key

/-- The magnitude is zero. -/
def isZero (x : Binary64) : Bool :=
  x.bits == 0

/-- The magnitude is infinite. -/
def isInfinite (x : Binary64) : Bool :=
  x.bits == infinityBits

/-- **The parts of a finite magnitude** `m · 2 ^ q`: `m` and `q`. -/
def parts (bits : Nat) : Nat × Int :=
  let exponent := bits / hidden
  let fraction := bits % hidden
  if exponent = 0 then (fraction, -1074)
  else (hidden + fraction, (exponent : Int) - 1075)

/-! ## Rounding -/

/-- The integer nearest to `num / den`, a half going to the even neighbour. -/
def roundHalfEven (num den : Nat) : Nat :=
  let quotient := num / den
  let twice := 2 * (num % den)
  if twice < den then quotient
  else if den < twice then quotient + 1
  else if quotient % 2 = 0 then quotient else quotient + 1

/-- The magnitude nearest to `num / den`, for `num` and `den` above zero.

The unit `2 ^ unit` is chosen so that the quotient counts between `2 ^ 52` and `2 ^ 53` units, and
never below `2 ^ (-1074)`.  The count and the unit then pack into bits by one formula, which also
holds when the count is rounded up to `2 ^ 53` and for the magnitudes below the normal range. -/
def ofRatio (num den : Nat) : Nat :=
  let scale : Int := (num.log2 : Int) - (den.log2 : Int)
  let belowPower :=
    if 0 ≤ scale then num < den * Nat.pow 2 scale.toNat
    else num * Nat.pow 2 (-scale).toNat < den
  let unit := max (-1074) (if belowPower then scale - 53 else scale - 52)
  let count := roundHalfEven (num * Nat.pow 2 (-unit).toNat) (den * Nat.pow 2 unit.toNat)
  min infinityBits ((unit + 1074).toNat * hidden + count)

theorem ofRatio_le (num den : Nat) : ofRatio num den ≤ 0x7FF0000000000000 :=
  Nat.min_le_left _ _

/-- **The number nearest to `digits · 10 ^ exponent`.**

A decimal whose leading digit stands far outside the range of finite numbers is settled by the
place of that digit, so no power of ten grows with the exponent. -/
def ofDecimal (negative : Bool) (digits : Nat) (exponent : Int) : Binary64 :=
  let place := ((Nat.toDigits 10 digits).length : Int) + exponent
  if digits = 0 ∨ place < -330 then ⟨negative, 0, by omega⟩
  else if 310 < place then ⟨negative, infinityBits, Nat.le_refl _⟩
  else
    ⟨negative, ofRatio (digits * Nat.pow 10 exponent.toNat) (Nat.pow 10 (-exponent).toNat),
      ofRatio_le _ _⟩

end Binary64

end Runbook
