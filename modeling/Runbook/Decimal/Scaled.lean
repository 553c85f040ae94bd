import Runbook.Decimal.Literal

/-!
# Decimals in two roundings

A quick way to read a decimal.  As many of its digits as fit 64 bits are rounded to binary64, and
the result is multiplied or divided by a rounded power of ten.  What is read is the nearest number
if the digits and the power of ten are exact, and else may be off by a little; a decimal that comes
out too large has no value at all.
-/

namespace Runbook

namespace Binary64

/-- The number nearest to `num / den · 2 ^ q`, zero if there is nothing to divide or to divide
by. -/
def ofScaled (negative : Bool) (num den : Nat) (q : Int) : Binary64 :=
  if num = 0 ∨ den = 0 then { zero with negative }
  else
    ⟨negative, ofRatio (num * Nat.pow 2 q.toNat) (den * Nat.pow 2 (-q).toNat), ofRatio_le _ _⟩

/-- The rounded product of finite numbers. -/
def times (x y : Binary64) : Binary64 :=
  let (m, q) := parts x.bits
  let (n, r) := parts y.bits
  ofScaled (x.negative != y.negative) (m * n) 1 (q + r)

/-- The rounded quotient of finite numbers. -/
def dividedBy (x y : Binary64) : Binary64 :=
  let (m, q) := parts x.bits
  let (n, r) := parts y.bits
  ofScaled (x.negative != y.negative) m n (q - r)

/-- The rounded power of ten. -/
def powerOfTen (k : Nat) : Binary64 := ofDecimal false 1 k

end Binary64

namespace Decimal

/-- The greatest exponent of a power of ten that is finite. -/
def greatestPower : Nat := 308

/-- The number that digits spell after those that spell `n`, as long as it fits 64 bits, and the
digits that are left. -/
def fitting (n : Nat) : List Char → Nat × List Char
  | [] => (n, [])
  | c :: rest =>
    let next := 10 * n + digitValue c
    if next < 18446744073709551616 then fitting next rest else (n, c :: rest)

/-- A number divided by a power of ten: in two steps if the power is not finite, and zero if two
steps are not enough. -/
def scaleDown (x : Binary64) (k : Nat) : Binary64 :=
  if k ≤ greatestPower then x.dividedBy (.powerOfTen k)
  else if k ≤ 2 * greatestPower then
    (x.dividedBy (.powerOfTen greatestPower)).dividedBy (.powerOfTen (k - greatestPower))
  else { Binary64.zero with negative := x.negative }

/-- A number multiplied by a power of ten, `none` if that is too large. -/
def scaleUp? (x : Binary64) (k : Nat) : Option Binary64 :=
  if k ≤ greatestPower then
    let product := x.times (.powerOfTen k)
    if product.isInfinite then none else some product
  else if x.isZero then some x
  else none

/-- A number times a power of ten. -/
def scale? (x : Binary64) : Int → Option Binary64
  | .ofNat k => scaleUp? x k
  | .negSucc k => some (scaleDown x (k + 1))

/-- **The number that an unsigned literal is read as**, `none` if it is too large. -/
def scaled? (negative : Bool) (cs : List Char) : Option Binary64 :=
  (parts? cs).bind fun (whole, fraction, e) =>
    let (n, wholeLeft) := fitting 0 whole
    let (n, fractionLeft) := fitting n fraction
    let exponent : Int := wholeLeft.length - (fraction.length - fractionLeft.length : Nat) + e
    scale? (.ofDecimal negative n 0) exponent

end Decimal

end Runbook
