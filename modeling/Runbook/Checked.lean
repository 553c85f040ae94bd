/-!
# Arithmetic in 64 bits

Whole numbers of 64 bits with a sign.  A result that does not fit is no number, and neither is
anything that is computed from it (`Checked`).  So where a computation ends with a number, nothing
on the way did overflow, and the number is the one that whole numbers of any size give
(`Checked.ofInt_add` and its like).
-/

namespace Runbook

/-- **A number of 64 bits with a sign**, or none where a result did not fit. -/
structure Checked where
  /-- The number, if there is one. -/
  value? : Option Int

namespace Checked

/-- A whole number fits into 64 bits with a sign. -/
abbrev Fits (x : Int) : Prop :=
  -9223372036854775808 ≤ x ∧ x < 9223372036854775808

/-- A whole number, if it fits. -/
def ofInt (x : Int) : Checked :=
  ⟨if Fits x then some x else none⟩

/-- What an operation gives for two numbers, if it fits. -/
def combine (f : Int → Int → Int) (a b : Checked) : Checked :=
  match a.value?, b.value? with
  | some x, some y => ofInt (f x y)
  | _, _ => ⟨none⟩

/-- What a division gives for two numbers: none by zero. -/
def divide (f : Int → Int → Int) (a b : Checked) : Checked :=
  if b.value? = some 0 then ⟨none⟩ else combine f a b

instance (n : Nat) : OfNat Checked n := ⟨ofInt (OfNat.ofNat n)⟩

instance : Add Checked := ⟨combine (· + ·)⟩

instance : Sub Checked := ⟨combine (· - ·)⟩

instance : Mul Checked := ⟨combine (· * ·)⟩

/-- The quotient is cut off towards zero. -/
instance : Div Checked := ⟨divide Int.tdiv⟩

/-- The quotient that leaves a remainder which is not negative. -/
def floorDiv (a b : Checked) : Checked := divide Int.ediv a b

/-- The remainder, which is not negative. -/
def floorMod (a b : Checked) : Checked := divide Int.emod a b

/-- The number without a sign in 32 bits, if it fits. -/
def word? (a : Checked) : Option Nat :=
  a.value?.bind fun x => if 0 ≤ x ∧ x < 4294967296 then some x.toNat else none

/-! ## Numbers that fit -/

section Fits
variable {x y : Int} {n : Nat}

theorem value?_ofInt (h : Fits x) : (ofInt x).value? = some x :=
  if_pos h

theorem word?_ofInt (h : 0 ≤ x ∧ x < 4294967296) : (ofInt x).word? = some x.toNat := by
  have hfits : Fits x := by omega
  rw [word?, value?_ofInt hfits, Option.bind_some, if_pos h]

theorem combine_ofInt (f : Int → Int → Int) (hx : Fits x) (hy : Fits y) :
    combine f (ofInt x) (ofInt y) = ofInt (f x y) := by
  rw [combine, value?_ofInt hx, value?_ofInt hy]

theorem divide_ofInt (f : Int → Int → Int) (hx : Fits x) (hy : Fits y) (hzero : y ≠ 0) :
    divide f (ofInt x) (ofInt y) = ofInt (f x y) := by
  have hvalue : (ofInt y).value? ≠ some 0 := by
    rw [value?_ofInt hy]
    exact fun h => hzero (Option.some.inj h)
  rw [divide, if_neg hvalue, combine_ofInt f hx hy]

theorem ofNat_eq (n : Nat) : (OfNat.ofNat n : Checked) = ofInt (OfNat.ofNat n) := rfl

theorem ofInt_add (hx : Fits x) (hy : Fits y) : ofInt x + ofInt y = ofInt (x + y) :=
  combine_ofInt _ hx hy

theorem ofInt_sub (hx : Fits x) (hy : Fits y) : ofInt x - ofInt y = ofInt (x - y) :=
  combine_ofInt _ hx hy

theorem ofInt_mul (hx : Fits x) (hy : Fits y) : ofInt x * ofInt y = ofInt (x * y) :=
  combine_ofInt _ hx hy

/-- A number that is not negative is divided as whole numbers are. -/
theorem ofInt_div (hx : Fits x ∧ 0 ≤ x) (hy : Fits y ∧ y ≠ 0) :
    ofInt x / ofInt y = ofInt (x / y) := by
  have hquotient : x.tdiv y = x / y := Int.tdiv_eq_ediv_of_nonneg hx.2
  rw [← hquotient]
  exact divide_ofInt _ hx.1 hy.1 hy.2

theorem floorDiv_ofInt (hx : Fits x) (hy : Fits y ∧ y ≠ 0) :
    (ofInt x).floorDiv (ofInt y) = ofInt (x / y) :=
  divide_ofInt _ hx hy.1 hy.2

theorem floorMod_ofInt (hx : Fits x) (hy : Fits y ∧ y ≠ 0) :
    (ofInt x).floorMod (ofInt y) = ofInt (x % y) :=
  divide_ofInt _ hx hy.1 hy.2

end Fits

end Checked

end Runbook
