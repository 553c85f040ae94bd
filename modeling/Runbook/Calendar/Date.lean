import Runbook.Checked

/-!
# Dates

Dates of the Gregorian calendar, extended to all times, by the number of days since 1970-01-01.
Years are counted from the first of March, so that a leap day ends a year, and in eras of 400 years,
all of which have 146097 days.

The formulas are the same for whole numbers and for numbers of 64 bits.  A date is computed in 64
bits (`dateOfDay?`); nothing overflows on the days that 62 bits can count, so there the date is that
of whole numbers of any size (`dateOfDay?_eq`).
-/

namespace Runbook.Calendar

/-- **A date.** -/
structure Date where
  year : Int
  /-- From 1 to 12. -/
  month : Nat
  /-- From 1 to the length of the month. -/
  day : Nat
deriving DecidableEq

/-! ## Formulas -/

section Formulas
variable {α : Type} [Add α] [Sub α] [Mul α] [Div α] [∀ n, OfNat α n]

/-- The year of an era that a day of the era is in. -/
def yearOfEra (day : α) : α :=
  (day - day / 1460 + day / 36524 - day / 146096) / 365

/-- The days of an era before a year of it. -/
def daysBeforeYear (year : α) : α :=
  365 * year + year / 4 - year / 100

/-- The month, counted from March as 0, that a day of a year is in. -/
def monthOfYear (day : α) : α :=
  (5 * day + 2) / 153

/-- The days of a year before a month of it, counted from March as 0. -/
def daysBeforeMonth (month : α) : α :=
  (153 * month + 2) / 5

end Formulas

/-- The date of a day, counted from 1970-01-01, in whole numbers of any size. -/
def dateOfDay (day : Int) : Date :=
  let z := day + 719468
  let year := yearOfEra (z % 146097)
  let inYear := z % 146097 - daysBeforeYear year
  let month := monthOfYear inYear
  { year := year + z / 146097 * 400 + if month < 10 then 0 else 1
    month := (if month < 10 then month + 3 else month - 9).toNat
    day := (inYear - daysBeforeMonth month + 1).toNat }

/-- **The date of a day**, counted from 1970-01-01, in numbers of 64 bits; none if one of them
overflows. -/
def dateOfDay? (day : Int) : Option Date := do
  let z := Checked.ofInt day + 719468
  let era := z.floorDiv 146097
  let inEra := z.floorMod 146097
  let year := yearOfEra inEra
  let inYear := inEra - daysBeforeYear year
  let fromMarch := monthOfYear inYear
  let day := inYear - daysBeforeMonth fromMarch + 1
  let month := if (← fromMarch.value?) < 10 then fromMarch + 3 else fromMarch - 9
  let year := year + era * 400 + if (← month.value?) ≤ 2 then 1 else 0
  return { year := ← year.value?, month := ← month.word?, day := ← day.word? }

/-- The year has a leap day: every fourth, but of the hundredth only every fourth. -/
def IsLeap (year : Int) : Prop :=
  year % 4 = 0 ∧ (year % 100 ≠ 0 ∨ year % 400 = 0)

instance (year : Int) : Decidable (IsLeap year) := inferInstanceAs (Decidable (_ ∧ _))

/-! ## The year of a day -/

section Year
variable {d c q r e y : Int}

/-- **The parts of an era**: its first three centuries have 36524 days each, of a century all but
the last four years 1461 each, and the first three of four years 365 each. -/
structure InEra (d c q r e : Int) : Prop where
  eq : d = 36524 * c + 1461 * q + 365 * r + e
  century : 0 ≤ c ∧ c ≤ 3
  four : 0 ≤ q ∧ q ≤ 24
  year : 0 ≤ r ∧ r ≤ 3
  /-- Only a fourth year has a leap day. -/
  day : 0 ≤ e ∧ (e < 365 ∨ e = 365 ∧ r = 3)
  /-- The hundredth year has one only in the last century. -/
  last : q = 24 → c < 3 → 365 * r + e < 1460

theorem exists_inEra (h : 0 ≤ d ∧ d < 146097) : ∃ c q r e, InEra d c q r e := by
  obtain ⟨c, hc⟩ : ∃ c, c = min (d / 36524) 3 := ⟨_, rfl⟩
  obtain ⟨b, hb⟩ : ∃ b, b = d - 36524 * c := ⟨_, rfl⟩
  obtain ⟨a, ha⟩ : ∃ a, a = b % 1461 := ⟨_, rfl⟩
  obtain ⟨r, hr⟩ : ∃ r, r = min (a / 365) 3 := ⟨_, rfl⟩
  refine ⟨c, b / 1461, r, a - 365 * r, ?_, ?_, ?_, ?_, ?_, ?_⟩ <;> omega

/-- The formula for the year corrects the day by the leap days before it, so that it can divide
by 365. -/
theorem InEra.yearOfEra_eq (h : InEra d c q r e) : yearOfEra d = 100 * c + 4 * q + r := by
  obtain ⟨heq, hcentury, hfour, hyear, hday, hlast⟩ := h
  have hcenturies : d / 36524 - d / 146096 = c := by
    rcases (by omega : d = 146096 ∨ 36524 * c ≤ d ∧ d < 36524 * (c + 1)) with rfl | h <;> omega
  -- the division by 1460 runs ahead of the leap days, by one at the end of four years
  have hleap : d / 1460 = 25 * c + q ∨ 0 < e ∧ d / 1460 = 25 * c + q + 1 := by omega
  have hahead : e = 365 → d / 1460 = 25 * c + q + 1 := by omega
  unfold yearOfEra
  omega

theorem InEra.daysBeforeYear_eq (h : InEra d c q r e) :
    daysBeforeYear (100 * c + 4 * q + r) = d - e := by
  obtain ⟨heq, hcentury, hfour, hyear, -, -⟩ := h
  unfold daysBeforeYear
  omega

/-- A year that ends with a leap day is followed by a leap year. -/
theorem InEra.isLeap (h : InEra d c q r e) (he : e = 365) : IsLeap (100 * c + 4 * q + r + 1) := by
  obtain ⟨-, hcentury, hfour, -, hday, hlast⟩ := h
  obtain rfl : r = 3 := by omega
  refine ⟨by omega, ?_⟩
  by_cases hhundredth : q = 24
  · exact Or.inr (by omega)
  · exact Or.inl (by omega)

/-- **The year of a day**: the day is in it, as the last one only if February has a leap day. -/
theorem yearOfEra_spec (h : 0 ≤ d ∧ d < 146097) :
    (0 ≤ yearOfEra d ∧ yearOfEra d < 400) ∧ 0 ≤ d - daysBeforeYear (yearOfEra d) ∧
      (d - daysBeforeYear (yearOfEra d) < 365 ∨
        d - daysBeforeYear (yearOfEra d) = 365 ∧ IsLeap (yearOfEra d + 1)) := by
  obtain ⟨c, q, r, e, hparts⟩ := exists_inEra h
  have hleap := hparts.isLeap
  rw [hparts.yearOfEra_eq, hparts.daysBeforeYear_eq, Int.sub_sub_self]
  obtain ⟨-, hcentury, hfour, hyear, hday, -⟩ := hparts
  exact ⟨by omega, hday.1, hday.2.imp_right fun h => ⟨h.1, hleap h.1⟩⟩

/-- A year has at most 366 days. -/
theorem inYear_bounds (h : 0 ≤ d ∧ d < 146097) :
    0 ≤ d - daysBeforeYear (yearOfEra d) ∧ d - daysBeforeYear (yearOfEra d) ≤ 365 := by
  obtain ⟨-, hnonneg, hlast⟩ := yearOfEra_spec h
  exact ⟨hnonneg, hlast.elim Int.le_of_lt fun h => Int.le_of_eq h.1⟩

theorem daysBeforeYear_nonneg (h : 0 ≤ y) : 0 ≤ daysBeforeYear y := by
  unfold daysBeforeYear
  omega

theorem daysBeforeMonth_nonneg (h : 0 ≤ d) : 0 ≤ daysBeforeMonth d := by
  unfold daysBeforeMonth
  omega

/-- **The month of a day**: the day is in it. -/
theorem monthOfYear_spec (h : 0 ≤ d ∧ d ≤ 365) :
    (0 ≤ monthOfYear d ∧ monthOfYear d ≤ 11) ∧ daysBeforeMonth (monthOfYear d) ≤ d ∧
      d < daysBeforeMonth (monthOfYear d + 1) := by
  unfold monthOfYear daysBeforeMonth
  omega

end Year

/-! ## Numbers of 64 bits -/

section Checked
open Checked
variable {d y m n : Int}

theorem yearOfEra_ofInt (h : 0 ≤ d ∧ d < 146097) : yearOfEra (ofInt d) = ofInt (yearOfEra d) := by
  unfold yearOfEra
  simp (disch := omega) only [ofNat_eq, ofInt_add, ofInt_sub, ofInt_div]

theorem daysBeforeYear_ofInt (h : 0 ≤ y ∧ y < 400) :
    daysBeforeYear (ofInt y) = ofInt (daysBeforeYear y) := by
  unfold daysBeforeYear
  simp (disch := omega) only [ofNat_eq, ofInt_add, ofInt_sub, ofInt_mul, ofInt_div]

theorem monthOfYear_ofInt (h : 0 ≤ d ∧ d ≤ 365) :
    monthOfYear (ofInt d) = ofInt (monthOfYear d) := by
  unfold monthOfYear
  simp (disch := omega) only [ofNat_eq, ofInt_add, ofInt_mul, ofInt_div]

theorem daysBeforeMonth_ofInt (h : 0 ≤ m ∧ m ≤ 11) :
    daysBeforeMonth (ofInt m) = ofInt (daysBeforeMonth m) := by
  unfold daysBeforeMonth
  simp (disch := omega) only [ofNat_eq, ofInt_add, ofInt_mul, ofInt_div]

/-- The day of the year is computed without overflow. -/
theorem inYear_ofInt (h : 0 ≤ d ∧ d < 146097) :
    ofInt d - daysBeforeYear (yearOfEra (ofInt d)) = ofInt (d - daysBeforeYear (yearOfEra d)) := by
  obtain ⟨hyear, hinYear, -⟩ := yearOfEra_spec h
  have hbefore := daysBeforeYear_nonneg hyear.1
  rw [yearOfEra_ofInt h, daysBeforeYear_ofInt hyear, ofInt_sub (by omega) (by omega)]

/-- The day of the month is computed without overflow. -/
theorem inMonth_ofInt (h : 0 ≤ d ∧ d ≤ 365) :
    ofInt d - daysBeforeMonth (monthOfYear (ofInt d)) + 1 =
      ofInt (d - daysBeforeMonth (monthOfYear d) + 1) := by
  obtain ⟨hmonth, hinMonth, -⟩ := monthOfYear_spec h
  have hbefore := daysBeforeMonth_nonneg hmonth.1
  rw [monthOfYear_ofInt h, daysBeforeMonth_ofInt hmonth, ofNat_eq, ofInt_sub (by omega) (by omega),
    ofInt_add (by omega) (by omega)]

/-- **No number overflows** on a day that 62 bits can count. -/
theorem dateOfDay?_eq (h : 0 ≤ n ∧ n < 4611686018427387904) :
    dateOfDay? n = some (dateOfDay n) := by
  have hshift : ofInt n + 719468 = ofInt (n + 719468) := ofInt_add (by omega) (by omega)
  obtain ⟨z, hz⟩ : ∃ z, z = n + 719468 := ⟨_, rfl⟩
  have hera : (ofInt z).floorDiv 146097 = ofInt (z / 146097) :=
    floorDiv_ofInt (by omega) (by omega)
  have hinEra : (ofInt z).floorMod 146097 = ofInt (z % 146097) :=
    floorMod_ofInt (by omega) (by omega)
  have hday : 0 ≤ z % 146097 ∧ z % 146097 < 146097 := by omega
  obtain ⟨hyear, -, -⟩ := yearOfEra_spec hday
  have hinYear := inYear_bounds hday
  unfold dateOfDay? dateOfDay
  dsimp only
  rw [hshift, ← hz, hera, hinEra, inYear_ofInt hday, yearOfEra_ofInt hday]
  generalize z % 146097 - daysBeforeYear (yearOfEra (z % 146097)) = inYear at hinYear ⊢
  obtain ⟨hmonth, hinMonth, -⟩ := monthOfYear_spec hinYear
  rw [inMonth_ofInt hinYear, monthOfYear_ofInt hinYear]
  generalize monthOfYear inYear = month at hmonth hinMonth ⊢
  have hbefore := daysBeforeMonth_nonneg hmonth.1
  by_cases hmarch : month < 10
  · have hlate : ¬ month + 3 ≤ 2 := by omega
    simp (disch := omega) only [hmarch, hlate, if_true, if_false, ofNat_eq, ofInt_add, ofInt_mul,
      value?_ofInt, word?_ofInt, Option.bind_eq_bind, Option.bind_some, Option.pure_def]
  · have hearly : month - 9 ≤ 2 := by omega
    simp (disch := omega) only [hmarch, hearly, if_true, if_false, ofNat_eq, ofInt_add, ofInt_sub,
      ofInt_mul, value?_ofInt, word?_ofInt, Option.bind_eq_bind, Option.bind_some, Option.pure_def]

end Checked

end Runbook.Calendar
