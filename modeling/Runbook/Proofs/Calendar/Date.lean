import Mathlib.Order.Basic
import Mathlib.Tactic.IntervalCases
import Runbook.Calendar

/-!
# The Gregorian calendar

The calendar is given by the length of each month and by the date of the next day (`Date.next`).
Days are counted from the first day of their month on (`firstDay`), which moves on by the length of
the month from one month to the next and from December to January (`firstDay_succ`,
`firstDay_thirteen`).  So the number of a day (`Date.dayNumber`) grows with the date, and a date is
the only one of its number.  The formulas give a date of the calendar with the number that was asked for
(`dateOfDay_spec`); therefore they follow the calendar from day to day (`dateOfDay_succ`).
-/

namespace Runbook.Calendar

/-! ## The rules -/

/-- The days of a month. -/
def monthLength (year : Int) (month : Nat) : Nat :=
  match month with
  | 2 => if IsLeap year then 29 else 28
  | 4 | 6 | 9 | 11 => 30
  | _ => 31

theorem monthLength_bounds (year : Int) (month : Nat) :
    28 ≤ monthLength year month ∧ monthLength year month ≤ 31 := by
  unfold monthLength
  split
  · split <;> decide
  all_goals decide

namespace Date

/-- **A date of the calendar.** -/
structure Valid (d : Date) : Prop where
  month : 1 ≤ d.month ∧ d.month ≤ 12
  day : 1 ≤ d.day ∧ d.day ≤ monthLength d.year d.month

/-- **The date of the next day.** -/
def next (d : Date) : Date :=
  if d.day < monthLength d.year d.month then { d with day := d.day + 1 }
  else if d.month < 12 then { d with month := d.month + 1, day := 1 }
  else { year := d.year + 1, month := 1, day := 1 }

/-- The date comes before another one. -/
def Before (d e : Date) : Prop :=
  d.year < e.year ∨ d.year = e.year ∧ (d.month < e.month ∨ d.month = e.month ∧ d.day < e.day)

theorem before_or_eq_or_before (d e : Date) : d.Before e ∨ d = e ∨ e.Before d := by
  obtain ⟨y, m, k⟩ := d
  obtain ⟨y', m', k'⟩ := e
  unfold Before
  rcases lt_trichotomy y y' with hyear | rfl | hyear
  · exact Or.inl (Or.inl hyear)
  · rcases lt_trichotomy m m' with hmonth | rfl | hmonth
    · exact Or.inl (Or.inr ⟨rfl, Or.inl hmonth⟩)
    · rcases lt_trichotomy k k' with hday | rfl | hday
      · exact Or.inl (Or.inr ⟨rfl, Or.inr ⟨rfl, hday⟩⟩)
      · exact Or.inr (Or.inl rfl)
      · exact Or.inr (Or.inr (Or.inr ⟨rfl, Or.inr ⟨rfl, hday⟩⟩))
    · exact Or.inr (Or.inr (Or.inr ⟨rfl, Or.inl hmonth⟩))
  · exact Or.inr (Or.inr (Or.inl hyear))

end Date

/-! ## Months -/

section Month
variable {year year' : Int} {month month' : Nat}

/-- The days before the first of March of a year, counted from that of the year 0. -/
def daysBeforeMarch (year : Int) : Int :=
  daysBeforeYear year + year / 400

theorem daysBeforeMarch_of_isLeap (h : IsLeap year) :
    daysBeforeMarch year = daysBeforeMarch (year - 1) + 366 := by
  obtain ⟨hfourth, hhundredth⟩ := h
  unfold daysBeforeMarch daysBeforeYear
  omega

theorem daysBeforeMarch_of_not_isLeap (h : ¬ IsLeap year) :
    daysBeforeMarch year = daysBeforeMarch (year - 1) + 365 := by
  unfold IsLeap at h
  unfold daysBeforeMarch daysBeforeYear
  omega

theorem daysBeforeMarch_le (h : year ≤ year') : daysBeforeMarch year ≤ daysBeforeMarch year' := by
  unfold daysBeforeMarch daysBeforeYear
  omega

/-- Every era has the same leap years. -/
theorem IsLeap.add_era (h : IsLeap (year + 1)) (era : Int) : IsLeap (year + era * 400 + 1) := by
  unfold IsLeap at h ⊢
  omega

/-- Every era has the same length. -/
theorem daysBeforeMarch_add_era (h : 0 ≤ year ∧ year < 400) (era : Int) :
    daysBeforeMarch (year + era * 400) = daysBeforeYear year + era * 146097 := by
  unfold daysBeforeMarch daysBeforeYear
  omega

/-- **The first day of a month**, counted from 1970-01-01; a thirteenth month is the first one of
the next year. -/
def firstDay (year : Int) (month : Nat) : Int :=
  daysBeforeMarch (if month ≤ 2 then year - 1 else year) +
    daysBeforeMonth (((month + 9) % 12 : Nat) : Int) - 719468

/-- **A month ends where the next one begins.** -/
theorem firstDay_succ (year : Int) (h : 1 ≤ month ∧ month ≤ 12) :
    firstDay year (month + 1) = firstDay year month + monthLength year month := by
  obtain ⟨hlow, hhigh⟩ := h
  unfold firstDay monthLength daysBeforeMonth
  by_cases hleap : IsLeap year
  · have hmarch := daysBeforeMarch_of_isLeap hleap
    interval_cases month <;> simp [hleap] <;> omega
  · have hmarch := daysBeforeMarch_of_not_isLeap hleap
    interval_cases month <;> simp [hleap] <;> omega

theorem firstDay_thirteen (year : Int) : firstDay year 13 = firstDay (year + 1) 1 := by
  simp [firstDay]

theorem firstDay_le (hlow : 1 ≤ month) (h : month ≤ month') (hhigh : month' ≤ 13) :
    firstDay year month ≤ firstDay year month' := by
  induction month', h using Nat.le_induction with
  | base => exact le_rfl
  | succ month' hle ih =>
    rw [firstDay_succ year ⟨hlow.trans hle, by omega⟩]
    exact le_add_of_le_of_nonneg (ih (by omega)) (Int.natCast_nonneg _)

theorem firstDay_january_le (h : year ≤ year') : firstDay year 1 ≤ firstDay year' 1 := by
  have hmarch := daysBeforeMarch_le (Int.sub_le_sub_right h 1)
  simp [firstDay, hmarch]

end Month

/-! ## Numbers of days -/

/-- **The number of the day of a date**, counted from 1970-01-01. -/
def Date.dayNumber (d : Date) : Int :=
  firstDay d.year d.month + (d.day - 1)

namespace Date.Valid
variable {d e : Date}

theorem firstDay_le_dayNumber (h : d.Valid) : firstDay d.year d.month ≤ d.dayNumber := by
  have hday := h.day.1
  unfold dayNumber
  omega

theorem dayNumber_lt_firstDay (h : d.Valid) : d.dayNumber < firstDay d.year (d.month + 1) := by
  have hday := h.day.2
  rw [firstDay_succ d.year h.month]
  unfold dayNumber
  omega

/-- **A later date is that of a later day.** -/
theorem dayNumber_lt (hd : d.Valid) (he : e.Valid) (h : d.Before e) :
    d.dayNumber < e.dayNumber := by
  obtain ⟨hdlow, hdhigh⟩ := hd.month
  obtain ⟨helow, hehigh⟩ := he.month
  rcases h with hyear | ⟨hyear, hmonth | ⟨hmonth, hday⟩⟩
  · calc d.dayNumber < firstDay d.year (d.month + 1) := hd.dayNumber_lt_firstDay
      _ ≤ firstDay d.year 13 := firstDay_le (by omega) (by omega) le_rfl
      _ = firstDay (d.year + 1) 1 := firstDay_thirteen d.year
      _ ≤ firstDay e.year 1 := firstDay_january_le hyear
      _ ≤ firstDay e.year e.month := firstDay_le le_rfl helow (by omega)
      _ ≤ e.dayNumber := he.firstDay_le_dayNumber
  · calc d.dayNumber < firstDay d.year (d.month + 1) := hd.dayNumber_lt_firstDay
      _ ≤ firstDay d.year e.month := firstDay_le (by omega) hmonth (by omega)
      _ = firstDay e.year e.month := by rw [hyear]
      _ ≤ e.dayNumber := he.firstDay_le_dayNumber
  · unfold dayNumber
    rw [hyear, hmonth]
    omega

theorem eq_of_dayNumber_eq (hd : d.Valid) (he : e.Valid) (h : d.dayNumber = e.dayNumber) :
    d = e := by
  rcases before_or_eq_or_before d e with hbefore | heq | hbefore
  · exact absurd h (hd.dayNumber_lt he hbefore).ne
  · exact heq
  · exact absurd h (he.dayNumber_lt hd hbefore).ne'

/-- **The date of the next day** is a date, and its number is the next one. -/
theorem next (h : d.Valid) : d.next.Valid ∧ d.next.dayNumber = d.dayNumber + 1 := by
  obtain ⟨year, month, day⟩ := d
  obtain ⟨hmonth, hday⟩ := h
  dsimp only at hmonth hday
  have hsucc := firstDay_succ year hmonth
  unfold Date.next dayNumber
  dsimp only
  by_cases hwithin : day < monthLength year month
  · rw [if_pos hwithin]
    exact ⟨⟨hmonth, by dsimp only; omega⟩, by dsimp only; omega⟩
  · rw [if_neg hwithin]
    have hfirst : ∀ y m, 1 ≤ 1 ∧ 1 ≤ monthLength y m := fun y m =>
      ⟨le_rfl, (by decide : 1 ≤ 28).trans (monthLength_bounds y m).1⟩
    by_cases hdecember : month < 12
    · rw [if_pos hdecember]
      exact ⟨⟨by dsimp only; omega, hfirst _ _⟩, by dsimp only; omega⟩
    · obtain rfl : month = 12 := by omega
      rw [if_neg hdecember]
      rw [firstDay_thirteen] at hsucc
      exact ⟨⟨by dsimp only; omega, hfirst _ _⟩, by dsimp only; omega⟩

end Date.Valid

/-! ## The formulas -/

section Formulas
variable {year month day : Int}

/-- The first day of a month that is counted from March. -/
theorem firstDay_ofMarch (h : 0 ≤ month ∧ month ≤ 11) :
    firstDay (year + if month < 10 then 0 else 1)
        (if month < 10 then month + 3 else month - 9).toNat =
      daysBeforeMarch year + daysBeforeMonth month - 719468 := by
  unfold firstDay
  by_cases hmarch : month < 10
  · have hlate : ¬ (month + 3).toNat ≤ 2 := by omega
    have hmonth : (((month + 3).toNat + 9) % 12 : Nat) = month := by omega
    simp only [if_pos hmarch, if_neg hlate, hmonth, add_zero]
  · have hearly : (month - 9).toNat ≤ 2 := by omega
    have hmonth : (((month - 9).toNat + 9) % 12 : Nat) = month := by omega
    simp only [if_neg hmarch, if_pos hearly, hmonth, add_sub_cancel_right]

/-- A day of a year, counted from March, is within its month. -/
theorem sub_daysBeforeMonth_lt (year : Int) (hmonth : 0 ≤ month ∧ month ≤ 11)
    (hday : day < daysBeforeMonth (month + 1))
    (hyear : day < 365 ∨ day = 365 ∧ IsLeap (year + 1)) :
    day - daysBeforeMonth month < monthLength (year + if month < 10 then 0 else 1)
      (if month < 10 then month + 3 else month - 9).toNat := by
  obtain ⟨hlow, hhigh⟩ := hmonth
  unfold daysBeforeMonth at hday ⊢
  unfold monthLength
  by_cases hleap : IsLeap (year + 1)
  · interval_cases month <;> simp [hleap] at hday ⊢ <;> omega
  · have hshort : day < 365 := hyear.resolve_right fun h => hleap h.2
    interval_cases month <;> simp [hleap] at hday ⊢ <;> omega

/-- **The formulas give the date of a day.** -/
theorem dateOfDay_spec (n : Int) : (dateOfDay n).Valid ∧ (dateOfDay n).dayNumber = n := by
  obtain ⟨z, hz⟩ : ∃ z, z = n + 719468 := ⟨_, rfl⟩
  have hday : 0 ≤ z % 146097 ∧ z % 146097 < 146097 := by omega
  obtain ⟨hyear, -, hlast⟩ := yearOfEra_spec hday
  have hbounds := inYear_bounds hday
  unfold dateOfDay Date.dayNumber
  dsimp only
  rw [← hz]
  generalize yearOfEra (z % 146097) = year at *
  have hera := daysBeforeMarch_add_era hyear (z / 146097)
  generalize hinYear : z % 146097 - daysBeforeYear year = day at *
  obtain ⟨hmonth, hfrom, hto⟩ := monthOfYear_spec hbounds
  generalize monthOfYear day = month at *
  have hlength := sub_daysBeforeMonth_lt (year + z / 146097 * 400) hmonth hto
    (hlast.imp_right fun h => ⟨h.1, h.2.add_era (z / 146097)⟩)
  refine ⟨⟨?_, ?_⟩, ?_⟩
  · dsimp only
    split <;> omega
  · dsimp only
    omega
  · rw [firstDay_ofMarch hmonth, hera]
    omega

/-- **From day to day the formulas follow the calendar.** -/
theorem dateOfDay_succ (n : Int) : dateOfDay (n + 1) = (dateOfDay n).next := by
  obtain ⟨hvalid, hnumber⟩ := dateOfDay_spec n
  obtain ⟨hvalid', hnumber'⟩ := dateOfDay_spec (n + 1)
  obtain ⟨hnext, hsucc⟩ := hvalid.next
  refine hvalid'.eq_of_dayNumber_eq hnext ?_
  rw [hnumber', hsucc, hnumber]

/-- The dates of days are in the order of the days. -/
theorem dateOfDay_before_iff {n k : Int} : (dateOfDay n).Before (dateOfDay k) ↔ n < k := by
  obtain ⟨hn, hnumber⟩ := dateOfDay_spec n
  obtain ⟨hk, hnumber'⟩ := dateOfDay_spec k
  constructor
  · intro h
    have hlt := hn.dayNumber_lt hk h
    rwa [hnumber, hnumber'] at hlt
  · intro h
    rcases Date.before_or_eq_or_before (dateOfDay n) (dateOfDay k) with hbefore | heq | hbefore
    · exact hbefore
    · rw [heq, hnumber'] at hnumber
      omega
    · have hlt := hk.dayNumber_lt hn hbefore
      omega

end Formulas

namespace Instant

/-- The date of an instant is that of its day. -/
theorem date_eq (t : Instant) : t.date = dateOfDay t.day :=
  Option.get_of_eq_some _ t.dateOfDay?_day

/-- **Dates follow the Gregorian calendar.**  The first day has the date 1970-01-01.  On every day
that an instant can have, the computation in numbers of 64 bits gives a date of the calendar:
nothing overflows, and nothing is lost when the month and the day are cut to 32 bits.  What it gives
for the day after is the date of the next day. -/
theorem dates_follow_calendar :
    dateOfDay? 0 = some ⟨1970, 1, 1⟩ ∧
    ∀ t : Instant, dateOfDay? t.day = some t.date ∧ t.date.Valid ∧
      dateOfDay? (t.day + 1) = some t.date.next := by
  refine ⟨by decide, fun t => ?_⟩
  have hlt := t.day_lt
  refine ⟨(Option.some_get _).symm, ?_, ?_⟩
  · rw [date_eq]
    exact (dateOfDay_spec t.day).1
  · rw [date_eq, ← dateOfDay_succ]
    exact dateOfDay?_eq (by omega)

end Instant

end Runbook.Calendar
