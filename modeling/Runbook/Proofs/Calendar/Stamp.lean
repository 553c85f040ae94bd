import Mathlib.Data.String.Basic
import Runbook.Proofs.Calendar.Date

/-!
# The order of time stamps

Numbers that are padded to one width are in the order of their texts (`padded_lt_padded_iff`), and
of texts that begin with parts of one length the first part decides, then the rest
(`append_lt_append_iff`).  So the texts of dates and of times of day are in the order of time, part
by part, and so are the time stamps of all instants before the year 10000
(`Instant.stamps_sort_like_time`).
-/

namespace Runbook.Calendar

/-! ## Padded numbers -/

section Padded
variable {width a b n : Nat} {s t u v : List Char}

/-- **Parts of one length are compared first.** -/
theorem append_lt_append_iff (h : s.length = t.length) :
    s ++ u < t ++ v ↔ s < t ∨ s = t ∧ u < v := by
  induction s generalizing t with
  | nil =>
    obtain rfl := List.eq_nil_of_length_eq_zero h.symm
    simp
  | cons c s ih =>
    obtain ⟨d, t, rfl⟩ := List.exists_cons_of_length_eq_add_one h.symm
    have ih := ih (Nat.succ.inj h)
    simp only [List.cons_append, List.cons_lt_cons_iff, ih, List.cons.injEq]
    rw [and_or_left, or_assoc, and_assoc]

theorem length_padded (hwidth : 0 < width) (h : n < 10 ^ width) :
    (padded width n).length = width := by
  have hle := (Nat.length_toDigits_le_iff (by decide) hwidth).mpr h
  simp [padded, hle]

/-- The last digit comes off the end. -/
theorem padded_succ (hwidth : 0 < width) (n : Nat) :
    padded (width + 1) n = padded width (n / 10) ++ [(n % 10).digitChar] := by
  unfold padded
  by_cases hlt : n < 10
  · obtain ⟨width, rfl⟩ := Nat.exists_eq_succ_of_ne_zero hwidth.ne'
    rw [Nat.toDigits_of_lt_base hlt, Nat.div_eq_of_lt hlt, Nat.mod_eq_of_lt hlt, Nat.toDigits_zero]
    simp [List.replicate_succ']
  · rw [Nat.toDigits_of_base_le (by decide) (by omega)]
    simp

theorem digitChar_lt_digitChar_iff (ha : a < 10) (hb : b < 10) :
    a.digitChar < b.digitChar ↔ a < b := by
  rw [Char.lt_def, UInt32.lt_iff_toNat_lt]
  change a.digitChar.toNat < b.digitChar.toNat ↔ a < b
  rw [Nat.toNat_digitChar_of_lt_ten ha, Nat.toNat_digitChar_of_lt_ten hb]
  omega

/-- What is in the order of numbers is the same only for the same number. -/
theorem eq_iff_of_lt_iff {α : Type} [LinearOrder α] {x y : α} (hlt : x < y ↔ a < b)
    (hgt : y < x ↔ b < a) : x = y ↔ a = b := by
  rw [le_antisymm_iff, le_antisymm_iff, ← not_lt, ← not_lt, ← not_lt, ← not_lt, hlt, hgt]

/-- **Numbers that are padded to one width** are in the order of their texts. -/
theorem padded_lt_padded_iff (hwidth : 0 < width) (ha : a < 10 ^ width) (hb : b < 10 ^ width) :
    padded width a < padded width b ↔ a < b := by
  induction width, hwidth using Nat.le_induction generalizing a b with
  | base =>
    have hdigit : ∀ n < 10, padded 1 n = [n.digitChar] := fun n hn => by
      simp [padded, Nat.toDigits_of_lt_base hn]
    rw [hdigit a ha, hdigit b hb, List.cons_lt_cons_iff, digitChar_lt_digitChar_iff ha hb]
    simp
  | succ width hwidth ih =>
    rw [pow_succ] at ha hb
    have ha' : a / 10 < 10 ^ width := Nat.div_lt_of_lt_mul (by omega)
    have hb' : b / 10 < 10 ^ width := Nat.div_lt_of_lt_mul (by omega)
    have hlength : (padded width (a / 10)).length = (padded width (b / 10)).length := by
      rw [length_padded hwidth ha', length_padded hwidth hb']
    have hlast : [(a % 10).digitChar] < [(b % 10).digitChar] ↔ a % 10 < b % 10 := by
      rw [List.cons_lt_cons_iff, digitChar_lt_digitChar_iff (by omega) (by omega)]
      simp
    rw [padded_succ hwidth, padded_succ hwidth, append_lt_append_iff hlength, ih ha' hb',
      eq_iff_of_lt_iff (ih ha' hb') (ih hb' ha'), hlast]
    omega

/-- A padded number is compared first, then what follows it. -/
theorem padded_append_lt_iff (hwidth : 0 < width) (ha : a < 10 ^ width) (hb : b < 10 ^ width) :
    padded width a ++ u < padded width b ++ v ↔ a < b ∨ a = b ∧ u < v := by
  have hlength : (padded width a).length = (padded width b).length := by
    rw [length_padded hwidth ha, length_padded hwidth hb]
  have hlt := padded_lt_padded_iff hwidth ha hb
  rw [append_lt_append_iff hlength, hlt,
    eq_iff_of_lt_iff hlt (padded_lt_padded_iff hwidth hb ha)]

end Padded

/-! ## Dates -/

namespace Date
variable {d e : Date}

/-- The date has a year of four digits. -/
structure Short (d : Date) : Prop where
  valid : d.Valid
  year : 0 ≤ d.year ∧ d.year < 10000

theorem chars_eq (h : 0 ≤ d.year) : d.chars =
    padded 4 d.year.toNat ++ '-' :: (padded 2 d.month ++ '-' :: padded 2 d.day) := by
  unfold chars
  rw [← Int.toNat_of_nonneg h]
  rfl

theorem Short.day_lt (h : d.Short) : d.day < 10 ^ 2 := by
  have hday := h.valid.day.2
  have hlength := (monthLength_bounds d.year d.month).2
  omega

theorem Short.month_lt (h : d.Short) : d.month < 10 ^ 2 := by
  have hmonth := h.valid.month.2
  omega

theorem Short.year_lt (h : d.Short) : d.year.toNat < 10 ^ 4 := by
  have hyear := h.year
  omega

theorem Short.length_chars (h : d.Short) : d.chars.length = 10 := by
  rw [chars_eq h.year.1]
  simp only [List.length_append, List.length_cons, length_padded (by decide) h.year_lt,
    length_padded (by decide) h.month_lt, length_padded (by decide) h.day_lt]

theorem Short.chars_lt_chars_iff (hd : d.Short) (he : e.Short) :
    d.chars < e.chars ↔ d.Before e := by
  have hdyear := hd.year
  have heyear := he.year
  rw [chars_eq hd.year.1, chars_eq he.year.1,
    padded_append_lt_iff (by decide) hd.year_lt he.year_lt, List.cons_lt_cons_self,
    padded_append_lt_iff (by decide) hd.month_lt he.month_lt, List.cons_lt_cons_self,
    padded_lt_padded_iff (by decide) hd.day_lt he.day_lt]
  unfold Before
  omega

end Date

namespace Instant
variable {t a b : Instant}

/-- The milliseconds of the day that have passed. -/
def inDayMilliseconds (t : Instant) : Nat :=
  t.inDay * 1000 + t.nanoseconds / 1000000

theorem inDay_lt (t : Instant) : t.inDay < 86400 :=
  Nat.mod_lt _ (by decide)

theorem length_timeChars (t : Instant) : t.timeChars.length = 12 := by
  have hday := t.inDay_lt
  have hnano := t.nanoseconds_lt
  unfold timeChars
  have hhours : t.inDay / 3600 < 10 ^ 2 := by omega
  have hminutes : t.inDay % 3600 / 60 < 10 ^ 2 := by omega
  have hseconds : t.inDay % 60 < 10 ^ 2 := by omega
  have hmillis : t.nanoseconds / 1000000 < 10 ^ 3 := by omega
  simp only [List.length_append, List.length_cons, length_padded (by decide) hhours,
    length_padded (by decide) hminutes, length_padded (by decide) hseconds,
    length_padded (by decide) hmillis]

theorem timeChars_lt_timeChars_iff :
    a.timeChars < b.timeChars ↔ a.inDayMilliseconds < b.inDayMilliseconds := by
  have hday := a.inDay_lt
  have hnano := a.nanoseconds_lt
  have hday' := b.inDay_lt
  have hnano' := b.nanoseconds_lt
  unfold timeChars inDayMilliseconds
  rw [padded_append_lt_iff (by decide) (by omega) (by omega), List.cons_lt_cons_self,
    padded_append_lt_iff (by decide) (by omega) (by omega), List.cons_lt_cons_self,
    padded_append_lt_iff (by decide) (by omega) (by omega), List.cons_lt_cons_self,
    padded_lt_padded_iff (by decide) (by omega) (by omega)]
  omega

/-! ## Instants -/

/-- Dates of instants are in the order of their days. -/
theorem date_before_iff : a.date.Before b.date ↔ a.day < b.day := by
  rw [date_eq, date_eq, dateOfDay_before_iff]
  exact Int.ofNat_lt

/-- No instant is before 1970. -/
theorem short_date (h : t.date.year < 10000) : t.date.Short := by
  obtain ⟨hvalid, hnumber⟩ := dateOfDay_spec t.day
  rw [← date_eq] at hvalid hnumber
  refine ⟨hvalid, ?_, h⟩
  by_contra hyear
  have hfirst : (⟨0, 1, 1⟩ : Date).Valid := ⟨by decide, by decide⟩
  have hlt := hvalid.dayNumber_lt hfirst (Or.inl (not_le.mp hyear))
  have hzero : (⟨0, 1, 1⟩ : Date).dayNumber < 0 := by decide
  omega

theorem length_stamp (h : t.date.Short) : t.stamp.length = 24 := by
  unfold stamp
  rw [String.length_ofList, List.length_append, List.length_cons, List.length_append,
    h.length_chars, length_timeChars, List.length_singleton]

/-- Texts of dates are in the order of the days. -/
theorem dateChars_lt_dateChars_iff (ha : a.date.Short) (hb : b.date.Short) :
    a.date.chars < b.date.chars ↔ a.day < b.day := by
  rw [ha.chars_lt_chars_iff hb, date_before_iff]

theorem stamp_lt_stamp_iff (ha : a.date.Short) (hb : b.date.Short) :
    a.stamp < b.stamp ↔ a.milliseconds < b.milliseconds := by
  have hlength : a.date.chars.length = b.date.chars.length := by
    rw [ha.length_chars, hb.length_chars]
  have htime : a.timeChars.length = b.timeChars.length := by
    rw [length_timeChars, length_timeChars]
  have hday := dateChars_lt_dateChars_iff ha hb
  unfold stamp
  rw [String.lt_iff_toList_lt, String.toList_ofList, String.toList_ofList,
    append_lt_append_iff hlength, hday, eq_iff_of_lt_iff hday (dateChars_lt_dateChars_iff hb ha),
    List.cons_lt_cons_self, append_lt_append_iff htime, timeChars_lt_timeChars_iff]
  simp only [lt_irrefl, and_false, or_false]
  have hnano := a.nanoseconds_lt
  have hnano' := b.nanoseconds_lt
  unfold day inDayMilliseconds inDay milliseconds
  omega

/-- **Time stamps sort like time.**  The time stamps of two instants before the year 10000 have 24
characters each, and are in the order of the whole milliseconds of the instants; so instants with
the same time stamp have the same whole milliseconds. -/
theorem stamps_sort_like_time (ha : a.date.year < 10000) (hb : b.date.year < 10000) :
    a.stamp.length = 24 ∧ b.stamp.length = 24 ∧
      (a.stamp < b.stamp ↔ a.milliseconds < b.milliseconds) ∧
      (a.stamp = b.stamp ↔ a.milliseconds = b.milliseconds) := by
  have ha := short_date ha
  have hb := short_date hb
  have hlt := stamp_lt_stamp_iff ha hb
  exact ⟨length_stamp ha, length_stamp hb, hlt, eq_iff_of_lt_iff hlt (stamp_lt_stamp_iff hb ha)⟩

theorem stamps_sort_like_time_of_leapDay :
    let a := ofMilliseconds 1709251199999
    let b := ofMilliseconds 1709251200000
    (a.date.year < 10000 ∧ b.date.year < 10000) ∧
      a.stamp = "2024-02-29T23:59:59.999Z" ∧ b.stamp = "2024-03-01T00:00:00.000Z" ∧
      a.stamp.length = 24 ∧ a.stamp < b.stamp := by
  intro a b
  have ha : a.date.year < 10000 := by decide +kernel
  have hb : b.date.year < 10000 := by decide +kernel
  obtain ⟨hlength, -, hlt, -⟩ := stamps_sort_like_time ha hb
  have hearlier : a.milliseconds < b.milliseconds := by decide +kernel
  exact ⟨⟨ha, hb⟩, by decide +kernel, by decide +kernel, hlength, hlt.mpr hearlier⟩

end Instant

end Runbook.Calendar
