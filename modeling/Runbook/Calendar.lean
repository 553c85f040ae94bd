import Runbook.Calendar.Date

/-!
# Time stamps

A clock gives an instant as seconds and nanoseconds since the start of 1970.  Its time stamp is the
date and the time of day down to the millisecond, each number with zeros before it up to a fixed
width.
-/

namespace Runbook.Calendar

/-- **An instant** since the start of 1970. -/
structure Instant where
  /-- The whole seconds. -/
  seconds : UInt64
  /-- The nanoseconds after the last whole second. -/
  nanoseconds : Nat
  nanoseconds_lt : nanoseconds < 1000000000

/-- The decimal digits of a number, with zeros before them up to a width. -/
def padded (width n : Nat) : List Char :=
  let digits := Nat.toDigits 10 n
  List.replicate (width - digits.length) '0' ++ digits

/-- A number with its sign and zeros between them up to a width. -/
def paddedInt (width : Nat) : Int → List Char
  | .ofNat n => padded width n
  | .negSucc n => '-' :: padded (width - 1) (n + 1)

/-- The text of a date. -/
def Date.chars (d : Date) : List Char :=
  paddedInt 4 d.year ++ '-' :: (padded 2 d.month ++ '-' :: padded 2 d.day)

namespace Instant

/-- The whole milliseconds. -/
def milliseconds (t : Instant) : Nat :=
  t.seconds.toNat * 1000 + t.nanoseconds / 1000000

/-- The instant of a millisecond, the seconds of which fit into 64 bits. -/
def ofMilliseconds (n : Nat) : Instant where
  seconds := UInt64.ofNat (n / 1000)
  nanoseconds := n % 1000 * 1000000
  nanoseconds_lt := by omega

/-- The day, counted from 1970-01-01. -/
def day (t : Instant) : Nat :=
  t.seconds.toNat / 86400

/-- The seconds of the day that have passed. -/
def inDay (t : Instant) : Nat :=
  t.seconds.toNat % 86400

theorem day_lt (t : Instant) : t.day < 213503982334602 := by
  have hlt : t.seconds.toNat < 18446744073709551616 := t.seconds.toNat_lt
  unfold day
  omega

/-- The days of instants are far from where numbers overflow. -/
theorem dateOfDay?_day (t : Instant) : dateOfDay? t.day = some (dateOfDay t.day) := by
  have hlt := t.day_lt
  exact dateOfDay?_eq (by omega)

/-- **The date of an instant.** -/
def date (t : Instant) : Date :=
  (dateOfDay? t.day).get (Option.isSome_of_eq_some t.dateOfDay?_day)

/-- The text of the time of day. -/
def timeChars (t : Instant) : List Char :=
  padded 2 (t.inDay / 3600) ++ ':' :: (padded 2 (t.inDay % 3600 / 60) ++
    ':' :: (padded 2 (t.inDay % 60) ++ '.' :: padded 3 (t.nanoseconds / 1000000)))

/-- **The time stamp of an instant.** -/
def stamp (t : Instant) : String :=
  String.ofList (t.date.chars ++ 'T' :: (t.timeChars ++ ['Z']))

end Instant

/-- **The time stamp of a millisecond** counted from the start of 1970. -/
def stamp (milliseconds : Nat) : String :=
  (Instant.ofMilliseconds milliseconds).stamp

end Runbook.Calendar
