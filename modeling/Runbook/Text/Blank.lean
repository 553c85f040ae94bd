/-!
# Blank characters

The Unicode property White_Space, and cutting blank characters off the ends of a text.  Every
place that calls a text blank, or trims it, uses this one class.
-/

namespace Runbook.Text

/-- `c` has the Unicode property White_Space. -/
def isBlank (c : Char) : Bool :=
  let n := c.toNat
  (0x09 ≤ n && n ≤ 0x0D) || n == 0x20 || n == 0x85 || n == 0xA0 || n == 0x1680 ||
  (0x2000 ≤ n && n ≤ 0x200A) || n == 0x2028 || n == 0x2029 || n == 0x202F || n == 0x205F ||
  n == 0x3000

/-- `s` without the characters at its end that satisfy `p`. -/
def dropEndWhile (p : Char → Bool) (s : List Char) : List Char :=
  (s.reverse.dropWhile p).reverse

/-- `s` without the characters at both ends that satisfy `p`. -/
def trimWhile (p : Char → Bool) (s : List Char) : List Char :=
  dropEndWhile p (s.dropWhile p)

/-- `s` without the blank characters at both ends. -/
def trim (s : List Char) : List Char :=
  trimWhile isBlank s

/-- All characters of `s` are blank; the empty text is blank. -/
def isBlankText (s : String) : Bool :=
  s.toList.all isBlank

theorem isBlankText_eq_false_iff {s : String} :
    isBlankText s = false ↔ ∃ c ∈ s.toList, isBlank c = false := by
  unfold isBlankText
  simp

end Runbook.Text
