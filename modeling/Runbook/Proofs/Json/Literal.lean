import Runbook.Json.Printer
import Runbook.Json.Token

/-!
# Numbers as literals

The text of a number is a row of characters that may stand in a number, so the reader takes it whole
as one literal.  An integer is spelled by its digits, without a leading zero, and is read as itself
if it fits 64 bits (`Number.legible_integer`).  Whether a binary64 number is read as itself is a
matter of rounding.
-/

namespace Runbook.Json

open Token

/-! ## One literal -/

/-- The text does not go on with a character that may stand in a number. -/
def Delimited : List Char → Prop
  | [] => True
  | c :: _ => isNumberChar c = false

theorem takeWhile_literal {literal tail : List Char} (h : ∀ c ∈ literal, isNumberChar c = true)
    (ht : Delimited tail) :
    (literal ++ tail).takeWhile isNumberChar = literal ∧
      (literal ++ tail).dropWhile isNumberChar = tail := by
  rw [List.takeWhile_append_of_pos h, List.dropWhile_append_of_pos h]
  cases tail with
  | nil => exact ⟨List.append_nil _, rfl⟩
  | cons c tail =>
    have hc : isNumberChar c = false := ht
    simp [hc]

/-- **A literal is read whole**, and denotes what `number?` says. -/
theorem next?_literal {literal tail : List Char} (hne : literal ≠ [])
    (h : ∀ c ∈ literal, isNumberChar c = true) (ht : Delimited tail) :
    next? (literal ++ tail) =
      if isNumber literal then some (.scalar ((number? literal).map .number), tail) else none := by
  obtain ⟨c, rest, rfl⟩ := List.exists_cons_of_ne_nil hne
  obtain ⟨htake, hdrop⟩ := takeWhile_literal h ht
  have hc := h c List.mem_cons_self
  rw [List.cons_append] at htake hdrop ⊢
  unfold next?
  split
  all_goals first
    | (rename_i heq; obtain ⟨rfl, -⟩ := List.cons.inj heq; cases hc)
    | rw [htake, hdrop]

/-! ## Digits -/

theorem digitsValue_toDigits (n : Nat) : Decimal.digitsValue (Nat.toDigits 10 n) = n :=
  Nat.ofDigitChars_ten_toDigits

theorem isDigit_toDigits {n : Nat} {c : Char} (h : c ∈ Nat.toDigits 10 n) : c.isDigit = true :=
  Nat.isDigit_of_mem_toDigits (by omega) (by omega) h

theorem isNumberChar_of_isDigit {c : Char} (h : c.isDigit = true) : isNumberChar c = true := by
  simp [isNumberChar, h]

theorem takeWhile_toDigits (n : Nat) :
    (Nat.toDigits 10 n).takeWhile Char.isDigit = Nat.toDigits 10 n ∧
      (Nat.toDigits 10 n).dropWhile Char.isDigit = [] := by
  have hdigits : ∀ c ∈ Nat.toDigits 10 n, c.isDigit = true := fun c hc => isDigit_toDigits hc
  have htake := @List.takeWhile_append_of_pos _ _ _ [] hdigits
  have hdrop := @List.dropWhile_append_of_pos _ _ _ [] hdigits
  rw [List.append_nil] at htake hdrop
  exact ⟨htake.trans (List.append_nil _), hdrop⟩

/-- The digits of a number above zero do not begin with a zero. -/
theorem exists_head_toDigits {n : Nat} (h : 0 < n) :
    ∃ c rest, Nat.toDigits 10 n = c :: rest ∧ c ≠ '0' := by
  induction n using Nat.strongRecOn with
  | ind n ih =>
    by_cases hlt : n < 10
    · have hdigit : ∀ k < 10, 0 < k → k.digitChar ≠ '0' := by decide
      exact ⟨n.digitChar, [], Nat.toDigits_of_lt_base hlt, hdigit n hlt h⟩
    · obtain ⟨c, rest, heq, hc⟩ := ih (n / 10) (by omega) (by omega)
      refine ⟨c, rest ++ [(n % 10).digitChar], ?_, hc⟩
      rw [Nat.toDigits_of_base_le (by omega) (by omega), heq]
      rfl

theorem unsigned_toDigits (n : Nat) :
    unsigned (Nat.toDigits 10 n) = (false, Nat.toDigits 10 n) := by
  cases hdigits : Nat.toDigits 10 n with
  | nil => rfl
  | cons c rest =>
    have hc : c ≠ '-' := by
      rintro rfl
      have hminus := isDigit_toDigits (hdigits ▸ List.mem_cons_self : '-' ∈ Nat.toDigits 10 n)
      cases hminus
    unfold unsigned
    split
    · rename_i heq
      exact absurd (List.cons.inj heq).1 hc
    · rfl

theorem parts?_toDigits (n : Nat) :
    Decimal.parts? (Nat.toDigits 10 n) = some (Nat.toDigits 10 n, [], 0) := by
  obtain ⟨htake, hdrop⟩ := takeWhile_toDigits n
  unfold Decimal.parts?
  rw [htake, hdrop]
  simp [Nat.toDigits_ne_nil]

/-- Digits are a number, after a minus sign as well. -/
theorem isNumber_of_unsigned {cs : List Char} {negative : Bool} {n : Nat}
    (h : unsigned cs = (negative, Nat.toDigits 10 n)) : isNumber cs = true := by
  obtain ⟨htake, hdrop⟩ := takeWhile_toDigits n
  unfold isNumber
  rw [h]
  dsimp only
  rw [htake, hdrop, parts?_toDigits]
  rcases Nat.eq_zero_or_pos n with rfl | hpos
  · rfl
  · obtain ⟨c, rest, heq, hc⟩ := exists_head_toDigits hpos
    rw [heq]
    cases rest with
    | nil => rfl
    | cons d rest => simpa using hc

theorem number?_of_unsigned {cs : List Char} {negative : Bool} {n : Nat} {value : Int}
    (h : unsigned cs = (negative, Nat.toDigits 10 n))
    (hvalue : (if negative then -(n : Int) else n) = value) (hfits : Number.fits value = true)
    (hzero : (negative && n == 0) = false) : number? cs = some (.integer value) := by
  have hall : (Nat.toDigits 10 n).all Char.isDigit = true :=
    List.all_eq_true.2 fun c hc => isDigit_toDigits hc
  unfold number?
  rw [h]
  dsimp only
  rw [digitsValue_toDigits, hvalue, hall, hfits, hzero]
  rfl

/-! ## Numbers that are read again -/

/-- **The text of a number is one literal, which denotes it.** -/
structure Number.Legible (n : Number) : Prop where
  isNumberChar_of_mem : ∀ c ∈ n.chars, isNumberChar c = true
  isNumber : isNumber n.chars = true
  number?_eq : number? n.chars = some n

/-- **Integers of 64 bits are read again.** -/
theorem Number.legible_integer {n : Int} (h : Number.fits n = true) :
    (Number.integer n).Legible := by
  show Number.Legible (.integer n)
  by_cases hn : n < 0
  · have hchars : (Number.integer n).chars = '-' :: Nat.toDigits 10 n.natAbs := if_pos hn
    have hunsigned : unsigned (Number.integer n).chars = (true, Nat.toDigits 10 n.natAbs) := by
      rw [hchars]
      rfl
    refine ⟨?_, isNumber_of_unsigned hunsigned, number?_of_unsigned hunsigned ?_ h ?_⟩
    · rw [hchars]
      exact List.forall_mem_cons.2 ⟨rfl, fun c hc => isNumberChar_of_isDigit (isDigit_toDigits hc)⟩
    · rw [if_pos rfl]
      omega
    · have hne : n.natAbs ≠ 0 := by omega
      simpa using hne
  · have hchars : (Number.integer n).chars = Nat.toDigits 10 n.natAbs := if_neg hn
    have hunsigned : unsigned (Number.integer n).chars = (false, Nat.toDigits 10 n.natAbs) := by
      rw [hchars, unsigned_toDigits]
    refine ⟨?_, isNumber_of_unsigned hunsigned, number?_of_unsigned hunsigned ?_ h rfl⟩
    · rw [hchars]
      exact fun c hc => isNumberChar_of_isDigit (isDigit_toDigits hc)
    · rw [if_neg Bool.false_ne_true]
      omega

/-! ## Binary64 numbers -/

theorem isNumberChar_positional {digits : List Char} (h : ∀ c ∈ digits, isNumberChar c = true)
    (point : Int) : ∀ c ∈ realLayout.positional digits point, isNumberChar c = true := by
  have hzeros (k : Nat) : ∀ c ∈ List.replicate k '0', isNumberChar c = true := by
    intro c hc
    rw [List.eq_of_mem_replicate hc]
    rfl
  unfold Decimal.Layout.positional
  split
  · simp only [List.forall_mem_append, List.forall_mem_cons]
    exact ⟨⟨⟨rfl, rfl, nofun⟩, hzeros _⟩, h⟩
  · split
    · simp only [List.forall_mem_append]
      exact ⟨⟨h, hzeros _⟩, List.all_eq_true.1 rfl⟩
    · simp only [List.forall_mem_append, List.forall_mem_cons]
      exact ⟨fun c hc => h c (List.mem_of_mem_take hc), rfl,
        fun c hc => h c (List.mem_of_mem_drop hc)⟩

theorem isNumberChar_scientific {digits : List Char} (h : ∀ c ∈ digits, isNumberChar c = true)
    (exponent : Int) : ∀ c ∈ realLayout.scientific digits exponent, isNumberChar c = true := by
  have hexponent : ∀ c ∈ Nat.toDigits 10 exponent.natAbs, isNumberChar c = true :=
    fun c hc => isNumberChar_of_isDigit (isDigit_toDigits hc)
  unfold Decimal.Layout.scientific
  simp only [List.forall_mem_append, List.forall_mem_cons]
  refine ⟨⟨?_, rfl, ?_⟩, hexponent⟩
  · match digits, h with
    | [], _ => exact List.forall_mem_singleton.2 rfl
    | [d], h => exact h
    | d :: d' :: rest, h =>
      obtain ⟨hd, hrest⟩ := List.forall_mem_cons.1 h
      exact List.forall_mem_cons.2 ⟨hd, List.forall_mem_cons.2 ⟨rfl, hrest⟩⟩
  · split
    · exact List.all_eq_true.1 rfl
    · exact List.all_eq_true.1 rfl

theorem isNumberChar_magnitude {bits : Nat} (h : bits ≠ Binary64.infinityBits) :
    ∀ c ∈ realLayout.magnitude bits, isNumberChar c = true := by
  unfold Decimal.Layout.magnitude
  split
  · exact List.all_eq_true.1 rfl
  · have hdigits : ∀ c ∈ Nat.toDigits 10 (Decimal.shortest realLayout.tie bits).digits,
        isNumberChar c = true :=
      fun c hc => isNumberChar_of_isDigit (isDigit_toDigits hc)
    dsimp only
    split
    · exact isNumberChar_positional hdigits _
    · exact isNumberChar_scientific hdigits _

/-- **The text of a finite number** is made of characters that may stand in a number. -/
theorem isNumberChar_real {x : Binary64} (h : x.isInfinite = false) :
    ∀ c ∈ (Number.real x).chars, isNumberChar c = true := by
  have hbits : x.bits ≠ Binary64.infinityBits := by simpa [Binary64.isInfinite] using h
  have hchars : (Number.real x).chars = realLayout.chars x := if_neg (by simp [h])
  rw [hchars]
  unfold Decimal.Layout.chars
  split
  · exact List.forall_mem_cons.2 ⟨rfl, isNumberChar_magnitude hbits⟩
  · exact isNumberChar_magnitude hbits

end Runbook.Json
