import Runbook.Json.Printer
import Runbook.Json.Token

/-!
# Reading a quoted text undoes quoting it

Each character is escaped on its own, and each escape is read as one piece, which spells the
character again: controls without a short escape as a unit of four digits, all others as a
character.
-/

namespace Runbook.Json

open Token

/-! ## Hexadecimal digits -/

theorem hexValue?_hexDigit : ∀ n < 16, hexValue? (hexDigit n) = some n := by
  decide

theorem hex4?_hexDigit {n : Nat} (h : n < 256) :
    hex4? '0' '0' (hexDigit (n / 16)) (hexDigit (n % 16)) = some n := by
  have h₀ : hexValue? '0' = some 0 := rfl
  have h₁ := hexValue?_hexDigit (n / 16) (by omega)
  have h₂ := hexValue?_hexDigit (n % 16) (by omega)
  unfold hex4?
  rw [h₀, h₁, h₂]
  show some ((_ * 16 + _) * 16 + _) = some n
  congr 1
  omega

/-! ## Pieces -/

/-- The character is written as four hexadecimal digits. -/
def isUnit (c : Char) : Bool :=
  c.toNat < 0x20 && !(c == '\x08' || c == '\x0c' || c == '\n' || c == '\r' || c == '\t')

/-- The piece as which an escaped character is read. -/
def pieceOf (c : Char) : Piece :=
  if isUnit c then .unit c.toNat else .char c

theorem pieces?_unit {n : Nat} (h : n < 256) (tail : List Char) :
    pieces? ('\\' :: 'u' :: '0' :: '0' :: hexDigit (n / 16) :: hexDigit (n % 16) :: tail) =
      (pieces? tail).map fun r => (.unit n :: r.1, r.2) := by
  rw [pieces?, hex4?_hexDigit h]
  rfl

theorem pieces?_char {c : Char} (hquote : c ≠ '"') (hback : c ≠ '\\') (hspace : 0x20 ≤ c.toNat)
    (tail : List Char) :
    pieces? (c :: tail) = (pieces? tail).map fun r => (.char c :: r.1, r.2) := by
  have hguard : (decide (c.toNat < 0x20) || decide (c = '\\')) = false := by
    simpa [hback] using hspace
  rw [pieces?.eq_def]
  split
  · rename_i h
    cases h
  · rename_i h
    exact absurd (List.cons.inj h).1 hquote
  · rename_i h
    exact absurd (List.cons.inj h).1 hback
  · rename_i h
    exact absurd (List.cons.inj h).1 hback
  · rename_i h
    obtain ⟨rfl, rfl⟩ := List.cons.inj h
    rw [hguard]
    rfl

theorem pieces?_escapeChar (c : Char) (tail : List Char) :
    pieces? (escapeChar c ++ tail) = (pieces? tail).map fun r => (pieceOf c :: r.1, r.2) := by
  unfold escapeChar
  split
  · subst c; rfl
  split
  · subst c; rfl
  split
  · subst c; rfl
  split
  · subst c; rfl
  split
  · subst c; rfl
  split
  · subst c; rfl
  split
  · subst c; rfl
  split
  · rename_i hunit
    have hpiece : pieceOf c = .unit c.toNat := by simp_all [pieceOf, isUnit]
    rw [hpiece]
    exact pieces?_unit (by omega) tail
  · rename_i hspace
    have hpiece : pieceOf c = .char c := by simp_all [pieceOf, isUnit]
    rw [hpiece]
    exact pieces?_char ‹_› ‹_› (Nat.le_of_not_lt hspace) tail

theorem pieces?_quoted (s tail : List Char) :
    pieces? (s.flatMap escapeChar ++ '"' :: tail) = some (s.map pieceOf, tail) := by
  induction s with
  | nil => rfl
  | cons c s ih =>
    rw [List.flatMap_cons, List.append_assoc, pieces?_escapeChar, ih]
    rfl

theorem spelled?_unit {n : Nat} (h : n < 0xD800) (rest : List Piece) :
    spelled? (.unit n :: rest) = (spelled? rest).map (Char.ofNat n :: ·) := by
  have hhigh : isHighSurrogate n = false := by simp [isHighSurrogate]; omega
  have hlow : isLowSurrogate n = false := by simp [isLowSurrogate]; omega
  cases rest with
  | nil => simp [spelled?, hhigh, hlow]
  | cons piece rest =>
    cases piece with
    | char c => simp [spelled?, hhigh, hlow]
    | unit m => simp [spelled?, hhigh, hlow]

theorem spelled?_pieces (s : List Char) : spelled? (s.map pieceOf) = some s := by
  induction s with
  | nil => rfl
  | cons c s ih =>
    rw [List.map_cons]
    cases hunit : isUnit c with
    | true =>
      have hpiece : pieceOf c = .unit c.toNat := if_pos hunit
      have hlt : c.toNat < 0x20 := by simp_all [isUnit]
      rw [hpiece, spelled?_unit (by omega), ih, Char.ofNat_toNat]
      rfl
    | false =>
      have hpiece : pieceOf c = .char c := if_neg (by simp [hunit])
      rw [hpiece]
      show (spelled? (s.map pieceOf)).map (c :: ·) = _
      rw [ih]
      rfl

/-- **A quoted text is read as itself**, whatever its characters. -/
theorem next?_quoteChars (s tail : List Char) :
    next? (quoteChars s ++ tail) = some (.text (some (String.ofList s)), tail) := by
  have hpieces := pieces?_quoted s tail
  show (pieces? (s.flatMap escapeChar ++ ['"'] ++ tail)).map _ = _
  rw [List.append_assoc, List.singleton_append, hpieces]
  show some (Token.text ((spelled? (s.map pieceOf)).map String.ofList), tail) = _
  rw [spelled?_pieces]
  rfl

end Runbook.Json
