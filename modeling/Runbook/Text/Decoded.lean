/-!
# Text from bytes

Reads bytes as UTF-8 and never fails: the longest start of a character that is not completed, and
every byte that starts none, becomes one replacement character.
-/

namespace Runbook.Text.Decoded

/-- A character that is being read. -/
structure Partial where
  /-- How many bytes are missing. -/
  missing : Nat
  /-- The least next byte. -/
  least : Nat
  /-- The greatest next byte. -/
  greatest : Nat
  /-- The bits read so far. -/
  bits : Nat

/-- The characters read so far, the last one first, and the one that is being read. -/
structure Reading where
  chars : List Char
  open_ : Option Partial

/-- What stands for bytes that are no character. -/
def replacement : Char := '\uFFFD'

/-- Reads the first byte of a character. -/
def lead (chars : List Char) (b : Nat) : Reading :=
  if b < 0x80 then ⟨Char.ofNat b :: chars, none⟩
  else if 0xC2 ≤ b && b ≤ 0xDF then ⟨chars, some ⟨1, 0x80, 0xBF, b - 0xC0⟩⟩
  else if b = 0xE0 then ⟨chars, some ⟨2, 0xA0, 0xBF, 0⟩⟩
  else if b = 0xED then ⟨chars, some ⟨2, 0x80, 0x9F, 0xD⟩⟩
  else if 0xE1 ≤ b && b ≤ 0xEF then ⟨chars, some ⟨2, 0x80, 0xBF, b - 0xE0⟩⟩
  else if b = 0xF0 then ⟨chars, some ⟨3, 0x90, 0xBF, 0⟩⟩
  else if 0xF1 ≤ b && b ≤ 0xF3 then ⟨chars, some ⟨3, 0x80, 0xBF, b - 0xF0⟩⟩
  else if b = 0xF4 then ⟨chars, some ⟨3, 0x80, 0x8F, 4⟩⟩
  else ⟨replacement :: chars, none⟩

/-- Reads a byte. -/
def step (r : Reading) (byte : UInt8) : Reading :=
  let b := byte.toNat
  match r.open_ with
  | none => lead r.chars b
  | some p =>
    if p.least ≤ b && b ≤ p.greatest then
      let bits := p.bits * 64 + (b - 0x80)
      if p.missing = 1 then ⟨Char.ofNat bits :: r.chars, none⟩
      else ⟨r.chars, some ⟨p.missing - 1, 0x80, 0xBF, bits⟩⟩
    else lead (replacement :: r.chars) b

/-- **The text of bytes.** -/
def ofBytes (bytes : List UInt8) : String :=
  let r := bytes.foldl step ⟨[], none⟩
  let chars := if r.open_.isSome then replacement :: r.chars else r.chars
  String.ofList chars.reverse

end Runbook.Text.Decoded
