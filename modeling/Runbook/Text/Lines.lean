/-!
# Lines

A line feed ends a line, and a carriage return right before it belongs to the line end.  The last
line needs no line feed; a text that ends in one has no further line after it.
-/

namespace Runbook.Text

/-- Puts a character before the first line. -/
def consLine {α : Type} (c : α) : List (List α) → List (List α)
  | [] => [[c]]
  | l :: ls => (c :: l) :: ls

/-- **The lines of a text**, without their ends. -/
def lines : List Char → List (List Char)
  | [] => []
  | '\n' :: rest => [] :: lines rest
  | '\r' :: '\n' :: rest => [] :: lines rest
  | c :: rest => consLine c (lines rest)

/-- The lines with a line feed between each two. -/
def joinLines (ls : List (List Char)) : List Char :=
  ['\n'].intercalate ls

end Runbook.Text
