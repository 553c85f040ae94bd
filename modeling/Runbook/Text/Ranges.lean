/-!
# Classes of characters

A class of characters is a table of code point ranges.
-/

namespace Runbook.Text

/-- `n` lies in one of the ranges of `table`, ends included. -/
def inRanges (table : Array (Nat × Nat)) (n : Nat) : Bool :=
  table.any fun r => r.1 ≤ n && n ≤ r.2

end Runbook.Text
