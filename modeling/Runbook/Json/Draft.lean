import Runbook.Json.Value

/-!
# JSON values as they are written

Where a record is read, only the fields it knows have to make sense; of the others it is enough
that they are written well.  A draft is a value of which parts may mean nothing: half of a
surrogate pair in a text or a name, a number that is too large, arrays and objects nested too deep.
It is a value if no part of it is such (`Draft.value?`).
-/

namespace Runbook.Json

/-- **A value as it is written.** -/
inductive Draft
  /-- A word, a number or a text, `none` where nothing is meant. -/
  | leaf (value : Option Json)
  | array (items : List Draft)
  /-- An object, whose names may mean nothing either. -/
  | object (members : List (Option String × Draft))

namespace Draft

/-- What means nothing. -/
def meaningless : Draft := .leaf none

instance : Inhabited Draft := ⟨meaningless⟩

mutual

/-- **The value that is meant**, `none` if a part of it means nothing. -/
def value? : Draft → Option Json
  | leaf v => v
  | array items => (itemValues? items).map .array
  | object members => (memberValues? members).map .object

/-- The values of the items of an array. -/
def itemValues? : List Draft → Option (List Json)
  | [] => some []
  | d :: rest =>
    match d.value?, itemValues? rest with
    | some v, some vs => some (v :: vs)
    | _, _ => none

/-- The members of an object, each with its value. -/
def memberValues? : List (Option String × Draft) → Option (List (String × Json))
  | [] => some []
  | (name, d) :: rest =>
    match name, d.value?, memberValues? rest with
    | some name, some v, some ms => some ((name, v) :: ms)
    | _, _, _ => none

end

end Draft

end Runbook.Json
