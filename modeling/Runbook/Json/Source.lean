import Runbook.Source
import Runbook.Json.Reader

/-!
# Records in JSON

What a JSON value is when a record is read from it.  Records are read from drafts, so that only
their own fields have to mean something; events are read from values, and have to make sense as a
whole.
-/

namespace Runbook.Json

/-- The text of a text. -/
def text? : Json → Option String
  | text s => some s
  | _ => none

/-- The truth value of a truth value. -/
def flag? : Json → Option Bool
  | boolean b => some b
  | _ => none

/-- The natural number of an integer that is not negative. -/
def natural? : Json → Option Nat
  | number (.integer n) => if 0 ≤ n then some n.toNat else none
  | _ => none

/-- The binary64 number of a number; an integer is rounded. -/
def real? : Json → Option Binary64
  | number (.integer n) => some (Binary64.ofDecimal (n < 0) n.natAbs 0)
  | number (.real x) => some x
  | _ => none

/-- The value, which may be `null`. -/
def optional? : Json → Option (Option Json)
  | null => some none
  | v => some (some v)

/-- The items of an array. -/
def items? : Json → Option (List Json)
  | array items => some items
  | _ => none

instance : Source Json Option where
  text := text?
  flag := flag?
  natural := natural?
  optional := optional?
  members := members?
  inOrder? := items?

/-- What a text in JSON spells, read by `read`. -/
def decode? {α : Type} (read : Json → Option α) (s : String) : Option α :=
  (document? s.toList).bind read

namespace Draft

/-- A value without parts. -/
def leaf? : Draft → Option Json
  | leaf v => v
  | _ => none

/-- The draft, which may be `null`. -/
def optional? : Draft → Option (Option Draft)
  | leaf (some .null) => some none
  | d => some (some d)

/-- The items of an array. -/
def items? : Draft → Option (List Draft)
  | array items => some items
  | _ => none

/-- The members of an object, whose names all mean something. -/
def members? : Draft → Option (List (String × Draft))
  | object members => members.mapM fun (name, d) => name.map fun name => (name, d)
  | _ => none

instance : Source Draft Option where
  text d := d.leaf?.bind text?
  flag d := d.leaf?.bind flag?
  natural d := d.leaf?.bind natural?
  optional := optional?
  members := members?
  inOrder? := items?

/-- Any value, with repeated members merged. -/
def any? (d : Draft) : Option Json :=
  d.value?.map merged

/-- A list of values. -/
def list? {α : Type} (read : Draft → Option α) (d : Draft) : Option (List α) :=
  d.items?.bind fun items => items.mapM read

/-- What a text in JSON spells, of which `read` reads what it wants. -/
def decode? {α : Type} (read : Draft → Option α) (s : String) : Option α :=
  (ofText? s.toList).bind read

end Draft

end Runbook.Json
