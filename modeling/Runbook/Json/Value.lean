import Runbook.Table
import Runbook.Decimal.Literal

/-!
# JSON values

The data that plans, tools and logs exchange.  The members of an object keep the order in which
they were written.  An integer that fits a 64-bit word, signed or unsigned, stays an integer; any
other number is a binary64 number (`Json.Number.ofLiteral?`).
-/

namespace Runbook

/-- A JSON number: an integer of at most 64 bits, or a binary64 number. -/
inductive Json.Number
  /-- An integer from `-2 ^ 63` to `2 ^ 64 - 1`. -/
  | integer (value : Int)
  /-- Any other number. -/
  | real (value : Binary64)
deriving DecidableEq

/-- **A JSON value.** -/
inductive Json
  | null
  | boolean (value : Bool)
  | number (value : Json.Number)
  | text (value : String)
  | array (items : List Json)
  | object (members : List (String × Json))

namespace Json

instance : Inhabited Json := ⟨null⟩

/-- The value is `null`. -/
def isNull : Json → Bool
  | null => true
  | _ => false

theorem isNull_eq_false_iff {v : Json} : v.isNull = false ↔ v ≠ null := by
  cases v <;> simp [isNull]

/-- The members of an object. -/
def members? : Json → Option (Table Json)
  | object members => some members
  | _ => none

/-- The integer `n` as a value. -/
def ofInt (n : Int) : Json :=
  number (.integer n)

/-- The natural number `n` as a value. -/
def ofNat (n : Nat) : Json :=
  ofInt n

/-- An optional value, `null` if absent. -/
def ofOption : Option Json → Json
  | none => null
  | some v => v

/-- An optional text, `null` if absent. -/
def ofText? : Option String → Json
  | none => null
  | some s => text s

/-- The integer fits an unsigned or a signed 64-bit word. -/
def Number.fits (n : Int) : Bool :=
  -9223372036854775808 ≤ n && n < 18446744073709551616

mutual

/-- The value with repeated members of its objects merged: the first place, the last value. -/
def merged : Json → Json
  | array items => array (mergedList items)
  | object members => object (Table.ofEntries (mergedMembers members))
  | v => v

/-- `merged` on every item. -/
def mergedList : List Json → List Json
  | [] => []
  | v :: rest => v.merged :: mergedList rest

/-- `merged` on the value of every member. -/
def mergedMembers : List (String × Json) → List (String × Json)
  | [] => []
  | (k, v) :: rest => (k, v.merged) :: mergedMembers rest

end

end Json

end Runbook
