import Runbook.Yaml.Node
import Runbook.Json.Value

/-!
# The core schema

What the scalars of a document mean.  A plain scalar without a tag is nothing, a truth value, an
integer, a number or a text, whichever its spelling fits first; a quoted one is a text.  The core
tags ask for one of these types, whatever the quotes; a node with a tag of another origin has no
value, and any other tag leaves a text.

An integer that needs more than 64 bits but not more than 128 has no place among the values and is
refused; a wider decimal one becomes a number.
-/

namespace Runbook.Yaml

/-- The spellings of nothing, but for the empty one. -/
def isNullWord (s : String) : Bool :=
  s == "null" || s == "Null" || s == "NULL" || s == "~"

/-- The truth value of a word. -/
def boolean? (s : String) : Option Bool :=
  if s == "true" || s == "True" || s == "TRUE" then some true
  else if s == "false" || s == "False" || s == "FALSE" then some false
  else none

/-- The value of a digit below `radix`. -/
def radixDigit? (radix : Nat) (c : Char) : Option Nat :=
  (Json.Token.hexValue? c).bind fun n => if n < radix then some n else none

/-- The number that digits of a radix spell, of which there is at least one. -/
def radixNumber? (radix : Nat) (cs : List Char) : Option Nat :=
  if cs.isEmpty then none
  else cs.foldlM (fun n c => (radixDigit? radix c).map (n * radix + ·)) 0

/-- The number after a radix mark. -/
def marked? (cs : List Char) : Option Nat :=
  match cs with
  | '0' :: 'x' :: rest => radixNumber? 16 rest
  | '0' :: 'o' :: rest => radixNumber? 8 rest
  | '0' :: 'b' :: rest => radixNumber? 2 rest
  | _ => none

/-- The text without one sign at its start. -/
def withoutSign (cs : List Char) : List Char :=
  match cs with
  | '+' :: rest => rest
  | '-' :: rest => rest
  | rest => rest

/-- Digits alone that start with a zero, after a sign, are a text unless they are a lone zero. -/
def isPadded (cs : List Char) : Bool :=
  match withoutSign cs with
  | '0' :: d :: rest => (d :: rest).all Char.isDigit
  | _ => false

/-- The decimal number of a text. -/
def decimal? (cs digits : List Char) : Option Nat :=
  if isPadded cs then none else radixNumber? 10 digits

/-- **The integer of a text**: decimal without leading zeros, or after a radix mark, with an
optional sign. -/
def integer? (cs : List Char) : Option Int :=
  match cs with
  | '-' :: rest => ((marked? rest).or (decimal? cs rest)).map fun n => -(n : Int)
  | '+' :: rest => ((marked? rest).or (decimal? cs rest)).map fun n => (n : Int)
  | _ => ((marked? cs).or (decimal? cs cs)).map fun n => (n : Int)

/-- A binary64 number as it is written, or a word for one that is not finite. -/
inductive Real
  | finite (value : Binary64)
  | notFinite

/-- **The number of a text.** -/
def real? (s : String) : Option Real :=
  if [".inf", ".Inf", ".INF", "+.inf", "+.Inf", "+.INF", "-.inf", "-.Inf", "-.INF",
      ".nan", ".NaN", ".NAN"].contains s then some .notFinite
  else
    let cs := s.toList
    let (negative, digits) := match cs with
      | '-' :: rest => (true, rest)
      | '+' :: rest => (false, rest)
      | rest => (false, rest)
    (Decimal.read? negative digits).bind fun x =>
      if x.isInfinite then none else some (.finite x)

/-- The value of a number; one that is not finite is nothing. -/
def Real.toJson : Real → Json
  | finite x => .number (.real x)
  | notFinite => .null

/-- What an integer is as a value. -/
inductive IntegerValue
  /-- It fits 64 bits. -/
  | value (n : Int)
  /-- It fits 128 bits, but not 64. -/
  | refused
  /-- It needs more than 128 bits. -/
  | tooWide

/-- The value of an integer. -/
def IntegerValue.ofInt (n : Int) : IntegerValue :=
  if Json.Number.fits n then value n
  else if -(Nat.pow 2 127 : Int) ≤ n && n < Nat.pow 2 128 then refused
  else tooWide

/-- The value of a plain scalar without a tag, `none` if it is refused. -/
def plainValue? (s : String) : Option Json :=
  let number : Option Json :=
    if isPadded s.toList then some (.text s)
    else some (((real? s).map Real.toJson).getD (.text s))
  if s.isEmpty || isNullWord s then some .null
  else
    match boolean? s with
    | some b => some (.boolean b)
    | none =>
      match (integer? s.toList).map IntegerValue.ofInt with
      | some (.value n) => some (.ofInt n)
      | some .refused => none
      | some .tooWide => number
      | none => number

/-- The value of a scalar that no tag gives a type. -/
def untaggedValue? (s : String) (style : Style) : Option Json :=
  if style = .plain then plainValue? s else some (.text s)

/-- **The value of a scalar**, `none` if it does not fit its tag. -/
def scalarValue? (tag : Option Tag) (s : String) (style : Style) : Option Json :=
  match tag with
  | none => untaggedValue? s style
  | some .garbled => untaggedValue? s style
  | some .nothing => if isNullWord s then some .null else none
  | some .boolean => (boolean? s).map .boolean
  | some .integer =>
    match (integer? s.toList).map IntegerValue.ofInt with
    | some (.value n) => some (.ofInt n)
    | _ => none
  | some .real => (real? s).map Real.toJson
  | some .foreign => none
  | some .other => some (.text s)

namespace Node

/-- The text of a scalar, as it is written. -/
def scalarText? : Node → Option String
  | .scalar _ text _ => some text
  | _ => none

mutual

/-- **The value of a node** without aliases.  The names of members are scalars as they are written;
of a repeated name the last value counts. -/
def value? : Node → Option Json
  | .scalar tag text style => scalarValue? tag text style
  | .sequence tag items => if tag = some .foreign then none else (itemValues? items).map .array
  | .mapping tag entries =>
    if tag = some .foreign then none
    else (memberValues? entries).map fun ms => .object (Table.ofEntries ms)
  | .alias _ => none

/-- The values of the items of a sequence. -/
def itemValues? : List Node → Option (List Json)
  | [] => some []
  | n :: rest =>
    match n.value?, itemValues? rest with
    | some v, some vs => some (v :: vs)
    | _, _ => none

/-- The members that the entries of a mapping give. -/
def memberValues? : List (Node × Node) → Option (List (String × Json))
  | [] => some []
  | (k, n) :: rest =>
    match k.scalarText?, n.value?, memberValues? rest with
    | some name, some v, some ms => some ((name, v) :: ms)
    | _, _, _ => none

end

end Node

/-- **The value of a text**; a text without content is nothing. -/
def read? (s : String) : Option Json := do
  let document ← Node.Document.ofText? s.toList
  match ← document.expanded? with
  | none => return .null
  | some root => root.value?

end Runbook.Yaml
