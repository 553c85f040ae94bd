import Runbook.Decimal.Layout

/-!
# Values of activation guards

What the operands of a guard denote: nothing, a truth value, a number, a text or a list.  A truth
value counts as the number one or zero wherever numbers are compared, so equality and order treat
both alike (`Value.same`, `Value.order`).

Equality compares any two values; order compares numbers, texts and lists, the latter at their
first difference; membership looks into lists and into texts.  What cannot be compared is a
`TypeError`.
-/

namespace Runbook.Guard

/-- **A value of a guard.** -/
inductive Value
  | nothing
  | boolean (value : Bool)
  | number (value : Binary64)
  | text (value : String)
  | list (items : List Value)

/-- The kind of a value, as messages name it. -/
inductive Kind
  | nothing
  | boolean
  | number
  | text
  | list
deriving DecidableEq

/-- The name of a kind in a message. -/
def Kind.name : Kind → String
  | nothing => "None"
  | boolean => "bool"
  | number => "number"
  | text => "str"
  | list => "list"

/-- **Why values cannot be combined.** -/
inductive TypeError
  /-- Only a number can be negated. -/
  | notNegatable (operand : Kind)
  /-- Values of these kinds have no order. -/
  | notOrdered (left right : Kind)
  /-- Nothing can be a member of a value of this kind. -/
  | notContainer (container : Kind)
  /-- A value of this kind has no members to be contained. -/
  | notSubset (left : Kind)
deriving DecidableEq

/-- The message of a type error. -/
def TypeError.message : TypeError → String
  | notNegatable k => s!"type error: bad operand type for unary -: '{k.name}'"
  | notOrdered l r => s!"type error: '<' not supported between '{l.name}' and '{r.name}'"
  | notContainer k => s!"type error: argument of type '{k.name}' is not iterable"
  | notSubset k => s!"type error: '{k.name}' has no subset relation"

/-- Numbers in the text of a value: always positional, whole numbers without a point. -/
def numberLayout : Decimal.Layout where
  least := none
  greatest := none
  keepPoint := false
  plusSign := false
  tie := .up

namespace Value

instance : Inhabited Value := ⟨nothing⟩

/-- The kind of a value. -/
def kind : Value → Kind
  | nothing => .nothing
  | boolean _ => .boolean
  | number _ => .number
  | text _ => .text
  | list _ => .list

/-- A guard holds when its value is neither empty nor zero nor false. -/
def truthy : Value → Bool
  | nothing => false
  | boolean b => b
  | number x => !x.isZero
  | text s => !s.isEmpty
  | list items => !items.isEmpty

/-- The number that a value counts as. -/
def number? : Value → Option Binary64
  | number x => some x
  | boolean true => some .one
  | boolean false => some .zero
  | _ => none

mutual

/-- **Equality of values**: numbers and truth values by value, lists item by item. -/
def same : Value → Value → Bool
  | list xs, list ys => sameItems xs ys
  | nothing, nothing => true
  | text s, text t => s == t
  | x, y => match x.number?, y.number? with
    | some a, some b => a.same b
    | _, _ => false

/-- Two lists are equal item by item. -/
def sameItems : List Value → List Value → Bool
  | [], [] => true
  | x :: xs, y :: ys => same x y && sameItems xs ys
  | _, _ => false

end

/-- The order of texts, by code point. -/
def orderChars : List Char → List Char → Ordering
  | [], [] => .eq
  | [], _ :: _ => .lt
  | _ :: _, [] => .gt
  | a :: s, b :: t => (compare a.toNat b.toNat).then (orderChars s t)

mutual

/-- **The order of values.**  Numbers go by value, texts by code point, lists by the first pair of
items that differ and then by length; no other pairs have an order. -/
def order : Value → Value → Except TypeError Ordering
  | text s, text t => .ok (orderChars s.toList t.toList)
  | list xs, list ys => orderItems xs ys
  | x, y => match x.number?, y.number? with
    | some a, some b => .ok (a.order b)
    | _, _ => .error (.notOrdered x.kind y.kind)

/-- The order of two lists. -/
def orderItems : List Value → List Value → Except TypeError Ordering
  | [], [] => .ok .eq
  | [], _ :: _ => .ok .lt
  | _ :: _, [] => .ok .gt
  | x :: xs, y :: ys => if same x y then orderItems xs ys else order x y

end

/-- `needle` occurs in a text. -/
def occursIn (needle : List Char) : List Char → Bool
  | [] => needle.isEmpty
  | c :: rest => needle.isPrefixOf (c :: rest) || occursIn needle rest

/-- **Membership**: an item of a list, or a part of a text. -/
def contains (container item : Value) : Except TypeError Bool :=
  match container, item with
  | list items, _ => .ok (items.any (·.same item))
  | text hay, text needle => .ok (occursIn needle.toList hay.toList)
  | _, _ => .error (.notContainer container.kind)

/-- Every item is a member of `container`, as far as the first that is not. -/
def containsAll (container : Value) : List Value → Except TypeError Bool
  | [] => .ok true
  | item :: rest => do
    if ← contains container item then containsAll container rest else return false

/-- **The subset relation** between a list and a container. -/
def subset (left right : Value) : Except TypeError Bool :=
  match left with
  | list items => containsAll right items
  | _ => .error (.notSubset left.kind)

mutual

/-- The text of a value, as characters. -/
def chars : Value → List Char
  | nothing => ['N', 'o', 'n', 'e']
  | boolean true => ['T', 'r', 'u', 'e']
  | boolean false => ['F', 'a', 'l', 's', 'e']
  | number x => numberLayout.chars x
  | text s => '\'' :: s.toList ++ ['\'']
  | list [] => ['[', ']']
  | list (v :: rest) => '[' :: v.chars ++ itemsChars rest ++ [']']

/-- The items after the first, each after a comma and a space. -/
def itemsChars : List Value → List Char
  | [] => []
  | v :: rest => ',' :: ' ' :: v.chars ++ itemsChars rest

end

/-- The text of a value. -/
def display (v : Value) : String :=
  String.ofList v.chars

end Value

end Runbook.Guard
