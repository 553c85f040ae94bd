import Runbook.Guard.Lexeme

/-!
# Activation guards as expressions

A guard is a closed expression: literals, lists, comparisons, the subset relation and the
connectives.  It has no names, calls or look-ups, so its value depends on nothing but its text.

The connectives yield the operand that decides them, not a truth value, and look at no operand
after it.
-/

namespace Runbook.Guard

/-- **An expression.** -/
inductive Expression
  | literal (value : Value)
  | list (items : List Expression)
  | negative (operand : Expression)
  | compare (op : Comparison) (left right : Expression)
  | subset (left right : Expression)
  | all (terms : List Expression)
  | any (terms : List Expression)
  | not (operand : Expression)

instance : Inhabited Expression := ⟨.literal .nothing⟩

/-- The value of a comparison. -/
def Comparison.holds (op : Comparison) (left right : Value) : Except TypeError Bool :=
  match op with
  | equal => .ok (left.same right)
  | notEqual => .ok (!left.same right)
  | memberOf => right.contains left
  | notMemberOf => (right.contains left).map (!·)
  | less => (left.order right).map (·.isLT)
  | atMost => (left.order right).map (·.isLE)
  | greater => (left.order right).map (·.isGT)
  | atLeast => (left.order right).map (·.isGE)

/-- The number of the opposite sign. -/
def Value.negated : Value → Except TypeError Value
  | number x => .ok (number x.neg)
  | v => .error (.notNegatable v.kind)

namespace Expression

mutual

/-- **The value of an expression.** -/
def evaluate : Expression → Except TypeError Value
  | literal v => .ok v
  | list items => (evaluateItems items).map .list
  | negative operand => operand.evaluate.bind Value.negated
  | compare op left right => do
    let l ← left.evaluate
    let r ← right.evaluate
    (op.holds l r).map .boolean
  | subset left right => do
    let l ← left.evaluate
    let r ← right.evaluate
    (l.subset r).map .boolean
  | all terms => evaluateAll (.boolean true) terms
  | any terms => evaluateAny (.boolean false) terms
  | not operand => operand.evaluate.map fun v => .boolean (!v.truthy)

/-- The values of the items of a list. -/
def evaluateItems : List Expression → Except TypeError (List Value)
  | [] => .ok []
  | item :: rest => do
    let v ← item.evaluate
    let vs ← evaluateItems rest
    return v :: vs

/-- The first value that does not hold, else the last one. -/
def evaluateAll (last : Value) : List Expression → Except TypeError Value
  | [] => .ok last
  | term :: rest => do
    let v ← term.evaluate
    if v.truthy then evaluateAll v rest else return v

/-- The first value that holds, else the last one. -/
def evaluateAny (last : Value) : List Expression → Except TypeError Value
  | [] => .ok last
  | term :: rest => do
    let v ← term.evaluate
    if v.truthy then return v else evaluateAny v rest

end

end Expression

end Runbook.Guard
