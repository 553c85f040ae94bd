import Runbook.Guard.Expression

/-!
# Reading activation guards

The grammar has one level per strength of binding: alternatives (`or`), conjunctions (`and`),
negations (`not`), chains of comparisons, and signed primaries.  Every level consumes at least one
token when it succeeds, and says so in its result (`Parsed.shorter`).

A negation, a minus sign and a bracket enclose what follows one level deeper, and at most
`maxNesting` of them may enclose each other.  The levels are therefore built from the levels of the
next depth (`levels`), by recursion on the depth that is left.
-/

namespace Runbook.Guard

/-- The most negations, minus signs and brackets that may enclose each other. -/
def maxNesting : Nat := 64

/-- **What a reader found** at the start of fewer than `bound` lexemes, and what is left. -/
structure Parsed (α : Type) (bound : Nat) where
  /-- What was read. -/
  value : α
  /-- The lexemes after it. -/
  rest : List Lexeme
  /-- Something was consumed. -/
  shorter : rest.length < bound

/-- A reader that consumes at least one lexeme. -/
abbrev Reader (α : Type) := (input : List Lexeme) → Except SyntaxError (Parsed α input.length)

/-- The same finding with another value. -/
def Parsed.map {α β : Type} {bound : Nat} (f : α → β) (p : Parsed α bound) : Parsed β bound :=
  ⟨f p.value, p.rest, p.shorter⟩

/-- The same finding under a larger bound. -/
def Parsed.widen {α : Type} {small large : Nat} (h : small ≤ large) (p : Parsed α small) :
    Parsed α large :=
  ⟨p.value, p.rest, Nat.lt_of_lt_of_le p.shorter h⟩

/-- A single term stands for itself, several are joined. -/
def join (connective : List Expression → Expression) : List Expression → Expression
  | [only] => only
  | terms => connective terms

/-- One `term` and further ones, each after a token that `isLink` accepts. -/
def terms (isLink : Token → Bool) (term : Reader Expression) (input : List Lexeme) :
    Except SyntaxError (Parsed (List Expression) input.length) :=
  match term input with
  | .error e => .error e
  | .ok first =>
    match h : first.rest with
    | [] => .ok (first.map ([·]))
    | l :: rest =>
      have shorter : rest.length < input.length := by
        have := first.shorter
        simp only [h, List.length_cons] at this
        omega
      if isLink l.token then
        match terms isLink term rest with
        | .error e => .error e
        | .ok more => .ok ((more.map (first.value :: ·)).widen (Nat.le_of_lt shorter))
      else .ok (first.map ([·]))
termination_by input.length

/-- An operator between two links of a chain. -/
inductive Link
  | comparison (op : Comparison)
  | subset

/-- The expression that a link makes of its operands. -/
def Link.build (link : Link) (left right : Expression) : Expression :=
  match link with
  | comparison op => .compare op left right
  | subset => .subset left right

/-- The operator at the start of the input, if one stands there, and what follows it. -/
def Link.next? : (input : List Lexeme) → Option (Parsed Link input.length)
  | ⟨_, .comparison op⟩ :: rest => some ⟨.comparison op, rest, Nat.lt_succ_self _⟩
  | ⟨_, .word "in"⟩ :: rest => some ⟨.comparison .memberOf, rest, Nat.lt_succ_self _⟩
  | ⟨_, .word "属于"⟩ :: rest => some ⟨.subset, rest, Nat.lt_succ_self _⟩
  | ⟨_, .word "not"⟩ :: ⟨_, .word "in"⟩ :: rest =>
    some ⟨.comparison .notMemberOf, rest, Nat.lt_succ_of_lt (Nat.lt_succ_self _)⟩
  | _ => none

/-- The links of a chain after its first operand `left`.  They may be none, so the rest is only
bounded by the input. -/
def links (operand : Reader Expression) (left : Expression) (input : List Lexeme) :
    Except SyntaxError (Parsed (List Expression) (input.length + 1)) :=
  match Link.next? input with
  | none => .ok ⟨[], input, Nat.lt_succ_self _⟩
  | some link =>
    match operand link.rest with
    | .error e => .error e
    | .ok right =>
      match links operand right.value right.rest with
      | .error e => .error e
      | .ok more => .ok ⟨link.value.build left right.value :: more.value, more.rest,
          Nat.lt_of_lt_of_le more.shorter
            (Nat.succ_le_succ (Nat.le_of_lt (Nat.lt_trans right.shorter link.shorter)))⟩
termination_by input.length
decreasing_by exact Nat.lt_trans right.shorter link.shorter

/-- A chain of comparisons means the conjunction of its links; an operand alone stands for
itself. -/
def chain (operand : Reader Expression) : Reader Expression := fun input =>
  match operand input with
  | .error e => .error e
  | .ok first =>
    match links operand first.value first.rest with
    | .error e => .error e
    | .ok more =>
      let value := if more.value.isEmpty then first.value else join .all more.value
      .ok ⟨value, more.rest, Nat.lt_of_lt_of_le more.shorter first.shorter⟩

/-- What stands between brackets: the items, and whether a comma follows the last of them. -/
structure Sequence where
  /-- The items in order. -/
  items : List Expression
  /-- A comma stands before the closing bracket. -/
  trailingComma : Bool

/-- The items up to the bracket `close`, which is consumed. -/
def sequence (stop : Nat) (item : Reader Expression) (close : Token) (afterComma : Bool)
    (input : List Lexeme) : Except SyntaxError (Parsed Sequence (input.length + 1)) :=
  match input with
  | [] => (item []).map fun p => absurd p.shorter (Nat.not_lt_zero _)
  | l :: rest =>
    if l.token = close then
      .ok ⟨⟨[], afterComma⟩, rest, Nat.lt_succ_of_lt (Nat.lt_succ_self _)⟩
    else
      match item (l :: rest) with
      | .error e => .error e
      | .ok first =>
        match h : first.rest with
        | [] => .error ⟨stop, .expected close none⟩
        | l' :: tail =>
          have shorter : tail.length < (l :: rest).length := by
            have := first.shorter
            simp only [h, List.length_cons] at this ⊢
            omega
          if l'.token = .comma then
            match sequence stop item close true tail with
            | .error e => .error e
            | .ok more =>
              .ok ((more.map fun s => ⟨first.value :: s.items, s.trailingComma⟩).widen
                (Nat.succ_le_succ (Nat.le_of_lt shorter)))
          else if l'.token = close then
            .ok ⟨⟨[first.value], false⟩, tail, Nat.lt_succ_of_lt shorter⟩
          else .error ⟨l'.offset, .expected close (some l'.token)⟩
termination_by input.length
decreasing_by exact shorter

/-- **The readers of one nesting depth** that deeper readers are made of. -/
structure Levels where
  /-- Alternatives, the loosest level. -/
  alternatives : Reader Expression
  /-- A negation, or a chain of comparisons. -/
  negation : Reader Expression
  /-- A primary, or a minus sign before one. -/
  signed : Reader Expression

/-- The literal that a word denotes. -/
def literalWord? : String → Option Value
  | "True" => some (.boolean true)
  | "true" => some (.boolean true)
  | "False" => some (.boolean false)
  | "false" => some (.boolean false)
  | "None" => some .nothing
  | "null" => some .nothing
  | _ => none

/-- The reader of something nested at `offset`, unless nothing may be nested there. -/
def nested (deeper : Option Levels) (offset : Nat) (reader : Levels → Reader Expression) :
    Reader Expression := fun input =>
  match deeper with
  | none => .error ⟨offset, .nestedTooDeep maxNesting⟩
  | some inner => reader inner input

/-- A bracket that was opened at `offset` and ends in `close`. -/
def bracketed (stop : Nat) (deeper : Option Levels) (offset : Nat) (close : Token)
    (input : List Lexeme) : Except SyntaxError (Parsed Sequence (input.length + 1)) :=
  match deeper with
  | none => .error ⟨offset, .nestedTooDeep maxNesting⟩
  | some inner => sequence stop inner.alternatives close false input

/-- The expression in parentheses: a single item without a comma is just grouped. -/
def Sequence.grouped (s : Sequence) : Expression :=
  match s.items with
  | [only] => if s.trailingComma then .list s.items else only
  | items => .list items

/-- A literal, or something in brackets. -/
def primary (stop : Nat) (deeper : Option Levels) : Reader Expression
  | [] => .error ⟨stop, .unexpectedEnd⟩
  | ⟨offset, token⟩ :: rest =>
    match token with
    | .number x => .ok ⟨.literal (.number x), rest, Nat.lt_succ_self _⟩
    | .text s => .ok ⟨.literal (.text s), rest, Nat.lt_succ_self _⟩
    | .word w =>
      match literalWord? w with
      | some v => .ok ⟨.literal v, rest, Nat.lt_succ_self _⟩
      | none => .error ⟨offset, .unknownName w⟩
    | .openParen => (bracketed stop deeper offset .closeParen rest).map (·.map Sequence.grouped)
    | .openBracket =>
      (bracketed stop deeper offset .closeBracket rest).map (·.map fun s => .list s.items)
    | .openBrace =>
      (bracketed stop deeper offset .closeBrace rest).map (·.map fun s => .list s.items)
    | token => .error ⟨offset, .unexpectedToken token⟩

/-- A minus sign is folded into a number literal. -/
def negate : Expression → Expression
  | .literal (.number x) => .literal (.number x.neg)
  | e => .negative e

/-- A primary, or a minus sign before a signed primary. -/
def signed (stop : Nat) (deeper : Option Levels) : Reader Expression
  | ⟨offset, .minus⟩ :: rest =>
    (nested deeper offset Levels.signed rest).map fun p => (p.map negate).widen (Nat.le_succ _)
  | input => primary stop deeper input

/-- The token negates what follows it. -/
def isNegation : Token → Bool
  | .bang => true
  | .word w => w == "not"
  | _ => false

/-- A negation, or a chain of comparisons. -/
def negation (stop : Nat) (deeper : Option Levels) : Reader Expression
  | [] => chain (signed stop deeper) []
  | l :: rest =>
    if isNegation l.token then
      (nested deeper l.offset Levels.negation rest).map fun p =>
        (p.map .not).widen (Nat.le_succ _)
    else chain (signed stop deeper) (l :: rest)

/-- The token joins the terms of a conjunction. -/
def isConjunction : Token → Bool
  | .both => true
  | .word w => w == "and"
  | _ => false

/-- The token joins the terms of a disjunction. -/
def isDisjunction : Token → Bool
  | .either => true
  | .word w => w == "or"
  | _ => false

/-- Negations joined by `and`. -/
def conjunction (stop : Nat) (deeper : Option Levels) : Reader Expression := fun input =>
  (terms isConjunction (negation stop deeper) input).map (·.map (join .all))

/-- Conjunctions joined by `or`. -/
def disjunction (stop : Nat) (deeper : Option Levels) : Reader Expression := fun input =>
  (terms isDisjunction (conjunction stop deeper) input).map (·.map (join .any))

/-- The readers of a depth, from those of the next depth, if there is one. -/
def Levels.over (stop : Nat) (deeper : Option Levels) : Levels where
  alternatives := disjunction stop deeper
  negation := Guard.negation stop deeper
  signed := Guard.signed stop deeper

/-- **The readers of a depth below which `remaining` more may be nested.** -/
def levels (stop : Nat) : Nat → Levels
  | 0 => .over stop none
  | remaining + 1 => .over stop (some (levels stop remaining))

/-- The expression that a list of lexemes spells; `stop` is the length of their text. -/
def ofLexemes (stop : Nat) (input : List Lexeme) : Except SyntaxError Expression :=
  match input with
  | [] => .error ⟨0, .emptyExpression⟩
  | input =>
    match (levels stop maxNesting).alternatives input with
    | .error e => .error e
    | .ok ⟨e, [], _⟩ => .ok e
    | .ok ⟨_, l :: _, _⟩ => .error ⟨l.offset, .trailingInput⟩

/-- **The expression that the text of a guard denotes.** -/
def read (source : String) : Except SyntaxError Expression := do
  ofLexemes source.utf8ByteSize (← lexemes source)

/-- The text without its line breaks. -/
def withoutBreaks (source : String) : String :=
  String.ofList (source.toList.filter fun c => c != '\n' && c != '\r')

/-- **A guard holds** when its text, with line breaks taken out, denotes an expression whose value
holds.  A guard that cannot be read or evaluated does not hold. -/
def holds (source : String) : Bool :=
  match read (withoutBreaks source) with
  | .error _ => false
  | .ok e =>
    match e.evaluate with
    | .error _ => false
    | .ok v => v.truthy

end Runbook.Guard
