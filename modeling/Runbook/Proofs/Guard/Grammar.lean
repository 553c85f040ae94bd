import Runbook.Guard.Expression

/-!
# The grammar of guards

    disjunction := conjunction ((or | ||) conjunction)*
    conjunction := negation ((and | &&) negation)*
    negation    := (not | !) negation | chain
    chain       := signed (link signed)*
    link        := == | != | < | <= | > | >= | in | not in | 属于
    signed      := - signed | primary
    primary     := number | text | constant | ( content ) | [ content ] | { content }
    content     := nothing | items
    items       := disjunction , items | disjunction | disjunction ,

A derivation is a tree with one type for each symbol.  It has the tokens that it derives (`tokens`),
tells how deep brackets, negations and minus signs enclose each other in it (`nesting`), and denotes
an expression, found without looking at the tokens (`denoted`, and `terms` of a row of terms).
-/

namespace Runbook.Guard.Grammar

/-! ## Tokens with a choice -/

/-- A connective is written as a word or with signs. -/
inductive Spelling
  | word
  | sign

/-- The token of a disjunction. -/
def Spelling.orToken : Spelling → Token
  | word => .word "or"
  | sign => .either

/-- The token of a conjunction. -/
def Spelling.andToken : Spelling → Token
  | word => .word "and"
  | sign => .both

/-- The token of a negation. -/
def Spelling.notToken : Spelling → Token
  | word => .word "not"
  | sign => .bang

/-- **What links the operands of a chain.** -/
inductive Operator
  | equal
  | notEqual
  | less
  | atMost
  | greater
  | atLeast
  | memberOf
  | notMemberOf
  | subset

/-- The tokens of an operator. -/
def Operator.tokens : Operator → List Token
  | equal => [.comparison .equal]
  | notEqual => [.comparison .notEqual]
  | less => [.comparison .less]
  | atMost => [.comparison .atMost]
  | greater => [.comparison .greater]
  | atLeast => [.comparison .atLeast]
  | memberOf => [.word "in"]
  | notMemberOf => [.word "not", .word "in"]
  | subset => [.word "属于"]

/-- The expression that an operator makes of its operands. -/
def Operator.denoted (left right : Expression) : Operator → Expression
  | equal => .compare .equal left right
  | notEqual => .compare .notEqual left right
  | less => .compare .less left right
  | atMost => .compare .atMost left right
  | greater => .compare .greater left right
  | atLeast => .compare .atLeast left right
  | memberOf => .compare .memberOf left right
  | notMemberOf => .compare .notMemberOf left right
  | subset => .subset left right

/-- The words that are literals, with their values. -/
def constants : List (String × Value) :=
  [("True", .boolean true), ("true", .boolean true), ("False", .boolean false),
    ("false", .boolean false), ("None", .nothing), ("null", .nothing)]

/-- A kind of brackets. -/
inductive Brackets
  | round
  | square
  | curly

/-- The token that opens brackets. -/
def Brackets.opening : Brackets → Token
  | round => .openParen
  | square => .openBracket
  | curly => .openBrace

/-- The token that closes brackets. -/
def Brackets.closing : Brackets → Token
  | round => .closeParen
  | square => .closeBracket
  | curly => .closeBrace

/-! ## Derivations -/

mutual

/-- **A derivation of a guard**: conjunctions joined by `or`. -/
inductive Disjunction
  | one (term : Conjunction)
  | more (term : Conjunction) (spelling : Spelling) (rest : Disjunction)

/-- Negations joined by `and`. -/
inductive Conjunction
  | one (term : Negation)
  | more (term : Negation) (spelling : Spelling) (rest : Conjunction)

/-- A negation, or a chain. -/
inductive Negation
  | not (spelling : Spelling) (operand : Negation)
  | chain (chain : Chain)

/-- An operand, and further ones. -/
inductive Chain
  | mk (first : Signed) (links : Links)

/-- The operands of a chain after its first, each after an operator. -/
inductive Links
  | none
  | more (operator : Operator) (operand : Signed) (rest : Links)

/-- A primary, or a minus sign before an operand. -/
inductive Signed
  | minus (operand : Signed)
  | primary (primary : Primary)

/-- A literal, or something in brackets. -/
inductive Primary
  | number (value : Binary64)
  | text (value : String)
  | constant (word : String) (value : Value) (known : (word, value) ∈ constants)
  | bracketed (brackets : Brackets) (content : Content)

/-- What stands between brackets. -/
inductive Content
  | empty
  | items (items : Items)

/-- Items with a comma between each two, and maybe one after the last. -/
inductive Items
  | last (item : Disjunction) (comma : Bool)
  | more (item : Disjunction) (rest : Items)

end

/-! ## The tokens of a derivation -/

mutual

/-- **The tokens that are derived.** -/
def Disjunction.tokens : Disjunction → List Token
  | .one term => term.tokens
  | .more term spelling rest => term.tokens ++ spelling.orToken :: rest.tokens

/-- The tokens of negations joined by `and`. -/
def Conjunction.tokens : Conjunction → List Token
  | .one term => term.tokens
  | .more term spelling rest => term.tokens ++ spelling.andToken :: rest.tokens

/-- The tokens of a negation, or of a chain. -/
def Negation.tokens : Negation → List Token
  | .not spelling operand => spelling.notToken :: operand.tokens
  | .chain chain => chain.tokens

/-- The tokens of a chain. -/
def Chain.tokens : Chain → List Token
  | .mk first links => first.tokens ++ links.tokens

/-- The tokens of a chain after its first operand. -/
def Links.tokens : Links → List Token
  | .none => []
  | .more operator operand rest => operator.tokens ++ operand.tokens ++ rest.tokens

/-- The tokens of an operand. -/
def Signed.tokens : Signed → List Token
  | .minus operand => .minus :: operand.tokens
  | .primary primary => primary.tokens

/-- The tokens of a literal, or of something in brackets. -/
def Primary.tokens : Primary → List Token
  | .number value => [.number value]
  | .text value => [.text value]
  | .constant word _ _ => [.word word]
  | .bracketed brackets content => brackets.opening :: content.tokens ++ [brackets.closing]

/-- The tokens between brackets. -/
def Content.tokens : Content → List Token
  | .empty => []
  | .items items => items.tokens

/-- The tokens of items. -/
def Items.tokens : Items → List Token
  | .last item comma => item.tokens ++ if comma then [.comma] else []
  | .more item rest => item.tokens ++ .comma :: rest.tokens

end

/-! ## How deep a derivation is nested -/

mutual

/-- **The most brackets, negations and minus signs that enclose each other.** -/
def Disjunction.nesting : Disjunction → Nat
  | .one term => term.nesting
  | .more term _ rest => max term.nesting rest.nesting

/-- The nesting of negations joined by `and`. -/
def Conjunction.nesting : Conjunction → Nat
  | .one term => term.nesting
  | .more term _ rest => max term.nesting rest.nesting

/-- The nesting of a negation, or of a chain. -/
def Negation.nesting : Negation → Nat
  | .not _ operand => operand.nesting + 1
  | .chain chain => chain.nesting

/-- The nesting of a chain. -/
def Chain.nesting : Chain → Nat
  | .mk first links => max first.nesting links.nesting

/-- The nesting of a chain after its first operand. -/
def Links.nesting : Links → Nat
  | .none => 0
  | .more _ operand rest => max operand.nesting rest.nesting

/-- The nesting of an operand. -/
def Signed.nesting : Signed → Nat
  | .minus operand => operand.nesting + 1
  | .primary primary => primary.nesting

/-- The nesting of a literal, or of something in brackets. -/
def Primary.nesting : Primary → Nat
  | .bracketed _ content => content.nesting + 1
  | _ => 0

/-- The nesting between brackets. -/
def Content.nesting : Content → Nat
  | .empty => 0
  | .items items => items.nesting

/-- The nesting of items. -/
def Items.nesting : Items → Nat
  | .last item _ => item.nesting
  | .more item rest => max item.nesting rest.nesting

end

/-! ## What a derivation denotes -/

/-- A single term stands for itself, several are joined. -/
def joined (connective : List Expression → Expression) : List Expression → Expression
  | [only] => only
  | terms => connective terms

/-- An operand without links stands for itself, several links are joined. -/
def chained (operand : Expression) : List Expression → Expression
  | [] => operand
  | links => joined .all links

/-- A minus sign before a number literal makes another number literal. -/
def negated : Expression → Expression
  | .literal (.number x) => .literal (.number x.neg)
  | operand => .negative operand

/-- Brackets make a list of their items, but round ones around a single item without a comma only
group. -/
def Brackets.denoted : Brackets → List Expression → Bool → Expression
  | round, [only], false => only
  | _, items, _ => .list items

mutual

/-- The terms of a disjunction. -/
def Disjunction.terms : Disjunction → List Expression
  | .one term => [joined .all term.terms]
  | .more term _ rest => joined .all term.terms :: rest.terms

/-- The terms of a conjunction. -/
def Conjunction.terms : Conjunction → List Expression
  | .one term => [term.denoted]
  | .more term _ rest => term.denoted :: rest.terms

/-- The expression of a negation, or of a chain. -/
def Negation.denoted : Negation → Expression
  | .not _ operand => .not operand.denoted
  | .chain chain => chain.denoted

/-- The expression of a chain. -/
def Chain.denoted : Chain → Expression
  | .mk first links => chained first.denoted (links.terms first.denoted)

/-- The links of a chain, each between its two operands. -/
def Links.terms (left : Expression) : Links → List Expression
  | .none => []
  | .more operator operand rest =>
    operator.denoted left operand.denoted :: rest.terms operand.denoted

/-- The expression of an operand. -/
def Signed.denoted : Signed → Expression
  | .minus operand => negated operand.denoted
  | .primary primary => primary.denoted

/-- The expression of a literal, or of something in brackets. -/
def Primary.denoted : Primary → Expression
  | .number value => .literal (.number value)
  | .text value => .literal (.text value)
  | .constant _ value _ => .literal value
  | .bracketed brackets content => brackets.denoted content.expressions content.trailingComma

/-- The items between brackets. -/
def Content.expressions : Content → List Expression
  | .empty => []
  | .items items => items.expressions

/-- A comma follows the last item. -/
def Content.trailingComma : Content → Bool
  | .empty => false
  | .items items => items.trailingComma

/-- The expressions of items. -/
def Items.expressions : Items → List Expression
  | .last item _ => [joined .any item.terms]
  | .more item rest => joined .any item.terms :: rest.expressions

/-- A comma follows the last of the items. -/
def Items.trailingComma : Items → Bool
  | .last _ comma => comma
  | .more _ rest => rest.trailingComma

end

/-- **The expression that a derivation denotes.** -/
def Disjunction.denoted (d : Disjunction) : Expression :=
  joined .any d.terms

end Runbook.Guard.Grammar
