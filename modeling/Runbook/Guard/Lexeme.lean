import Runbook.Guard.Value
import Runbook.Decimal.Literal
import Runbook.Text.Blank
import Runbook.Text.Letter
import Runbook.Text.Quoted

/-!
# Lexemes of activation guards

The text of a guard is cut into tokens, each with the byte offset at which it starts.  Cutting one
token off splits the text that is left into the characters taken, of which there is at least one,
and the rest (`Piece.taken_append_rest`, `Piece.rest_length_lt`); offsets advance by the UTF-8
length of the characters taken.
-/

namespace Runbook.Guard

/-- A comparison between two values. -/
inductive Comparison
  | equal
  | notEqual
  | less
  | atMost
  | greater
  | atLeast
  | memberOf
  | notMemberOf
deriving DecidableEq

/-- The name of a comparison in a message about tokens. -/
def Comparison.tokenName : Comparison → String
  | equal => "Eq"
  | notEqual => "Ne"
  | less => "Lt"
  | atMost => "Le"
  | greater => "Gt"
  | atLeast => "Ge"
  | memberOf => "In"
  | notMemberOf => "NotIn"

/-- **A token of a guard.** -/
inductive Token
  | number (value : Binary64)
  | text (value : String)
  | word (name : String)
  | comparison (op : Comparison)
  | both
  | either
  | bang
  | minus
  | openParen
  | closeParen
  | openBracket
  | closeBracket
  | openBrace
  | closeBrace
  | comma
deriving DecidableEq

/-- Numbers in a message about tokens: a leading digit of exponent `-4` to `15` is written in
positional notation, whole numbers keep a point, and a positive exponent has no sign. -/
def tokenNumberLayout : Decimal.Layout where
  least := some (-4)
  greatest := some 15
  keepPoint := true
  plusSign := false
  tie := .up

/-- A token as messages show it. -/
def Token.describe : Token → String
  | number x => s!"Number({tokenNumberLayout.text x})"
  | text s => s!"Str({Text.quote s})"
  | word w => s!"Word({Text.quote w})"
  | comparison op => s!"Cmp({op.tokenName})"
  | both => "AndSym"
  | either => "OrSym"
  | bang => "Bang"
  | minus => "Minus"
  | openParen => "LParen"
  | closeParen => "RParen"
  | openBracket => "LBracket"
  | closeBracket => "RBracket"
  | openBrace => "LBrace"
  | closeBrace => "RBrace"
  | comma => "Comma"

/-- **What is wrong with the text of a guard.** -/
inductive Fault
  | emptyExpression
  | unexpectedCharacter (c : Char)
  | unterminatedText
  | invalidNumber (literal : String)
  | nestedTooDeep (limit : Nat)
  | unknownName (name : String)
  | unexpectedToken (token : Token)
  | unexpectedEnd
  /-- Another token was expected; without `found` the text ended. -/
  | expected (wanted : Token) (found : Option Token)
  | trailingInput

/-- The wording of a fault. -/
def Fault.message : Fault → String
  | emptyExpression => "empty expression"
  | unexpectedCharacter c => s!"unexpected character '{c}'"
  | unterminatedText => "unterminated string literal"
  | invalidNumber literal => s!"invalid number '{literal}'"
  | nestedTooDeep limit => s!"nested deeper than {limit} levels"
  | unknownName name => s!"unknown name '{name}'"
  | unexpectedToken token => s!"unexpected token {token.describe}"
  | unexpectedEnd => "unexpected end of input"
  | expected wanted (some found) => s!"expected {wanted.describe}, found {found.describe}"
  | expected wanted none => s!"expected {wanted.describe}, found end of input"
  | trailingInput => "unexpected trailing input"

/-- **A syntax error**: a fault and the byte offset at which it stands. -/
structure SyntaxError where
  /-- The byte offset in the text of the guard. -/
  offset : Nat
  /-- What is wrong there. -/
  fault : Fault

/-- The message of a syntax error. -/
def SyntaxError.message (e : SyntaxError) : String :=
  s!"syntax error at offset {e.offset}: {e.fault.message}"

/-- A token and the byte offset of its first character. -/
structure Lexeme where
  /-- The byte offset in the text of the guard. -/
  offset : Nat
  /-- The token. -/
  token : Token
deriving DecidableEq

/-- The length of a text in UTF-8 bytes. -/
def byteLength : List Char → Nat
  | [] => 0
  | c :: rest => c.utf8Size + byteLength rest

/-! ## One token -/

/-- **A token cut off a text**: the characters it takes, and those that are left. -/
structure Piece where
  /-- The token, or what is wrong with it. -/
  outcome : Except Fault Token
  /-- The characters that belong to the token. -/
  taken : List Char
  /-- The characters after it. -/
  rest : List Char

/-- The character that a backslash and `c` stand for: a line feed, a tab, or `c` itself. -/
def escaped (c : Char) : Char :=
  if c = 'n' then '\n' else if c = 't' then '\t' else c

/-- The content of a quoted text up to its closing quote, the characters up to and including that
quote, and what follows. -/
def textBody (quote : Char) : List Char → Option (List Char × List Char × List Char)
  | [] => none
  | '\\' :: c :: rest =>
    (textBody quote rest).map fun (content, taken, tail) =>
      (escaped c :: content, '\\' :: c :: taken, tail)
  | c :: rest =>
    if c = '\\' then none
    else if c = quote then some ([], [c], rest)
    else (textBody quote rest).map fun (content, taken, tail) => (c :: content, c :: taken, tail)

/-- The longest start of a text that may belong to a number: digits, points, exponent marks, and a
sign right after an exponent mark. -/
def numberSpan (afterMark : Bool) : List Char → List Char × List Char
  | [] => ([], [])
  | c :: rest =>
    if c.isDigit || c == '.' || c == 'e' || c == 'E' || (afterMark && (c == '+' || c == '-')) then
      let (taken, tail) := numberSpan (c == 'e' || c == 'E') rest
      (c :: taken, tail)
    else ([], c :: rest)

/-- The piece of a token that takes one character. -/
def Piece.one (token : Token) (c : Char) (rest : List Char) : Piece :=
  ⟨.ok token, [c], rest⟩

/-- The piece of a token that takes two characters if the second is `d`, else of a token that takes
one. -/
def Piece.oneOrTwo (long : Token) (short : Except Fault Token) (c d : Char) (rest : List Char) :
    Piece :=
  match rest with
  | e :: tail => if e = d then ⟨.ok long, [c, e], tail⟩ else ⟨short, [c], rest⟩
  | [] => ⟨short, [c], []⟩

/-- The piece of a quoted text after its opening quote. -/
def Piece.text (quote : Char) (rest : List Char) : Piece :=
  match textBody quote rest with
  | some (content, taken, tail) => ⟨.ok (.text (String.ofList content)), quote :: taken, tail⟩
  | none => ⟨.error .unterminatedText, quote :: rest, []⟩

/-- The piece of a number that starts with `c`. -/
def Piece.number (c : Char) (rest : List Char) : Piece :=
  let (taken, tail) := numberSpan false rest
  let literal := c :: taken
  match Decimal.read? false literal with
  | some x => ⟨.ok (.number x), literal, tail⟩
  | none => ⟨.error (.invalidNumber (String.ofList literal)), literal, tail⟩

/-- The piece of a word that starts with `c`. -/
def Piece.word (c : Char) (rest : List Char) : Piece :=
  let taken := c :: rest.takeWhile Text.isWordChar
  ⟨.ok (.word (String.ofList taken)), taken, rest.dropWhile Text.isWordChar⟩

/-- The text starts with a digit. -/
def startsWithDigit : List Char → Bool
  | c :: _ => c.isDigit
  | [] => false

/-- **The first token of a text** that starts with `c`, which is not blank. -/
def Piece.next (c : Char) (rest : List Char) : Piece :=
  let unexpected : Except Fault Token := .error (.unexpectedCharacter c)
  match c with
  | '=' => .oneOrTwo (.comparison .equal) unexpected c '=' rest
  | '!' => .oneOrTwo (.comparison .notEqual) (.ok .bang) c '=' rest
  | '<' => .oneOrTwo (.comparison .atMost) (.ok (.comparison .less)) c '=' rest
  | '>' => .oneOrTwo (.comparison .atLeast) (.ok (.comparison .greater)) c '=' rest
  | '&' => .oneOrTwo .both unexpected c '&' rest
  | '|' => .oneOrTwo .either unexpected c '|' rest
  | '-' => .one .minus c rest
  | '(' => .one .openParen c rest
  | ')' => .one .closeParen c rest
  | '[' => .one .openBracket c rest
  | ']' => .one .closeBracket c rest
  | '\x7b' => .one .openBrace c rest
  | '\x7d' => .one .closeBrace c rest
  | ',' => .one .comma c rest
  | '\'' => .text c rest
  | '"' => .text c rest
  | c =>
    if c.isDigit || (c == '.' && startsWithDigit rest) then .number c rest
    else if Text.isWordStart c then .word c rest
    else ⟨unexpected, [c], rest⟩

/-! ## Laws of a piece -/

theorem append_of_textBody {quote : Char} {cs content taken tail : List Char}
    (h : textBody quote cs = some (content, taken, tail)) : taken ++ tail = cs := by
  fun_induction textBody quote cs generalizing content taken tail with
  | case1 => cases h
  | case2 c rest ih =>
    obtain ⟨⟨x, y, z⟩, hx, he⟩ := Option.map_eq_some_iff.1 h
    cases he
    simp [ih hx]
  | case3 => cases h
  | case4 => cases h; rfl
  | case5 c rest _ _ _ ih =>
    obtain ⟨⟨x, y, z⟩, hx, he⟩ := Option.map_eq_some_iff.1 h
    cases he
    simp [ih hx]

theorem append_numberSpan (afterMark : Bool) (cs : List Char) :
    (numberSpan afterMark cs).1 ++ (numberSpan afterMark cs).2 = cs := by
  induction cs generalizing afterMark with
  | nil => rfl
  | cons c rest ih =>
    unfold numberSpan
    split
    · simp [ih]
    · rfl

namespace Piece

/-- A piece divides the text it is cut from, and takes its first character at least. -/
def Divides (p : Piece) (c : Char) (rest : List Char) : Prop :=
  p.taken ++ p.rest = c :: rest ∧ p.rest.length ≤ rest.length

theorem divides_one (token : Token) (c : Char) (rest : List Char) :
    (one token c rest).Divides c rest :=
  ⟨rfl, Nat.le_refl _⟩

theorem divides_oneOrTwo (long : Token) (short : Except Fault Token) (c d : Char)
    (rest : List Char) : (oneOrTwo long short c d rest).Divides c rest := by
  unfold oneOrTwo Divides
  split
  · split
    · simp
    · simp
  · simp

theorem divides_text (c : Char) (rest : List Char) : (text c rest).Divides c rest := by
  unfold text Divides
  split
  · rename_i h
    have := append_of_textBody h
    refine ⟨by simp [this], ?_⟩
    rw [← this]
    simp
  · simp

theorem divides_number (c : Char) (rest : List Char) : (number c rest).Divides c rest := by
  have h := append_numberSpan false rest
  have hl : (numberSpan false rest).2.length ≤ rest.length := by
    conv => rhs; rw [← h]
    simp
  unfold number Divides
  dsimp only
  split <;> exact ⟨by simp [h], hl⟩

theorem divides_word (c : Char) (rest : List Char) : (word c rest).Divides c rest := by
  refine ⟨by simp [word], ?_⟩
  exact (List.dropWhile_suffix _).length_le

theorem divides_next (c : Char) (rest : List Char) : (next c rest).Divides c rest := by
  unfold next
  dsimp only
  split <;> first
    | exact divides_oneOrTwo ..
    | exact divides_one ..
    | exact divides_text ..
    | skip
  split
  · exact divides_number ..
  · split
    · exact divides_word ..
    · exact ⟨rfl, Nat.le_refl _⟩

/-- Nothing of the text is lost between a token and the rest. -/
theorem taken_append_rest (c : Char) (rest : List Char) :
    (next c rest).taken ++ (next c rest).rest = c :: rest :=
  (divides_next c rest).1

/-- A token takes at least one character. -/
theorem rest_length_lt (c : Char) (rest : List Char) :
    (next c rest).rest.length < (c :: rest).length :=
  Nat.lt_succ_of_le (divides_next c rest).2

end Piece

/-! ## All tokens -/

/-- The lexemes of a text whose first character stands at `offset`. -/
def lexemesFrom (offset : Nat) : List Char → Except SyntaxError (List Lexeme)
  | [] => .ok []
  | c :: rest =>
    if Text.isBlank c then lexemesFrom (offset + c.utf8Size) rest
    else
      let piece := Piece.next c rest
      match piece.outcome with
      | .error fault => .error ⟨offset, fault⟩
      | .ok token => do
        let lexemes ← lexemesFrom (offset + byteLength piece.taken) piece.rest
        return ⟨offset, token⟩ :: lexemes
termination_by cs => cs.length
decreasing_by
  · simp
  · exact Piece.rest_length_lt c rest

/-- **The lexemes of the text of a guard.** -/
def lexemes (source : String) : Except SyntaxError (List Lexeme) :=
  lexemesFrom 0 source.toList

end Runbook.Guard
