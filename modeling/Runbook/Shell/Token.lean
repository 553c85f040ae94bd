/-!
# Words of a script

A script is words and operators.  A word is a row of pieces: text as it stands, variables, and
scripts whose output is meant, each between quotes or not.  Blanks end a word, quotes and
backslashes keep the characters after them from being anything but text, and a number sign at the
start of a word opens a comment.
-/

namespace Runbook.Shell

/-- A piece of a word. -/
inductive Piece
  /-- Characters that stand for themselves. -/
  | text (cs : List Char) (quoted : Bool)
  /-- The value of a variable or a special parameter. -/
  | variable (name : String) (quoted : Bool)
  /-- What a script writes. -/
  | output (script : List Char) (quoted : Bool)
deriving DecidableEq

/-- A word before its variables are replaced. -/
abbrev Word := List Piece

/-- What stands between commands and words. -/
inductive Operator
  /-- The end of a line. -/
  | lineEnd
  /-- The end of a command on a line. -/
  | semicolon
  /-- The next command runs if this one succeeded. -/
  | and
  /-- The next command runs if this one failed. -/
  | or
  /-- The next command reads what this one writes. -/
  | pipe
  /-- The start of a script of its own. -/
  | openParen
  /-- The end of such a script. -/
  | closeParen
  /-- Output of a descriptor goes where the next word says; `duplicate` if it names one. -/
  | output (descriptor : Nat) (duplicate : Bool)
  /-- Anything that is not understood. -/
  | other (text : String)
deriving DecidableEq

/-- The spelling of an operator in messages. -/
def Operator.spelling : Operator → String
  | lineEnd => "newline"
  | semicolon => ";"
  | and => "&&"
  | or => "||"
  | pipe => "|"
  | openParen => "("
  | closeParen => ")"
  | output _ duplicate => if duplicate then ">&" else ">"
  | other text => text

/-- **A token of a script**, with the line on which it ends. -/
inductive Token
  | word (w : Word) (line : Nat)
  | operator (op : Operator) (line : Nat)
  /-- A quote that is never closed, with the line on which it opens. -/
  | unclosed (quote : Char) (line : Nat)
deriving DecidableEq

namespace Token

/-- The line on which a token ends, or on which an open quote begins. -/
def line : Token → Nat
  | word _ line => line
  | operator _ line => line
  | unclosed _ line => line

/-- What the next character continues. -/
inductive Mode
  /-- Nothing: between words, or inside an unquoted part of one. -/
  | base
  /-- A part between single quotes. -/
  | single (line : Nat)
  /-- A part between double quotes. -/
  | double (line : Nat)
  /-- A backslash outside quotes. -/
  | escaped
  /-- A backslash between double quotes. -/
  | escapedInDouble (line : Nat)
  /-- A dollar sign; the line of the double quotes around it, if any. -/
  | dollar (within : Option Nat)
  /-- The name of a variable. -/
  | name (within : Option Nat) (read : List Char)
  /-- The name of a variable in braces. -/
  | braced (within : Option Nat) (read : List Char)
  /-- A script in parentheses, of which so many more are open, and the quote that is open in it. -/
  | script (within : Option Nat) (parens : Nat) (quote : Option Char) (read : List Char)
  /-- A script between grave accents. -/
  | accents (within : Option Nat) (read : List Char)
  /-- A comment. -/
  | comment
  /-- One semicolon. -/
  | semicolon
  /-- One ampersand. -/
  | ampersand
  /-- One bar. -/
  | bar
  /-- A greater-than sign for a descriptor. -/
  | greater (descriptor : Nat)

/-- How far a script is read: the tokens so far, the last one first, and the word that is being
read, its last piece first. -/
structure Reading where
  tokens : List Token
  word : Option Word
  mode : Mode
  line : Nat

namespace Reading

/-- Adds a character to the word. -/
def push (r : Reading) (c : Char) (quoted : Bool) : Reading :=
  match r.word with
  | some (.text cs q :: rest) =>
    if q == quoted then { r with word := some (.text (cs ++ [c]) q :: rest) }
    else { r with word := some (.text [c] quoted :: .text cs q :: rest) }
  | w => { r with word := some (.text [c] quoted :: w.getD []) }

/-- Makes sure that there is a word, also if it holds nothing: quotes around nothing are a word. -/
def openQuotes (r : Reading) (mode : Mode) : Reading :=
  { r with word := some (.text [] true :: r.word.getD []), mode }

/-- Adds a piece to the word. -/
def pushPiece (r : Reading) (p : Piece) : Reading :=
  { r with word := some (p :: r.word.getD []) }

/-- Adds a variable to the word. -/
def pushVariable (r : Reading) (name : String) (within : Option Nat) : Reading :=
  r.pushPiece (.variable name within.isSome)

/-- Goes on between the double quotes of a line, or outside quotes. -/
def back (r : Reading) (within : Option Nat) : Reading :=
  { r with mode := match within with | some line => .double line | none => .base }

/-- Adds what a script writes to the word, and goes on after the script. -/
def pushOutput (r : Reading) (script : List Char) (within : Option Nat) : Reading :=
  (r.pushPiece (.output script within.isSome)).back within

/-- Ends the word. -/
def endWord (r : Reading) : Reading :=
  match r.word with
  | none => r
  | some w => { r with tokens := .word w.reverse r.line :: r.tokens, word := none }

/-- Adds an operator after the word. -/
def operator (r : Reading) (op : Operator) : Reading :=
  let r := r.endWord
  { r with tokens := .operator op r.line :: r.tokens, mode := .base }

/-- A character that can be part of the name of a variable. -/
def isNameChar (c : Char) : Bool :=
  c.isAlphanum || c == '_'

/-- A parameter that is named by a sign of its own. -/
def isSpecial (c : Char) : Bool :=
  ['?', '$', '#', '@', '*', '!', '-'].contains c

/-- The descriptor that the word names which is being read, if it is a number. -/
def descriptor? (r : Reading) : Option Nat :=
  match r.word with
  | some [.text cs false] => if cs.all Char.isDigit then (String.ofList cs).toNat? else none
  | _ => none

/-- Reads a character between words or in an unquoted part of one. -/
def base (r : Reading) (c : Char) : Reading :=
  let r := { r with mode := .base }
  if c == ' ' || c == '\t' then r.endWord
  else if c == '\n' then
    let r := r.operator .lineEnd
    { r with line := r.line + 1 }
  else if c == ';' then { r.endWord with mode := .semicolon }
  else if c == '&' then { r.endWord with mode := .ampersand }
  else if c == '|' then { r.endWord with mode := .bar }
  else if c == '>' then
    match r.descriptor? with
    | some d => { r with word := none, mode := .greater d }
    | none => { r.endWord with mode := .greater 1 }
  else if c == '(' then r.operator .openParen
  else if c == ')' then r.operator .closeParen
  else if c == '<' then r.operator (.other "<")
  else if c == '\x60' then { r with mode := .accents none [] }
  else if c == '\'' then r.openQuotes (.single r.line)
  else if c == '"' then r.openQuotes (.double r.line)
  else if c == '\\' then { r with mode := .escaped }
  else if c == '$' then { r with mode := .dollar none }
  else if c == '#' && r.word.isNone then { r with mode := .comment }
  else r.push c false

/-- Reads a character between double quotes. -/
def double (r : Reading) (line : Nat) (c : Char) : Reading :=
  let r := { r with mode := .double line }
  if c == '"' then { r with mode := .base }
  else if c == '\\' then { r with mode := .escapedInDouble line }
  else if c == '$' then { r with mode := .dollar (some line) }
  else if c == '\x60' then { r with mode := .accents (some line) [] }
  else if c == '\n' then { r.push c true with line := r.line + 1 }
  else r.push c true

/-- Reads a character after what stood in quotes of this line, or outside quotes. -/
def resume (r : Reading) (within : Option Nat) (c : Char) : Reading :=
  match within with
  | none => r.base c
  | some line => r.double line c

/-- Reads a character of a script in parentheses. -/
def scriptChar (r : Reading) (within : Option Nat) (parens : Nat) (quote : Option Char)
    (read : List Char) (c : Char) : Reading :=
  let goOn (parens : Nat) (quote : Option Char) : Reading :=
    { r with mode := .script within parens quote (read ++ [c]) }
  match quote with
  | some q => goOn parens (if c == q then none else some q)
  | none =>
    if c == '\'' || c == '"' then goOn parens (some c)
    else if c == '(' then goOn (parens + 1) none
    else if c == ')' then
      if parens = 0 then r.pushOutput read within else goOn (parens - 1) none
    else goOn parens none

/-- Reads a character. -/
def step (r : Reading) (c : Char) : Reading :=
  match r.mode with
  | .base => r.base c
  | .double line => r.double line c
  | .single line =>
    if c == '\'' then { r with mode := .base }
    else if c == '\n' then { r.push c true with line := r.line + 1, mode := .single line }
    else r.push c true
  | .escaped =>
    if c == '\n' then { r with mode := .base, line := r.line + 1 }
    else { r.push c true with mode := .base }
  | .escapedInDouble line =>
    let r := { r with mode := .double line }
    if c == '\n' then { r with line := r.line + 1 }
    else if c == '$' || c == '"' || c == '\\' || c == '\x60' then r.push c true
    else (r.push '\\' true).push c true
  | .dollar within =>
    if c == '\x7b' then { r with mode := .braced within [] }
    else if c == '(' then { r with mode := .script within 0 none [] }
    else if c.isAlpha || c == '_' then { r with mode := .name within [c] }
    else if isSpecial c || c.isDigit then (r.pushVariable (String.singleton c) within).back within
    else (r.push '$' within.isSome).resume within c
  | .name within read =>
    if isNameChar c then { r with mode := .name within (read ++ [c]) }
    else (r.pushVariable (String.ofList read) within).resume within c
  | .braced within read =>
    if c == '\x7d' then (r.pushVariable (String.ofList read) within).back within
    else { r with mode := .braced within (read ++ [c]) }
  | .script within parens quote read => r.scriptChar within parens quote read c
  | .accents within read =>
    if c == '\x60' then r.pushOutput read within
    else { r with mode := .accents within (read ++ [c]) }
  | .comment => if c == '\n' then r.base c else r
  | .semicolon =>
    if c == ';' then r.operator (.other ";;") else (r.operator .semicolon).base c
  | .ampersand => if c == '&' then r.operator .and else (r.operator (.other "&")).base c
  | .bar => if c == '|' then r.operator .or else (r.operator .pipe).base c
  | .greater d =>
    if c == '&' then r.operator (.output d true)
    else if c == '>' then r.operator (.output d false)
    else (r.operator (.output d false)).base c

/-- Ends the script. -/
def finish (r : Reading) : Reading :=
  let unclosed (quote : Char) (line : Nat) : Reading :=
    { r with tokens := .unclosed quote line :: r.tokens }
  match r.mode with
  | .single line => unclosed '\'' line
  | .double line => unclosed '"' line
  | .escapedInDouble line => unclosed '"' line
  | .dollar (some line) => unclosed '"' line
  | .name (some line) _ => unclosed '"' line
  | .braced _ _ => unclosed '\x7d' r.line
  | .script _ _ _ _ => unclosed ')' r.line
  | .accents _ _ => unclosed '\x60' r.line
  | .dollar none => (r.push '$' false).endWord
  | .name none read => (r.pushVariable (String.ofList read) none).endWord
  | .semicolon => r.operator .semicolon
  | .ampersand => r.operator (.other "&")
  | .bar => r.operator .pipe
  | .greater d => r.operator (.output d false)
  | .escaped => r.endWord
  | .comment => r.endWord
  | .base => r.endWord

end Reading

/-- **The tokens of a script.** -/
def scan (script : List Char) : List Token :=
  ((script.foldl Reading.step ⟨[], none, .base, 1⟩).finish).tokens.reverse

end Token

end Runbook.Shell
