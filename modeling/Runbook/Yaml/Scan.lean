import Runbook.Yaml.Property

/-!
# From text to tokens

Whether a scalar or a collection is a key shows only at the colon after it.  The scan therefore
remembers, for every open flow collection and for the block around them, the last place at which a
key without an indicator may have started; the colon inserts the key token at that place.  Such a
key stays on one line and is at most 1024 octets long.

Indentation is kept as a stack of columns: content further right opens a block collection, content
further left closes the collections it leaves.
-/

namespace Runbook.Yaml

/-- The most octets that a key without an indicator may span. -/
def maxKeyLength : Nat := 1024

/-- A place where a key without an indicator may have started. -/
structure KeyPlace where
  /-- A block mapping needs a key here. -/
  required : Bool
  /-- The number of tokens before it. -/
  tokens : Nat
  /-- The number of octets before it. -/
  index : Nat
  /-- Its line. -/
  line : Nat
  /-- Its column. -/
  column : Nat

/-- **The state of a scan.** -/
structure Scan where
  /-- The place that was reached. -/
  cursor : Cursor
  /-- The tokens so far. -/
  tokens : Array Token
  /-- The column of the innermost block collection, `-1` outside all of them. -/
  indent : Int
  /-- The columns of the collections around it. -/
  outer : List Int
  /-- A key without an indicator may start here. -/
  keyAllowed : Bool
  /-- The possible key of the block level or the innermost flow collection. -/
  key : Option KeyPlace
  /-- The possible keys of the levels around it; as many as flow collections are open. -/
  outerKeys : List (Option KeyPlace)

namespace Scan

/-- Nothing read. -/
def start (cs : List Char) : Scan :=
  ⟨.start cs, #[], -1, [], true, none, []⟩

/-- A flow collection is open. -/
def inFlow (s : Scan) : Bool := !s.outerKeys.isEmpty

/-- One more token. -/
def emit (s : Scan) (token : Token) : Scan :=
  { s with tokens := s.tokens.push token }

/-- Moves on to a place. -/
def moveTo (s : Scan) (c : Cursor) : Scan := { s with cursor := c }

/-- Says whether a key may start next. -/
def allowKey (s : Scan) (allowed : Bool) : Scan := { s with keyAllowed := allowed }

/-! ## Blanks -/

/-- The place of the next token: blanks, comments and line breaks are passed.  A tab is passed only
where no indentation is read, and a line break of the block level allows a key.  A byte order mark
is passed where a line starts, and takes a column there. -/
def toNextSteps (inFlow : Bool) : Nat → Bool → Cursor → Bool × Cursor
  | 0, allowed, c => (allowed, c)
  | fuel + 1, allowed, c =>
    let c := if c.column == 0 && c.is '\ufeff' then c.skip 1 else c
    let c := c.skipWhile fun x => x == ' ' || ((inFlow || !allowed) && x == '\t')
    let c := if c.is '#' then c.skipWhile fun x => !isBreak x else c
    if c.has isBreak then toNextSteps inFlow fuel (allowed || !inFlow) c.skipBreak
    else (allowed, c)

/-- Moves to the next token. -/
def toNext (s : Scan) : Scan :=
  let (allowed, c) := toNextSteps s.inFlow (s.cursor.left + 1) s.keyAllowed s.cursor
  { s with cursor := c, keyAllowed := allowed }

/-! ## Keys without an indicator -/

/-- A possible key that the scan has left behind is dropped; a required one is refused. -/
def expireKey (c : Cursor) : Option KeyPlace → Option (Option KeyPlace)
  | none => some none
  | some k =>
    if k.line < c.line || k.index + maxKeyLength < c.index then
      if k.required then none else some none
    else some (some k)

/-- Drops all possible keys that were left behind. -/
def expireKeys (s : Scan) : Option Scan := do
  let key ← expireKey s.cursor s.key
  let outerKeys ← s.outerKeys.mapM (expireKey s.cursor)
  return { s with key, outerKeys }

/-- Drops the possible key of this level, which must not be a required one. -/
def removeKey (s : Scan) : Option Scan :=
  if s.key.any (·.required) then none else some { s with key := none }

/-- Remembers this place as a possible key, if one may start here. -/
def saveKey (s : Scan) : Option Scan :=
  if s.keyAllowed then
    let required := !s.inFlow && s.indent == s.cursor.column
    s.removeKey.map fun s =>
      { s with
        key := some ⟨required, s.tokens.size, s.cursor.index, s.cursor.line, s.cursor.column⟩ }
  else some s

/-! ## Indentation -/

/-- Opens a block collection at `column`, unless one is open there or a flow collection is open.
Its token goes before token number `place`. -/
def openBlock (s : Scan) (column place : Nat) (token : Token) : Scan :=
  if !s.inFlow && s.indent < column then
    { s with
      indent := column
      outer := s.indent :: s.outer
      tokens := s.tokens.insertIdxIfInBounds place token }
  else s

/-- The block collections that are left at `column`, closed from the inside out. -/
def closeColumns (column : Int) : Int → List Int → Array Token → Int × List Int × Array Token
  | indent, [], tokens => (indent, [], tokens)
  | indent, next :: outer, tokens =>
    if column < indent then closeColumns column next outer (tokens.push .blockEnd)
    else (indent, next :: outer, tokens)

/-- Closes the block collections that content at `column` leaves. -/
def closeBlocks (s : Scan) (column : Int) : Scan :=
  if s.inFlow then s
  else
    let (indent, outer, tokens) := closeColumns column s.indent s.outer s.tokens
    { s with indent, outer, tokens }

/-! ## Tokens -/

/-- The end of the text. -/
def streamEnd (s : Scan) : Option Scan :=
  (s.closeBlocks (-1)).removeKey.map fun s => (s.allowKey false).emit .streamEnd

/-- A directive. -/
def directive (s : Scan) : Option Scan := do
  let s ← (s.closeBlocks (-1)).removeKey
  let (token, c) ← Yaml.directive s.cursor
  return ((s.allowKey false).moveTo c).emit token

/-- A document marker. -/
def documentMarker (s : Scan) (token : Token) : Option Scan := do
  let s ← (s.closeBlocks (-1)).removeKey
  return ((s.allowKey false).moveTo (s.cursor.skip 3)).emit token

/-- The start of a flow collection. -/
def openFlow (s : Scan) (token : Token) : Option Scan := do
  let s ← s.saveKey
  let s := { s with key := none, outerKeys := s.key :: s.outerKeys }
  return ((s.allowKey true).moveTo (s.cursor.skip 1)).emit token

/-- The end of a flow collection. -/
def closeFlow (s : Scan) (token : Token) : Option Scan := do
  let s ← s.removeKey
  let s := match s.outerKeys with
    | key :: outerKeys => { s with key, outerKeys }
    | [] => s
  return ((s.allowKey false).moveTo (s.cursor.skip 1)).emit token

/-- A comma between the entries of a flow collection. -/
def flowEntry (s : Scan) : Option Scan := do
  let s ← s.removeKey
  return ((s.allowKey true).moveTo (s.cursor.skip 1)).emit .flowEntry

/-- A dash before an entry of a block sequence. -/
def blockEntry (s : Scan) : Option Scan := do
  if !s.inFlow && !s.keyAllowed then none
  else
    let s := s.openBlock s.cursor.column s.tokens.size .blockSequenceStart
    let s ← s.removeKey
    return ((s.allowKey true).moveTo (s.cursor.skip 1)).emit .blockEntry

/-- The indicator of a key. -/
def keyIndicator (s : Scan) : Option Scan := do
  if !s.inFlow && !s.keyAllowed then none
  else
    let s := s.openBlock s.cursor.column s.tokens.size .blockMappingStart
    let s ← s.removeKey
    return ((s.allowKey !s.inFlow).moveTo (s.cursor.skip 1)).emit .key

/-- The colon before a value. -/
def valueIndicator (s : Scan) : Option Scan :=
  match s.key with
  | some k =>
    let s := { s with tokens := s.tokens.insertIdxIfInBounds k.tokens .key, key := none }
    let s := s.openBlock k.column k.tokens .blockMappingStart
    some (((s.allowKey false).moveTo (s.cursor.skip 1)).emit .value)
  | none =>
    if !s.inFlow && !s.keyAllowed then none
    else
      let s := s.openBlock s.cursor.column s.tokens.size .blockMappingStart
      some (((s.allowKey !s.inFlow).moveTo (s.cursor.skip 1)).emit .value)

/-- An anchor or an alias. -/
def anchor (s : Scan) (token : String → Token) : Option Scan := do
  let s ← s.saveKey
  let (name, c) ← anchorName s.cursor
  return ((s.allowKey false).moveTo c).emit (token name)

/-- A tag. -/
def tag (s : Scan) : Option Scan := do
  let s ← s.saveKey
  let (name, c) ← tagName s.inFlow s.cursor
  return ((s.allowKey false).moveTo c).emit (.tag name)

/-- A block scalar. -/
def block (s : Scan) (literal : Bool) : Option Scan := do
  let s ← s.removeKey
  let (text, c) ← blockScalar literal s.indent s.cursor
  let style := if literal then Style.literal else .quoted
  return ((s.allowKey true).moveTo c).emit (.scalar (String.ofList text) style)

/-- A quoted scalar. -/
def quoted (s : Scan) (single : Bool) : Option Scan := do
  let s ← s.saveKey
  let (text, c) ← quotedScalar single s.cursor
  return ((s.allowKey false).moveTo c).emit (.scalar (String.ofList text) .quoted)

/-- A plain scalar.  A key may start on the line after it. -/
def plain (s : Scan) : Option Scan := do
  let s ← s.saveKey
  let p ← plainScalar s.inFlow (s.indent + 1).toNat s.cursor
  return ((s.allowKey p.endsLine).moveTo p.cursor).emit (.scalar (String.ofList p.text) .plain)

/-- A character that cannot start a plain scalar, unless something else than a blank follows. -/
def isIndicator (c : Char) : Bool :=
  "-?:,[]\x7b\x7d#&*!|>'\"%@`".toList.contains c

/-- A plain scalar starts at a place. -/
def startsPlain (inFlow : Bool) (c : Cursor) : Bool :=
  match c.peek with
  | none => false
  | some x =>
    if isBlank x || isBreak x then false
    else if !isIndicator x then true
    else if x == '-' then !(c.peekAt 1).any isBlank
    else (x == '?' || x == ':') && !inFlow && !c.blankOrEndAt 1

/-- The token at the place that was reached. -/
def token (s : Scan) : Option Scan :=
  let c := s.cursor
  match c.peek with
  | none => s.streamEnd
  | some x =>
    let spaced := c.blankOrEndAt 1
    if c.column == 0 && x == '%' then s.directive
    else if c.atMarker '-' then s.documentMarker .documentStart
    else if c.atMarker '.' then s.documentMarker .documentEnd
    else if x == '[' then s.openFlow .flowSequenceStart
    else if x == '\x7b' then s.openFlow .flowMappingStart
    else if x == ']' then s.closeFlow .flowSequenceEnd
    else if x == '\x7d' then s.closeFlow .flowMappingEnd
    else if x == ',' then s.flowEntry
    else if x == '-' && spaced then s.blockEntry
    else if x == '?' && (s.inFlow || spaced) then s.keyIndicator
    else if x == ':' && (s.inFlow || spaced) then s.valueIndicator
    else if x == '*' then s.anchor .alias
    else if x == '&' then s.anchor .anchor
    else if x == '!' then s.tag
    else if x == '|' && !s.inFlow then s.block true
    else if x == '>' && !s.inFlow then s.block false
    else if x == '\'' then s.quoted true
    else if x == '"' then s.quoted false
    else if startsPlain s.inFlow c then s.plain
    else none

/-- The next token. -/
def next (s : Scan) : Option Scan :=
  s.toNext.expireKeys.bind fun s => (s.closeBlocks s.cursor.column).token

/-- The scan to the end of the text; a step takes a character at least, but for the last. -/
def run : Nat → Scan → Option Scan
  | 0, _ => none
  | fuel + 1, s => s.next.bind fun t => if s.toNext.cursor.atEnd then some t else run fuel t

end Scan

/-- **The tokens of a text.** -/
def Token.ofText? (cs : List Char) : Option (List Token) :=
  if cs.all isPrintable then
    ((Scan.start cs).run (cs.length + 1)).map fun s => s.tokens.toList
  else none

end Runbook.Yaml
