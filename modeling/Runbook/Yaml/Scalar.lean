import Runbook.Yaml.Cursor
import Runbook.Json.Token

/-!
# Scalars of a YAML text

The three ways to write a scalar: plain, between quotes, and as a block.  Lines inside a scalar are
folded: a single break becomes a space, further breaks stay.

Each reader goes on character by character or line by line, so the number of characters that are
left bounds its steps.
-/

namespace Runbook.Yaml

/-- The blanks and line breaks between two parts of a scalar. -/
structure Gap where
  /-- Blanks before the first break, in reverse. -/
  blanks : List Char
  /-- The first break, if there is one. -/
  first : Option (List Char)
  /-- The breaks after the first, in order. -/
  more : List Char

/-- No gap. -/
def Gap.none : Gap := ⟨[], .none, []⟩

/-- What a gap counts as between two parts of a scalar. -/
def Gap.folded (g : Gap) : List Char :=
  match g.first with
  | .none => g.blanks.reverse
  | some ['\n'] => if g.more.isEmpty then [' '] else g.more
  | some other => other ++ g.more

/-- The gap `g` and what follows of it at a place, and the place after it.  In a plain scalar a tab
that indents a line less than `indent` is refused. -/
def gapSteps (indent : Option Nat) : Nat → Gap → Cursor → Option (Gap × Cursor)
  | 0, g, c => some (g, c)
  | fuel + 1, g, c =>
    match c.peek with
    | .none => some (g, c)
    | some x =>
      if isBlank x then
        if g.first.isSome then
          if x == '\t' && indent.any (c.column < ·) then .none
          else gapSteps indent fuel g (c.skip 1)
        else gapSteps indent fuel { g with blanks := x :: g.blanks } (c.skip 1)
      else if isBreak x then
        let (lineBreak, next) := c.takeBreak
        match g.first with
        | .none => gapSteps indent fuel ⟨[], some lineBreak, []⟩ next
        | some _ => gapSteps indent fuel { g with more := g.more ++ lineBreak } next
      else some (g, c)

/-! ## Plain scalars -/

/-- A character that ends a plain scalar inside a flow collection. -/
def isFlowIndicator (c : Char) : Bool :=
  c == ',' || c == '[' || c == ']' || c == '\x7b' || c == '\x7d'

/-- The characters of a plain scalar up to the next blank, break or indicator.  A colon before a
flow indicator is refused inside a flow collection. -/
def plainRun (inFlow : Bool) : List Char → Option (List Char)
  | [] => some []
  | c :: rest =>
    if isBlank c || isBreak c then some []
    else if c == ':' then
      match rest with
      | [] => some []
      | d :: _ =>
        if isBlank d || isBreak d then some []
        else if inFlow && (isFlowIndicator d || d == '?') then none
        else (plainRun inFlow rest).map (c :: ·)
    else if inFlow && isFlowIndicator c then some []
    else (plainRun inFlow rest).map (c :: ·)

/-- What a plain scalar holds, the place after it, and whether a line was begun after it. -/
structure Plain where
  /-- The text. -/
  text : List Char
  /-- The place after the scalar. -/
  cursor : Cursor
  /-- The scalar is followed by a line break. -/
  endsLine : Bool

/-- The parts of a plain scalar that are left, after `text` and a gap.  The gap counts only before
a further part. -/
def plainSteps (inFlow : Bool) (indent : Nat) : Nat → List Char → Gap → Cursor → Option Plain
  | 0, _, _, _ => none
  | fuel + 1, text, before, c =>
    if c.atDocumentMarker || c.is '#' then some ⟨text, c, before.first.isSome⟩
    else
      (plainRun inFlow c.rest).bind fun run =>
        let (text, before) :=
          if run.isEmpty then (text, before) else (text ++ before.folded ++ run, Gap.none)
        let next := c.skip run.length
        if !next.has (fun x => isBlank x || isBreak x) then
          some ⟨text, next, before.first.isSome⟩
        else
          (gapSteps (some indent) next.left before next).bind fun (after, place) =>
            if !inFlow && place.column < indent then some ⟨text, place, after.first.isSome⟩
            else plainSteps inFlow indent fuel text after place

/-- The plain scalar at a place, inside a block of indentation `indent - 1`. -/
def plainScalar (inFlow : Bool) (indent : Nat) (c : Cursor) : Option Plain :=
  plainSteps inFlow indent (c.left + 1) [] .none c

/-! ## Quoted scalars -/

/-- The character that an escape of one letter stands for. -/
def shortEscape? (c : Char) : Option Char :=
  match c with
  | '0' => some '\x00'
  | 'a' => some '\x07'
  | 'b' => some '\x08'
  | 't' => some '\t'
  | '\t' => some '\t'
  | 'n' => some '\n'
  | 'v' => some '\x0b'
  | 'f' => some '\x0c'
  | 'r' => some '\r'
  | 'e' => some '\x1b'
  | ' ' => some ' '
  | '"' => some '"'
  | '/' => some '/'
  | '\\' => some '\\'
  | 'N' => some '\u0085'
  | '_' => some '\u00a0'
  | 'L' => some '\u2028'
  | 'P' => some '\u2029'
  | _ => none

/-- The number of hexadecimal digits after the letter of an escape. -/
def escapeDigits? (c : Char) : Option Nat :=
  match c with
  | 'x' => some 2
  | 'u' => some 4
  | 'U' => some 8
  | _ => none

/-- The number that hexadecimal digits spell. -/
def hexNumber? (cs : List Char) : Option Nat :=
  cs.foldlM (fun n c => (Json.Token.hexValue? c).map (n * 16 + ·)) 0

/-- The character that a code names; halves of surrogate pairs are none. -/
def charOfCode? (n : Nat) : Option Char :=
  if n ≤ 0x10FFFF && !(0xD800 ≤ n && n ≤ 0xDFFF) then some (Char.ofNat n) else none

/-- The characters of a quoted scalar up to the next blank, break or closing quote, in reverse, and
the place after them; the flag says that an escaped line break was skipped. -/
def quotedRun (single : Bool) : Nat → List Char → Cursor → Option (List Char × Cursor × Bool)
  | 0, text, c => some (text, c, false)
  | fuel + 1, text, c =>
    match c.rest with
    | [] => some (text, c, false)
    | x :: rest =>
      if isBlank x || isBreak x then some (text, c, false)
      else if single then
        if x == '\'' then
          if c.peekAt 1 == some '\'' then quotedRun single fuel ('\'' :: text) (c.skip 2)
          else some (text, c, false)
        else quotedRun single fuel (x :: text) (c.skip 1)
      else if x == '"' then some (text, c, false)
      else if x == '\\' then
        match rest with
        | [] => none
        | y :: _ =>
          if isBreak y then some (text, (c.skip 1).skipBreak, true)
          else
            match shortEscape? y, escapeDigits? y with
            | some z, _ => quotedRun single fuel (z :: text) (c.skip 2)
            | none, none => none
            | none, some n =>
              let digits := (c.rest.drop 2).take n
              if digits.length < n then none
              else ((hexNumber? digits).bind charOfCode?).bind fun z =>
                quotedRun single fuel (z :: text) (c.skip (2 + n))
      else quotedRun single fuel (x :: text) (c.skip 1)

/-- The parts of a quoted scalar that are left, after `text` in reverse. -/
def quotedSteps (single : Bool) : Nat → List Char → Cursor → Option (List Char × Cursor)
  | 0, _, _ => none
  | fuel + 1, text, c =>
    if c.atDocumentMarker || c.atEnd then none
    else
      (quotedRun single c.left text c).bind fun (text, next, escapedBreak) =>
        if next.is (if single then '\'' else '"') then some (text.reverse, next.skip 1)
        else
          let before : Gap := if escapedBreak then ⟨[], some [], []⟩ else .none
          (gapSteps none next.left before next).bind fun (after, place) =>
            quotedSteps single fuel (after.folded.reverse ++ text) place

/-- **The quoted scalar at a place**, and the place after its closing quote. -/
def quotedScalar (single : Bool) (c : Cursor) : Option (List Char × Cursor) :=
  quotedSteps single (c.left + 1) [] (c.skip 1)

/-! ## Block scalars -/

/-- What becomes of the line breaks at the end of a block scalar. -/
inductive Chomping
  | strip
  | clip
  | keep
deriving DecidableEq

/-- The header of a block scalar: chomping and indentation, in either order. -/
structure BlockHeader where
  /-- What becomes of the last line breaks. -/
  chomping : Chomping
  /-- The indentation beyond that of the enclosing block, if given. -/
  increment : Option Nat

/-- The chomping that an indicator asks for. -/
def chomping? (c : Option Char) : Option Chomping :=
  match c with
  | some '+' => some .keep
  | some '-' => some .strip
  | _ => none

/-- The header at a place and the place after it; an indentation of zero is refused. -/
def blockHeader (c : Cursor) : Option (BlockHeader × Cursor) :=
  let digit (c : Cursor) : Option (Option Nat × Cursor) :=
    match c.peek with
    | some d =>
      if d == '0' then none
      else if d.isDigit then some (some (d.toNat - '0'.toNat), c.skip 1)
      else some (none, c)
    | none => some (none, c)
  match chomping? c.peek with
  | some chomping => (digit (c.skip 1)).map fun (n, c) => (⟨chomping, n⟩, c)
  | none =>
    (digit c).map fun (n, c) =>
      match n, chomping? c.peek with
      | some n, some chomping => (⟨chomping, some n⟩, c.skip 1)
      | n, _ => (⟨.clip, n⟩, c)

/-- The empty lines at a place: their breaks, the largest indentation seen, and the place where the
first line with content has its indentation behind it.  A tab inside the indentation is refused. -/
def blockBreaks (indent : Option Nat) : Nat → List Char → Nat → Cursor →
    Option (List Char × Nat × Cursor)
  | 0, breaks, widest, c => some (breaks, widest, c)
  | fuel + 1, breaks, widest, c =>
    let spaces := (c.rest.takeWhile (· == ' ')).length
    let wanted := match indent with
      | some n => min spaces (n - c.column)
      | none => spaces
    let c := c.skip wanted
    let widest := max widest c.column
    if indent.all (c.column < ·) && c.is '\t' then none
    else if c.has isBreak then
      let (lineBreak, next) := c.takeBreak
      blockBreaks indent fuel (breaks ++ lineBreak) widest next
    else some (breaks, widest, c)

/-- A block scalar that is being read. -/
structure BlockText where
  /-- The text so far. -/
  text : List Char
  /-- The break after the last line. -/
  lastBreak : List Char
  /-- The breaks of the empty lines after it. -/
  emptyLines : List Char
  /-- The last line starts with a blank. -/
  indented : Bool

/-- The lines of a block scalar that are left. -/
def blockLines (literal : Bool) (indent : Nat) : Nat → BlockText → Cursor →
    Option (BlockText × Cursor)
  | 0, b, c => some (b, c)
  | fuel + 1, b, c =>
    if c.column != indent || c.atEnd then some (b, c)
    else
      let indented := c.has isBlank
      let joint :=
        if !literal && b.lastBreak.head? == some '\n' && !b.indented && !indented then
          if b.emptyLines.isEmpty then [' '] else b.emptyLines
        else b.lastBreak ++ b.emptyLines
      let (line, next) := c.span fun x => !isBreak x
      let (lineBreak, next) := next.takeBreak
      (blockBreaks (some indent) (next.left + 1) [] 0 next).bind
        fun (breaks, _, next) =>
          blockLines literal indent fuel ⟨b.text ++ joint ++ line, lineBreak, breaks, indented⟩ next

/-- **The block scalar at a place**, inside a block of indentation `parent`, which is `-1` outside
all blocks. -/
def blockScalar (literal : Bool) (parent : Int) (c : Cursor) : Option (List Char × Cursor) :=
  (blockHeader (c.skip 1)).bind fun (header, c) =>
    let c := c.skipWhile isBlank
    let c := if c.is '#' then c.skipWhile fun x => !isBreak x else c
    if !c.breakOrEnd then none
    else
      let c := c.skipBreak
      let given := header.increment.map fun n => if 0 ≤ parent then parent.toNat + n else n
      (blockBreaks given (c.left + 1) [] 0 c).bind fun (breaks, widest, c) =>
        let indent := given.getD (max widest (max (parent + 1).toNat 1))
        (blockLines literal indent (c.left + 1) ⟨[], [], breaks, false⟩ c).map
          fun (b, c) =>
            let lastBreak := if header.chomping = .strip then [] else b.lastBreak
            let emptyLines := if header.chomping = .keep then b.emptyLines else []
            (b.text ++ lastBreak ++ emptyLines, c)

end Runbook.Yaml
