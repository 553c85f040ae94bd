import Runbook.Json.Draft
import Runbook.Json.Token

/-!
# Reading JSON text

A reader consumes one token after the other and keeps the arrays and objects it stands in as a
stack of frames, so reading is a fold over the tokens.  It makes a draft (`Draft.ofText?`), in which
arrays and objects nested deeper than `Json.maxNesting` mean nothing.  `Json.document?` wants a
whole value and keeps repeated members as they were written; `Json.read?` merges them.
-/

namespace Runbook.Json

/-- The most arrays and objects that may enclose a value. -/
def maxNesting : Nat := 127

/-- An array or object that is being read, its content so far in reverse. -/
inductive Frame
  | array (items : List Draft)
  | object (members : List (Option String × Draft))
  /-- An object whose next member has this name. -/
  | member (members : List (Option String × Draft)) (name : Option String)

/-- What a reader waits for. -/
inductive Expect
  /-- A value. -/
  | value
  /-- A value, or the end of the array just opened. -/
  | firstItem
  /-- A name. -/
  | name
  /-- A name, or the end of the object just opened. -/
  | firstName
  /-- The colon after a name. -/
  | colon
  /-- A comma or the end of the innermost array or object. -/
  | separator
  /-- Nothing: a whole value was read. -/
  | finish (value : Draft)

/-- **The state of a reader**: what encloses the place it has reached, and what may come next. -/
structure Reading where
  /-- The open arrays and objects, innermost first. -/
  frames : List Frame
  /-- What may come next. -/
  expect : Expect

namespace Reading

/-- Nothing read. -/
def start : Reading := ⟨[], .value⟩

/-- Hands a complete value to the innermost frame. -/
def supply (frames : List Frame) (v : Draft) : Option Reading :=
  match frames with
  | [] => some ⟨[], .finish v⟩
  | .array items :: outer => some ⟨.array (v :: items) :: outer, .separator⟩
  | .member members name :: outer => some ⟨.object ((name, v) :: members) :: outer, .separator⟩
  | .object _ :: _ => none

/-- An array or object that stands in these frames; it means nothing if it stands too deep. -/
def nested (outer : List Frame) (v : Draft) : Draft :=
  if outer[maxNesting - 1]?.isSome then .meaningless else v

/-- A token where a value is expected. -/
def value (frames : List Frame) : Token → Option Reading
  | .text s => supply frames (.leaf (s.map .text))
  | .scalar v => supply frames (.leaf v)
  | .openArray => some ⟨.array [] :: frames, .firstItem⟩
  | .openObject => some ⟨.object [] :: frames, .firstName⟩
  | _ => none

/-- A token where a name is expected. -/
def name (frames : List Frame) (token : Token) : Option Reading :=
  match frames, token with
  | .object members :: outer, .text s => some ⟨.member members s :: outer, .colon⟩
  | _, _ => none

/-- Closes the innermost array. -/
def closeArray : List Frame → Option Reading
  | .array items :: outer => supply outer (nested outer (.array items.reverse))
  | _ => none

/-- Closes the innermost object. -/
def closeObject : List Frame → Option Reading
  | .object members :: outer => supply outer (nested outer (.object members.reverse))
  | _ => none

/-- A token after a value inside an array or object. -/
def separator (frames : List Frame) : Token → Option Reading
  | .closeArray => closeArray frames
  | .closeObject => closeObject frames
  | .comma => match frames with
    | .array _ :: _ => some ⟨frames, .value⟩
    | .object _ :: _ => some ⟨frames, .name⟩
    | _ => none
  | _ => none

/-- **One token further.** -/
def step (r : Reading) (token : Token) : Option Reading :=
  match r.expect with
  | .value => value r.frames token
  | .firstItem => match token with
    | .closeArray => closeArray r.frames
    | _ => value r.frames token
  | .name => name r.frames token
  | .firstName => match token with
    | .closeObject => closeObject r.frames
    | _ => name r.frames token
  | .colon => match token with
    | .colon => some ⟨r.frames, .value⟩
    | _ => none
  | .separator => separator r.frames token
  | .finish _ => none

/-- All tokens, one after the other. -/
def run : Reading → List Token → Option Reading
  | r, [] => some r
  | r, token :: rest => (r.step token).bind fun r' => r'.run rest

/-- The value that was read, if it is complete. -/
def result? (r : Reading) : Option Draft :=
  match r.expect with
  | .finish v => some v
  | _ => none

end Reading

/-- What a list of tokens spells. -/
def Draft.ofTokens? (tokens : List Token) : Option Draft :=
  (Reading.start.run tokens).bind Reading.result?

/-- **What is written in a text**, of which parts may mean nothing. -/
def Draft.ofText? (cs : List Char) : Option Draft :=
  (Token.scan cs).bind ofTokens?

/-- **The value written in a text**, with repeated members as they stand. -/
def document? (cs : List Char) : Option Json :=
  (Draft.ofText? cs).bind Draft.value?

/-- **The value of a text**: of a repeated member the first place and the last value count. -/
def read? (s : String) : Option Json :=
  (document? s.toList).map merged

end Runbook.Json
