import Runbook.Json.Printer

/-!
# References to outputs

A text may refer to the output of a step, or to one field of it, by a dollar sign and a body in
braces.  A body ends at the first closing brace and holds neither an opening brace nor a caret;
anything else that starts like a reference is plain text.

Substitution replaces every reference of a text at once (`substitute`), so an inserted value is
never searched for references.  It depends on the bound outputs alone.
-/

namespace Runbook

/-- **A reference** to the output of a step, or to a field of that output. -/
structure Reference where
  /-- The step whose output is meant. -/
  step : String
  /-- The field that is meant; without one the whole output is. -/
  field : Option String
deriving DecidableEq

/-- The outputs that steps are bound to. -/
abbrev Bindings := Table Json

namespace Reference

/-- The characters up to the first point, and those after it if there is one. -/
def splitAtPoint : List Char → List Char × Option (List Char)
  | [] => ([], none)
  | c :: rest =>
    if c = '.' then ([], some rest)
    else
      let (before, after) := splitAtPoint rest
      (c :: before, after)

/-- The reference that a body spells: a step, and after a point a field up to the next point. -/
def ofBody (body : List Char) : Reference :=
  let (step, rest) := splitAtPoint body
  ⟨String.ofList step, rest.map fun r => String.ofList (splitAtPoint r).1⟩

/-- A part of a text: a plain character, or the body of a reference. -/
inductive Segment
  | plain (c : Char)
  | body (cs : List Char)
deriving DecidableEq

/-- The body of a reference after its opening brace, and the text after its closing one. -/
def body? : List Char → Option (List Char × List Char)
  | [] => none
  | c :: rest =>
    if c = '\x7d' then some ([], rest)
    else if c = '\x7b' ∨ c = '^' then none
    else (body? rest).map fun (body, tail) => (c :: body, tail)

theorem length_of_body? {cs body tail : List Char} (h : body? cs = some (body, tail)) :
    tail.length < cs.length := by
  induction cs generalizing body tail with
  | nil => cases h
  | cons c rest ih =>
    unfold body? at h
    split at h
    · cases h; simp
    · split at h
      · cases h
      · obtain ⟨⟨x, y⟩, hx, he⟩ := Option.map_eq_some_iff.1 h
        cases he
        have := ih hx
        simp only [List.length_cons]
        omega

/-- **The parts of a text**, from left to right. -/
def segments : List Char → List Segment
  | [] => []
  | '$' :: '\x7b' :: rest =>
    match h : body? rest with
    | some (body, tail) =>
      have _shorter : tail.length < rest.length := length_of_body? h
      .body body :: segments tail
    | none => .plain '$' :: segments ('\x7b' :: rest)
  | c :: rest => .plain c :: segments rest
termination_by cs => cs.length

/-- The references of a list of segments. -/
def ofSegments : List Segment → List Reference
  | [] => []
  | .plain _ :: rest => ofSegments rest
  | .body cs :: rest => ofBody cs :: ofSegments rest

/-- **The references in a text**, in order. -/
def inText (s : String) : List Reference :=
  ofSegments (segments s.toList)

mutual

/-- **The references in the texts of a value**, in order; names of members are not searched. -/
def inValue : Json → List Reference
  | .text s => inText s
  | .array items => inItems items
  | .object members => inMembers members
  | _ => []

/-- The references in a list of values. -/
def inItems : List Json → List Reference
  | [] => []
  | v :: rest => inValue v ++ inItems rest

/-- The references in the values of members. -/
def inMembers : List (String × Json) → List Reference
  | [] => []
  | (_, v) :: rest => inValue v ++ inMembers rest

end

/-! ## Substitution -/

/-- The text for a reference to an output that cannot be used. -/
def noValue : String := "no value"

/-- The text that is appended when substitution only took the braces away. -/
def unresolvedHint : String :=
  "\n [提示]：系统分析您的问题失败，原因可能是: \n①plugin调用不成功" ++
  "\n②LLM参数解析失败，\n③SOP字段配置错误。\n您可以尝试再次输入或者调整您的问题"

/-- **The text that stands for a reference.**  A field of a mapping output is its text, and empty if
it is missing; a whole output is its text.  Anything else has no value. -/
def textIn (bindings : Bindings) (r : Reference) : String :=
  match bindings.get? r.step, r.field with
  | some (.object members), some field =>
    match Table.get? members field with
    | some v => v.display
    | none => ""
  | some .null, none => noValue
  | some v, none => v.display
  | _, _ => noValue

/-- A segment after substitution. -/
def Segment.resolve (bindings : Bindings) : Segment → List Char
  | .plain c => [c]
  | .body cs => ((ofBody cs).textIn bindings).toList

/-- The characters of a text after every reference was replaced. -/
def resolve (bindings : Bindings) (cs : List Char) : List Char :=
  (segments cs).flatMap (Segment.resolve bindings)

/-- A brace of either kind. -/
def isBrace (c : Char) : Bool :=
  c == '\x7b' || c == '\x7d'

/-- Substitution changed nothing but took the braces away. -/
def isUnresolved (source result : List Char) : Bool :=
  source.contains '\x7b' && source.contains '\x7d' &&
    result == source.filter fun c => !isBrace c

/-- **A text with its references replaced**, and the hint after it if that only took braces
away. -/
def substitute (bindings : Bindings) (s : String) : String :=
  let result := resolve bindings s.toList
  if isUnresolved s.toList result then String.ofList result ++ unresolvedHint
  else String.ofList result

mutual

/-- **A value with the references in its texts replaced.** -/
def substituteValue (bindings : Bindings) : Json → Json
  | .text s => .text (substitute bindings s)
  | .array items => .array (substituteItems bindings items)
  | .object members => .object (substituteMembers bindings members)
  | v => v

/-- The items of an array with their references replaced. -/
def substituteItems (bindings : Bindings) : List Json → List Json
  | [] => []
  | v :: rest => substituteValue bindings v :: substituteItems bindings rest

/-- The members of an object with the references in their values replaced. -/
def substituteMembers (bindings : Bindings) : List (String × Json) → List (String × Json)
  | [] => []
  | (k, v) :: rest => (k, substituteValue bindings v) :: substituteMembers bindings rest

end

end Reference

end Runbook
