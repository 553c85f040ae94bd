import Runbook.Text.Blank

/-!
# Prompt templates

A template holds variables between double braces.  There are two of them, the name of a step and
its input; they are replaced in one pass from left to right, so what is written for a variable is
never read again, whatever braces it holds.
-/

namespace Runbook.Prompt

/-- **Why a template cannot be expanded.** -/
inductive Error
  /-- Braces that open at this byte of the expanded text are never closed. -/
  | unclosed (position : Nat)
  /-- There is no variable of this name. -/
  | unknownVariable (name : String)
deriving DecidableEq

/-- The message of an error. -/
def Error.message : Error → String
  | unclosed position => s!"unclosed template at position {position}"
  | unknownVariable name => s!"unknown template variable: {name}"

/-- The text before the first pair of closing braces, and the text after it. -/
def splitAtClose : List Char → Option (List Char × List Char)
  | '\x7d' :: '\x7d' :: rest => some ([], rest)
  | c :: rest => (splitAtClose rest).map fun (before, after) => (c :: before, after)
  | [] => none

theorem length_of_splitAtClose {cs before after : List Char}
    (h : splitAtClose cs = some (before, after)) : after.length < cs.length := by
  fun_induction splitAtClose cs generalizing before after with
  | case1 rest => cases h; simp only [List.length_cons]; omega
  | case2 c rest _ ih =>
    obtain ⟨⟨x, y⟩, hx, he⟩ := Option.map_eq_some_iff.1 h
    cases he
    have := ih hx
    simp only [List.length_cons]
    omega
  | case3 => cases h

/-- What a variable stands for. -/
def valueOf (name input : String) (key : List Char) : Except Error String :=
  match String.ofList (Text.trim key) with
  | "Operation.name" => .ok name
  | "Operation.input" => .ok input
  | other => .error (.unknownVariable other)

/-- The expansion of the rest of a template, after `written` bytes of the result. -/
def expandFrom (name input : String) (written : Nat) : List Char → Except Error (List Char)
  | [] => .ok []
  | '\x7b' :: '\x7b' :: rest =>
    match h : splitAtClose rest with
    | none => .error (.unclosed written)
    | some (key, tail) =>
      have _shorter : tail.length < rest.length := length_of_splitAtClose h
      match valueOf name input key with
      | .error e => .error e
      | .ok value =>
        (expandFrom name input (written + value.utf8ByteSize) tail).map (value.toList ++ ·)
  | c :: rest => (expandFrom name input (written + c.utf8Size) rest).map (c :: ·)
termination_by cs => cs.length

/-- **The text that a template expands to** for a step's name and input. -/
def expand (template name input : String) : Except Error String :=
  (expandFrom name input 0 template.toList).map String.ofList

/-- The template of a step that declares none. -/
def standard : String :=
  "当前任务：[\x7b\x7bOperation.name\x7d\x7d]，相关参数信息如下：\x7b\x7bOperation.input\x7d\x7d"

end Runbook.Prompt
