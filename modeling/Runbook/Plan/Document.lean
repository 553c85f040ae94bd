import Runbook.Plan.Error
import Runbook.Text.Blank
import Runbook.Json.Reader
import Runbook.Yaml.Core

/-!
# Plan documents

A plan is a list of step records.  It is handed over as a text, or as the path of a file that holds
it; a file is read as its extension says, a text as YAML, after the fenced block that may surround
it was cut out (`Document.body`).
-/

namespace Runbook.Plan

/-- **A step record**: the fields that the plan writes for a step, in order. -/
abbrev Record := Table Json

/-- The records of a document, which has to be a list of mappings. -/
def records (v : Json) : Except Error (List Record) :=
  match v with
  | .array items =>
    items.mapM fun item =>
      match item with
      | .object members => .ok members
      | _ => .error .notRecords
  | _ => .error .notRecords

namespace Document

/-! ## Fences -/

/-- Three grave accents, which open and close a block. -/
def fence : List Char := ['\x60', '\x60', '\x60']

/-- What may open a block, in the order in which it is looked for. -/
def openers : List (List Char) :=
  [fence ++ "yaml".toList, fence ++ "json".toList, fence]

/-- What follows the first occurrence of `mark`. -/
def afterFirst? (mark : List Char) : List Char → Option (List Char)
  | [] => if mark.isEmpty then some [] else none
  | c :: rest =>
    if mark.isPrefixOf (c :: rest) then some ((c :: rest).drop mark.length)
    else afterFirst? mark rest

/-- What comes before the last occurrence of `mark`. -/
def beforeLast? (mark : List Char) : List Char → Option (List Char)
  | [] => if mark.isEmpty then some [] else none
  | c :: rest =>
    match beforeLast? mark rest with
    | some before => some (c :: before)
    | none => if mark.isPrefixOf (c :: rest) then some [] else none

/-- The inside of the block that `opener` opens, up to the last fence after it. -/
def block? (opener cs : List Char) : Option (List Char) :=
  (afterFirst? opener cs).bind (beforeLast? fence)

/-- The inside of the fenced block in a text; a text without one is its own inside. -/
def unfence (cs : List Char) : List Char :=
  (openers.findSome? fun opener => block? opener cs).getD cs

/-- The line holds what opens or closes a block, and nothing else. -/
def isFenceLine (line : List Char) : Bool :=
  openers.contains (Text.trim line)

/-- The lines without the fence lines at both ends. -/
def dropFenceLines (ls : List (List Char)) : List (List Char) :=
  ((ls.dropWhile isFenceLine).reverse.dropWhile isFenceLine).reverse

/-- **The part of a plan text that is read**: the inside of its fenced block, without empty lines
and fence lines around it. -/
def body (cs : List Char) : List Char :=
  Text.joinLines (dropFenceLines (Text.lines (Text.trimWhile (· == '\n') (unfence cs))))

/-! ## Reading -/

/-- **The records of a plan text.** -/
def ofText (s : String) : Except Error (List Record) :=
  match Yaml.read? (String.ofList (body s.toList)) with
  | some v => records v
  | none => .error .malformedText

/-- What the text of a file is. -/
inductive Format
  | yaml
  | json

/-- The format that a path's extension names, whatever its case. -/
def Format.ofPath? (path : String) : Option Format :=
  match (Files.extension? path).map fun e => String.ofList (e.toList.map Char.toLower) with
  | some "yaml" => some .yaml
  | some "yml" => some .yaml
  | some "json" => some .json
  | _ => none

/-- The value of a text in a format. -/
def Format.read? (format : Format) (s : String) : Option Json :=
  match format with
  | yaml => Yaml.read? s
  | json => Json.read? s

/-- **The records of a plan file.** -/
def ofFile (files : Files) (path : String) : Except Error (List Record) :=
  match Format.ofPath? path with
  | none => .error (.unsupportedFile path)
  | some format =>
    match files.readText path with
    | .error fault => .error (.unreadable path fault)
    | .ok s =>
      match format.read? s with
      | none => .error (.malformedFile path)
      | some v => records v

/-- **The records of a plan**: of the file that it names, if it is a single line that names one,
else of the text itself. -/
def load (files : Files) (content : String) : Except Error (List Record) :=
  let path := String.ofList (Text.trim content.toList)
  if !content.toList.contains '\n' && files.isFile path then ofFile files path
  else ofText content

end Document

end Runbook.Plan
