import Runbook.Plan.Order
import Runbook.Reference
import Runbook.Tool.Toolbox

/-!
# Checking a plan

What is wrong with the records of a plan, given the tools there are.  Nothing here keeps a plan from
being run, and one finding does not keep others from being made: names are looked at first, then
each record on its own, then cycles of dependencies.
-/

namespace Runbook.Plan

/-- **Something that is wrong with a record.** -/
inductive Finding
  /-- The name or the tool is missing. -/
  | incomplete
  /-- An earlier record has the name. -/
  | duplicateName (name : String)
  /-- A dependency is on a name that no record has. -/
  | unknownDependency (step : String)
  /-- The input is not a mapping. -/
  | inputNotMapping (input : Json)
  /-- There is no such tool. -/
  | unknownTool (tool : String)
  /-- The tool has no such parameter. -/
  | extraParameter (parameter tool : String)
  /-- The output of a step is used that is no dependency. -/
  | undeclaredUse (step : String)
  /-- A field is used that the step's tool does not give. -/
  | unknownField (field step : String)
  /-- The dependencies form a cycle. -/
  | cycle (members : List String)

/-- The message of a finding. -/
def Finding.message : Finding → String
  | incomplete =>
    "some nodes did not assign a value to a necessary parameter [name] and [toolname]."
  | duplicateName name => s!"the Node name {name} is duplicated."
  | unknownDependency step =>
    s!"The current node depends on node {step} that does not exist in the plan."
  | inputNotMapping input =>
    s!"The input must be a mapping of parameter names, got {input.compact}."
  | unknownTool tool => s!"The tool {tool} doesn't exist."
  | extraParameter parameter tool =>
    s!"Additional parameters {parameter} were input during the calling tool {tool}."
  | undeclaredUse step =>
    s!"The output of node {step} is being used, but it is not within the dependency"
  | unknownField field step =>
    s!"These parameters {field} do not exist in the output of the node {step}."
  | cycle members =>
    "The dependencies of this node form a cycle: " ++ " -> ".intercalate members ++ "."

namespace Check

/-- The text of a field that is there and not blank. -/
def textOf? (r : Record) (field : String) : Option String :=
  match Step.field? r field with
  | none => none
  | some v => if Text.isBlankText v.display then none else some v.display

/-- Under which name findings about a record are kept. -/
def key (r : Record) : String :=
  (textOf? r "name").getD "None"

/-- A finding, and the name under which it is kept. -/
abbrev Note := String × Finding

/-! ## Names -/

/-- The records by name: of each name the first that has a tool. -/
def known (records : List Record) : Table Record :=
  records.foldl
    (fun t r =>
      match textOf? r "name", textOf? r "toolname" with
      | some name, some _ => if t.contains name then t else t.put name r
      | _, _ => t)
    []

/-- What is wrong with the name of a record, given those known before it. -/
def nameNotes (before : Table Record) (r : Record) : List Note :=
  let missing := (textOf? r "name").isNone || (textOf? r "toolname").isNone
  (if missing then [(key r, .incomplete)] else []) ++
    match textOf? r "name" with
    | some name => if before.contains name then [(name, .duplicateName name)] else []
    | none => []

/-- What is wrong with the names of records, the first of which come after `before`. -/
def allNameNotes (before : List Record) : List Record → List Note
  | [] => []
  | r :: rest => nameNotes (known before) r ++ allNameNotes (before ++ [r]) rest

/-! ## Records -/

/-- The tool of a step gives a field; so does one that nothing is known of. -/
def gives (box : Toolbox) (records : Table Record) (step field : String) : Bool :=
  match ((records.get? step).bind fun r => textOf? r "toolname").bind box.spec? with
  | some spec => spec.outputs.contains field
  | none => true

/-- What is wrong with a reference in a record with these dependencies. -/
def referenceNotes (box : Toolbox) (records : Table Record) (dependencies : NameSet)
    (x : Reference) : List Finding :=
  (if dependencies.contains x.step then [] else [.undeclaredUse x.step]) ++
    match x.field with
    | some field =>
      if gives box records x.step field then [] else [.unknownField field x.step]
    | none => []

/-- What is wrong with a parameter and its value; `null` is never looked at. -/
def parameterNotes (box : Toolbox) (records : Table Record) (dependencies : NameSet)
    (tool : String) (spec : Tool.Spec) (parameter : String) (v : Json) : List Finding :=
  if v.isNull then []
  else
    (if spec.inputs.contains parameter then [] else [.extraParameter parameter tool]) ++
      (Reference.inValue v).flatMap (referenceNotes box records dependencies)

/-- The parameters that a record gives values to. -/
def inputMembers (r : Record) : Table Json :=
  match r.get? "input" with
  | some (.object members) => members
  | _ => []

/-- What is wrong with the input of a record as a whole. -/
def inputNotes (r : Record) : List Finding :=
  match Step.field? r "input" with
  | none => []
  | some (.object _) => []
  | some v => [.inputNotMapping v]

/-- What is wrong with the tool of a record and the parameters for it. -/
def toolNotes (box : Toolbox) (records : Table Record) (dependencies : NameSet) (r : Record) :
    List Finding :=
  match textOf? r "toolname" with
  | none => []
  | some tool =>
    match box.spec? tool with
    | none => [.unknownTool tool]
    | some spec =>
      (inputMembers r).flatMap fun (parameter, v) =>
        parameterNotes box records dependencies tool spec parameter v

/-- **What is wrong with a record**, whatever its name. -/
def recordNotes (box : Toolbox) (records : Table Record) (r : Record) : List Finding :=
  let dependencies := Step.dependencyNames (r.get? "dependency")
  (dependencies.toList.filter fun d => !records.contains d).map .unknownDependency ++
    inputNotes r ++ toolNotes box records dependencies r

/-! ## Cycles -/

/-- The graph of the records that describe steps. -/
def graph (records : Table Record) : Graph :=
  Graph.ofSteps (records.values.filterMap fun r => (Step.ofRecord 0 r).toOption)

/-- The findings about cycles, one for each step that is on a cycle or behind one. -/
def cycleNotes (records : Table Record) : List Note :=
  let members := (graph records).cycleMembers
  members.map fun name => (name, .cycle members)

/-- **All findings about the records of a plan**, in the order in which they are made. -/
def notes (box : Toolbox) (records : List Record) : List Note :=
  let table := known records
  allNameNotes [] records ++
    records.flatMap (fun r => (recordNotes box table r).map fun f => (key r, f)) ++
    cycleNotes table

end Check

/-- **The findings about a plan**, by name, in the order of the first finding for each name. -/
abbrev Findings := Table (List Finding)

namespace Findings

/-- Adds a finding under a name. -/
def add (t : Findings) (note : Check.Note) : Findings :=
  t.put note.1 ((t.get? note.1).getD [] ++ [note.2])

/-- The findings of a list of notes. -/
def ofNotes (notes : List Check.Note) : Findings :=
  notes.foldl add []

/-- **The findings about the records of a plan.** -/
def ofRecords (box : Toolbox) (records : List Record) : Findings :=
  ofNotes (Check.notes box records)

/-- The paragraph of a report for one name, with its number. -/
def paragraph (number : Nat) (entry : String × List Finding) : String :=
  s!"{number}. 步骤{entry.1}的生成存在以下几个问题：\n" ++
    "\n".intercalate (entry.2.map Finding.message) ++ "\n"

/-- The paragraphs of a report, numbered from `number` on. -/
def paragraphs (number : Nat) : Findings → List String
  | [] => []
  | entry :: rest => paragraph number entry :: paragraphs (number + 1) rest

/-- **The report of findings**; without any it is empty. -/
def report (t : Findings) : String :=
  String.join (paragraphs 1 t)

end Findings

/-- **Checks a plan**: whether it is valid, and what is wrong with it. -/
def check (box : Toolbox) (files : Files) (content : String) : Bool × String :=
  match Document.load files content with
  | .error e => (false, e.message)
  | .ok records =>
    let report := (Findings.ofRecords box records).report
    (report.isEmpty, report)

end Runbook.Plan
