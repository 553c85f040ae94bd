import Runbook.Files
import Runbook.Json.Printer

/-!
# Why a plan cannot be used

The causes for which a plan document gives no steps, and their messages.
-/

namespace Runbook.Plan

/-- **Why a plan document gives no steps.** -/
inductive Error
  /-- The extension of the file is none of those of plans. -/
  | unsupportedFile (path : String)
  /-- The file cannot be read. -/
  | unreadable (path : String) (fault : Files.Fault)
  /-- The text of the file is not what its extension says. -/
  | malformedFile (path : String)
  /-- The document is not a list of mappings. -/
  | notRecords
  /-- The plan text is not a document. -/
  | malformedText
  /-- The input of the record at this place is not a mapping. -/
  | malformedStep (index : Nat) (input : Json)

/-- What is said about a text that cannot be read as a document. -/
def notADocument : String := "not a document"

/-- The message of an error. -/
def Error.message : Error → String
  | unsupportedFile path =>
    s!"The type of file {path} is not supported, only json or yaml is fine"
  | unreadable path fault =>
    s!"Failed to read the file {path}: Error message: {fault.message}"
  | malformedFile path => s!"Failed to read the file {path}: Error message: {notADocument}"
  | notRecords => "The content cannot be converted to dict format."
  | malformedText => s!"Loading content with YAML error: {notADocument}"
  | malformedStep index input =>
    s!"step {index} is malformed: input must be a mapping, got {input.compact}"

end Runbook.Plan
