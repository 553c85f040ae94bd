/-!
# Tokens of a YAML text

The tokens between which the structure of a text is decided.  Indentation shows as the start and
end of block collections; a key without its indicator has a token of its own.
-/

namespace Runbook.Yaml

/-- How a scalar is written, as far as it matters for its meaning. -/
inductive Style
  /-- Without quotes; the text decides the type. -/
  | plain
  /-- Between quotes or as a folded block; the value is a text. -/
  | quoted
  /-- As a block whose lines are kept; the value is a text. -/
  | literal
deriving DecidableEq

/-- A tag as it is written: a handle, and what follows it. -/
structure TagName where
  /-- The handle; empty for a tag that is written in full. -/
  handle : String
  /-- The octets that follow the handle. -/
  suffix : List UInt8
deriving DecidableEq

/-- **A token.** -/
inductive Token
  | version (major minor : Nat)
  | tagDirective (handle : String) (leading : List UInt8)
  | documentStart
  | documentEnd
  | streamEnd
  | blockSequenceStart
  | blockMappingStart
  | blockEnd
  | flowSequenceStart
  | flowSequenceEnd
  | flowMappingStart
  | flowMappingEnd
  | blockEntry
  | flowEntry
  | key
  | value
  | alias (name : String)
  | anchor (name : String)
  | tag (name : TagName)
  | scalar (text : String) (style : Style)
deriving DecidableEq, Inhabited

end Runbook.Yaml
