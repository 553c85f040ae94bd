/-!
# Tags

A tag names the type of a node.  It is a list of octets, for a percent sign and two digits may
spell any octet, and it ends before the first zero octet.  Four tags name types of the core; a tag
that starts with an exclamation mark names a type of another origin.
-/

namespace Runbook.Yaml

/-- The octets of a text. -/
def octets (s : String) : List UInt8 := s.toUTF8.toList

/-- The octets before the first zero. -/
def beforeZero (name : List UInt8) : List UInt8 := name.takeWhile (· != 0)

/-- The exclamation mark. -/
def exclamationMark : UInt8 := 0x21

/-- **What a tag says of a node.** -/
inductive Tag
  | nothing
  | boolean
  | integer
  | real
  /-- A type of another origin, which has no meaning here. -/
  | foreign
  /-- A type of another origin whose name is no text. -/
  | garbled
  /-- Any other tag. -/
  | other
deriving DecidableEq

namespace Tag

/-- The first part of the names of core tags. -/
def core : List UInt8 := octets "tag:yaml.org,2002:"

/-- **The tag of a name.** -/
def ofOctets (name : List UInt8) : Tag :=
  if name == core ++ octets "null" then nothing
  else if name == core ++ octets "bool" then boolean
  else if name == core ++ octets "int" then integer
  else if name == core ++ octets "float" then real
  else
    match name with
    | [] => other
    | first :: rest =>
      if first != exclamationMark then other
      else if (String.fromUTF8? ⟨rest.toArray⟩).isSome then foreign
      else garbled

end Tag

end Runbook.Yaml
