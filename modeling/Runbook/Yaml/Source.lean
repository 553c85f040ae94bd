import Runbook.Source
import Runbook.Yaml.Core

/-!
# Records in YAML

What a YAML node is when a record is read from it.  A text may be any scalar, whatever its quotes;
flags and numbers are plain scalars, or literal blocks that carry the tag of the type.  An empty
plain scalar is an empty mapping, and the fields of a record always have names.

An alias is followed where the node that it stands for is wanted, and nowhere else: a node that no
field reads may hold itself, and may be nested as deeply as it likes.
-/

namespace Runbook.Yaml

/-- The text of a natural number of at most 64 bits. -/
def unsigned? (cs : List Char) : Option Nat :=
  let n := match cs with
    | '+' :: rest => (marked? rest).or (decimal? cs rest)
    | _ => (marked? cs).or (decimal? cs cs)
  n.bind fun n => if n < 18446744073709551616 then some n else none

namespace Node

/-- The text of a scalar of which the type of a core tag is wanted. -/
def typed? (type : Tag) : Node → Option String
  | .scalar tag text style =>
    if style = .plain || (style = .literal && tag = some type) then some text else none
  | _ => none

/-- The truth value of a scalar. -/
def flag? (n : Node) : Option Bool :=
  (n.typed? .boolean).bind boolean?

/-- The natural number of a scalar. -/
def natural? (n : Node) : Option Nat :=
  (n.typed? .integer).bind fun s => unsigned? s.toList

/-- The node, which may be nothing.  A plain scalar that has a tag is nothing only under the tag
for it. -/
def optional? : Node → Option (Option Node)
  | .scalar none text .plain =>
    if text.isEmpty || isNullWord text then some none else some (some (.scalar none text .plain))
  | .scalar (some .nothing) text .plain => if isNullWord text then some none else none
  | n => some (some n)

/-- The entries of a mapping. -/
def entries? : Node → Option (List (Node × Node))
  | .mapping _ entries => some entries
  | .scalar _ text .plain => if text.isEmpty then some [] else none
  | _ => none

/-- **A node of a document**, with the nodes that its aliases stand for. -/
structure Linked where
  /-- The nodes that aliases stand for, by slot. -/
  slots : List (Nat × Node)
  /-- The node, which may be an alias. -/
  node : Node

namespace Linked

/-- What the node gives, after its alias is followed. -/
def view {α : Type} (f : Node → Option α) (d : Linked) : Expansion α := do
  Source.orFail (f (← target d.slots d.node))

/-- The entries of a mapping, whose names are scalars. -/
def members (d : Linked) : Expansion (List (String × Linked)) := do
  (← d.view entries?).mapM fun (k, n) => do
    return (← view scalarText? ⟨d.slots, k⟩, ⟨d.slots, n⟩)

instance : Source Linked Expansion where
  text := view scalarText?
  flag := view flag?
  natural := view natural?
  optional d := do return (← d.view optional?).map fun n => ⟨d.slots, n⟩
  members := members
  inOrder? _ := none

end Linked

end Node

/-- What a text in YAML spells, of which `read` reads what it wants; a text without content is an
empty scalar. -/
def decode? {α : Type} (read : Node.Linked → Node.Expansion α) (s : String) : Option α := do
  let document ← Node.Document.ofText? s.toList
  let root := document.root.getD Node.empty
  return (← (read ⟨document.slots, root⟩).run root.expansions).1

end Runbook.Yaml
