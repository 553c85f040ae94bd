import Runbook.Table
import Runbook.Yaml.Scan

/-!
# The structure of a YAML document

A document is a tree of scalars, sequences and mappings, in which an alias stands for the node that
its anchor marks.  A text holds one document at most.

An anchor takes a slot, numbered by how many different names were anchored before it, and an alias
refers to the slot of the last anchor of its name.  A slot stands for the last node that took it.
-/

namespace Runbook.Yaml

/-- **A node of a document.**  Tags are resolved; aliases are not. -/
inductive Node
  | scalar (tag : Option Tag) (text : String) (style : Style)
  | sequence (tag : Option Tag) (items : List Node)
  | mapping (tag : Option Tag) (entries : List (Node × Node))
  | alias (slot : Nat)

namespace Node

/-- An empty plain scalar, which stands wherever content is left out. -/
def empty : Node := .scalar none "" .plain

instance : Inhabited Node := ⟨empty⟩

/-- **The state of a reading**: the tokens that are left, and what was anchored so far. -/
structure Reading where
  /-- The tokens that are left. -/
  tokens : List Token
  /-- The tag handles of the document, each with the octets it stands for. -/
  handles : Table (List UInt8)
  /-- The slot of the last anchor of every name. -/
  names : Table Nat
  /-- The number of anchors so far. -/
  anchors : Nat
  /-- The anchors and the slots they took, the last one first. -/
  slots : List (Nat × Nat)
  /-- The node of every anchor whose node is complete. -/
  nodes : List (Nat × Node)

/-- A reader of nodes. -/
abbrev Reader := StateT Reading Option

namespace Reader

/-- The next token; the end of the stream where there is none. -/
def peek : Reader Token := do
  match (← get).tokens with
  | [] => return .streamEnd
  | t :: _ => return t

/-- Passes the next token. -/
def skip : Reader Unit :=
  modify fun s => { s with tokens := s.tokens.tail }

/-- The tag that a written tag names. -/
def resolveTag (name : TagName) : Reader Tag := do
  if name.handle.isEmpty then return .ofOctets name.suffix
  match (← get).handles.get? name.handle with
  | some leading => return .ofOctets (leading ++ name.suffix)
  | none => failure

/-- Gives an anchor its slot, and the number of the anchor. -/
def anchor (name : String) : Reader Nat := do
  let s ← get
  let slot := s.names.length
  set { s with
    names := s.names.put name slot
    anchors := s.anchors + 1
    slots := (s.anchors, slot) :: s.slots }
  return s.anchors

/-- Records the node of an anchor. -/
def record (anchor : Option Nat) (node : Node) : Reader Node := do
  match anchor with
  | some n => modify fun s => { s with nodes := (n, node) :: s.nodes }
  | none => pure ()
  return node

/-- The anchor and the tag before a node, in either order. -/
def properties : Reader (Option String × Option Tag) := do
  match ← peek with
  | .anchor name =>
    skip
    match ← peek with
    | .tag t => do skip; return (some name, some (← resolveTag t))
    | _ => return (some name, none)
  | .tag t =>
    skip
    match ← peek with
    | .anchor name => do skip; return (some name, some (← resolveTag t))
    | _ => return (none, some (← resolveTag t))
  | _ => return (none, none)

/-- The token cannot start the node that a block entry or a block key may have. -/
def endsBlockNode : Token → Bool
  | .key => true
  | .value => true
  | .blockEnd => true
  | _ => false

mutual

/-- A node.  Block collections are allowed in a block, and a sequence without indentation as a
value of a block mapping. -/
def node (block indentless : Bool) : Nat → Reader Node
  | 0 => failure
  | fuel + 1 => do
    match ← peek with
    | .alias name =>
      skip
      match (← get).names.get? name with
      | some slot => return .alias slot
      | none => failure
    | _ =>
      let (anchorName, tag) ← properties
      let register : Reader (Option Nat) := anchorName.mapM anchor
      match ← peek with
      | .blockEntry =>
        if indentless then
          let n ← register
          record n (.sequence tag (← indentlessItems fuel))
        else if anchorName.isSome || tag.isSome then
          record (← register) (.scalar tag "" .plain)
        else failure
      | .scalar text style =>
        skip
        record (← register) (.scalar tag text style)
      | .flowSequenceStart =>
        skip
        let n ← register
        record n (.sequence tag (← flowItems true fuel))
      | .flowMappingStart =>
        skip
        let n ← register
        record n (.mapping tag (← flowEntries true fuel))
      | .blockSequenceStart =>
        if block then
          skip
          let n ← register
          record n (.sequence tag (← blockItems fuel))
        else if anchorName.isSome || tag.isSome then
          record (← register) (.scalar tag "" .plain)
        else failure
      | .blockMappingStart =>
        if block then
          skip
          let n ← register
          record n (.mapping tag (← blockEntries fuel))
        else if anchorName.isSome || tag.isSome then
          record (← register) (.scalar tag "" .plain)
        else failure
      | _ =>
        if anchorName.isSome || tag.isSome then
          record (← register) (.scalar tag "" .plain)
        else failure

/-- The items of a block sequence, to its end. -/
def blockItems : Nat → Reader (List Node)
  | 0 => failure
  | fuel + 1 => do
    match ← peek with
    | .blockEntry =>
      skip
      let item ← match ← peek with
        | .blockEntry => pure empty
        | .blockEnd => pure empty
        | _ => node true false fuel
      return item :: (← blockItems fuel)
    | .blockEnd => do skip; return []
    | _ => failure

/-- The items of a block sequence without indentation, up to the first token that is no item. -/
def indentlessItems : Nat → Reader (List Node)
  | 0 => failure
  | fuel + 1 => do
    match ← peek with
    | .blockEntry =>
      skip
      let t ← peek
      let item ← if t == .blockEntry || endsBlockNode t then pure empty else node true false fuel
      return item :: (← indentlessItems fuel)
    | _ => return []

/-- The entries of a block mapping, to its end. -/
def blockEntries : Nat → Reader (List (Node × Node))
  | 0 => failure
  | fuel + 1 => do
    match ← peek with
    | .key =>
      skip
      let key ← if endsBlockNode (← peek) then pure empty else node true true fuel
      let value ← match ← peek with
        | .value => do
          skip
          if endsBlockNode (← peek) then pure empty else node true true fuel
        | _ => pure empty
      return (key, value) :: (← blockEntries fuel)
    | .blockEnd => do skip; return []
    | _ => failure

/-- The items of a flow sequence, to its end; after the first a comma stands before each.  An item
may be a mapping of one entry without braces. -/
def flowItems (first : Bool) : Nat → Reader (List Node)
  | 0 => failure
  | fuel + 1 => do
    if (← peek) == .flowSequenceEnd then do skip; return []
    else
      if !first then
        if (← peek) == .flowEntry then skip else failure
      match ← peek with
      | .key =>
        skip
        let t ← peek
        let key ← if t == .value || t == .flowEntry || t == .flowSequenceEnd then do
            skip; pure empty
          else node false false fuel
        let value ← match ← peek with
          | .value => do
            skip
            let t ← peek
            if t == .flowEntry || t == .flowSequenceEnd then pure empty
            else node false false fuel
          | _ => pure empty
        return .mapping none [(key, value)] :: (← flowItems false fuel)
      | .flowSequenceEnd => do skip; return []
      | _ => do
        let item ← node false false fuel
        return item :: (← flowItems false fuel)

/-- The entries of a flow mapping, to its end; after the first a comma stands before each. -/
def flowEntries (first : Bool) : Nat → Reader (List (Node × Node))
  | 0 => failure
  | fuel + 1 => do
    if (← peek) == .flowMappingEnd then do skip; return []
    else
      if !first then
        if (← peek) == .flowEntry then skip else failure
      match ← peek with
      | .key =>
        skip
        let t ← peek
        let key ← if t == .value || t == .flowEntry || t == .flowMappingEnd then pure empty
          else node false false fuel
        let value ← match ← peek with
          | .value => do
            skip
            let t ← peek
            if t == .flowEntry || t == .flowMappingEnd then pure empty
            else node false false fuel
          | _ => pure empty
        return (key, value) :: (← flowEntries false fuel)
      | .flowMappingEnd => do skip; return []
      | _ => do
        let key ← node false false fuel
        return (key, empty) :: (← flowEntries false fuel)

end

/-- The directives before a document: at most one version, which must be 1.1 or 1.2, and one prefix
for a handle. -/
def directives : Nat → Bool → Reader Unit
  | 0, _ => failure
  | fuel + 1, versioned => do
    match ← peek with
    | .version major minor =>
      if versioned || major != 1 || !(minor == 1 || minor == 2) then failure
      else do skip; directives fuel true
    | .tagDirective handle leading =>
      let s ← get
      if s.handles.contains handle then failure
      else do
        set { s with handles := s.handles.put handle leading }
        skip
        directives fuel versioned
    | _ => return ()

/-- The handles that need no directive. -/
def standardHandles : Table (List UInt8) := [("!", [exclamationMark]), ("!!", Tag.core)]

/-- Adds the handles that need no directive. -/
def addStandardHandles : Reader Unit :=
  modify fun s =>
    let add (t : Table (List UInt8)) (h : String × List UInt8) :=
      if t.contains h.1 then t else t.put h.1 h.2
    { s with handles := standardHandles.foldl add s.handles }

/-- The root of the document, `none` if the text holds no document. -/
def root (fuel : Nat) : Reader (Option Node) := do
  match ← peek with
  | .streamEnd => return none
  | .documentStart => explicit fuel
  | .version .. => explicit fuel
  | .tagDirective .. => explicit fuel
  | _ =>
    addStandardHandles
    return some (← node true false fuel)
where
  explicit (fuel : Nat) : Reader (Option Node) := do
    directives fuel false
    addStandardHandles
    match ← peek with
    | .documentStart =>
      skip
      match ← peek with
      | .version .. => return some empty
      | .tagDirective .. => return some empty
      | .documentStart => return some empty
      | .documentEnd => return some empty
      | .streamEnd => return some empty
      | _ => return some (← node true false fuel)
    | _ => failure

/-- Nothing but ends of the document may follow it. -/
def finish : Reader Unit := do
  let rest := (← get).tokens.dropWhile (· == .documentEnd)
  if rest == [.streamEnd] then return () else failure

end Reader

/-- **A document**: its root, and the nodes that aliases refer to, by slot. -/
structure Document where
  /-- The root; a text without content has none. -/
  root : Option Node
  /-- The last node that took each slot. -/
  slots : List (Nat × Node)

/-- The node that each slot stands for, the last anchor of a slot first. -/
def slotNodes (slots : List (Nat × Nat)) (nodes : List (Nat × Node)) : List (Nat × Node) :=
  slots.filterMap fun (anchor, slot) => (nodes.lookup anchor).map fun node => (slot, node)

/-- **The document of a text.** -/
def Document.ofText? (cs : List Char) : Option Document := do
  let tokens ← Token.ofText? cs
  let fuel := 2 * tokens.length + 4
  let (root, reading) ← (do
    let root ← Reader.root fuel
    Reader.finish
    return root : Reader (Option Node)).run ⟨tokens, [], [], 0, [], []⟩
  return ⟨root, slotNodes reading.slots reading.nodes⟩

/-! ## Aliases -/

/-- The most collections that may enclose a node. -/
def maxNesting : Nat := 128

mutual

/-- The number of places of a node at which something starts or ends. -/
def events : Node → Nat
  | .scalar .. => 1
  | .alias _ => 1
  | .sequence _ items => 2 + itemEvents items
  | .mapping _ entries => 2 + entryEvents entries

/-- The places of the items of a sequence. -/
def itemEvents : List Node → Nat
  | [] => 0
  | n :: rest => n.events + itemEvents rest

/-- The places of the entries of a mapping. -/
def entryEvents : List (Node × Node) → Nat
  | [] => 0
  | (k, v) :: rest => k.events + v.events + entryEvents rest

end

/-- Counting down the aliases that may still be followed. -/
abbrev Expansion := StateT Nat Option

/-- Follows one more alias, if one may be followed. -/
def follow : Expansion Unit := do
  match ← get with
  | 0 => failure
  | n + 1 => set n

/-- The nodes in order, expanded by `f`. -/
def expandItems (f : Node → Expansion Node) : List Node → Expansion (List Node)
  | [] => return []
  | n :: rest => do
    let m ← f n
    return m :: (← expandItems f rest)

/-- The entries in order, expanded by `f`. -/
def expandEntries (f : Node → Expansion Node) :
    List (Node × Node) → Expansion (List (Node × Node))
  | [] => return []
  | (k, v) :: rest => do
    let k' ← f k
    let v' ← f v
    return (k', v') :: (← expandEntries f rest)

/-- The node that an alias stands for; any other node stands for itself. -/
def target (slots : List (Nat × Node)) : Node → Expansion Node
  | .alias slot => do
    follow
    match slots.lookup slot with
    | none => failure
    | some n => return n
  | n => return n

/-- A node without aliases, below which `depth` more collections may be nested. -/
def expand (slots : List (Nat × Node)) (depth : Nat) (n : Node) : Expansion Node := do
  match depth, ← target slots n with
  | _, .scalar tag text style => return .scalar tag text style
  | depth + 1, .sequence tag items =>
    return .sequence tag (← expandItems (expand slots depth) items)
  | depth + 1, .mapping tag entries =>
    return .mapping tag (← expandEntries (expand slots depth) entries)
  | _, _ => failure

/-- The number of aliases that may be followed in a document with this root: a hundred times the
number of its places. -/
def expansions (root : Node) : Nat := 100 * root.events

/-- **The root of a document with its aliases replaced**, in which nesting stops at
`maxNesting`. -/
def Document.expanded? (d : Document) : Option (Option Node) :=
  match d.root with
  | none => some none
  | some root => ((expand d.slots maxNesting root).run root.expansions).map fun r => some r.1

end Node

end Runbook.Yaml
