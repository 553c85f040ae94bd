import Runbook.Yaml.Scalar
import Runbook.Yaml.Tag
import Runbook.Yaml.Token

/-!
# Anchors, tags and directives

The marks of a YAML text that are not content: anchors and aliases, tags, and the directives before
a document.
-/

namespace Runbook.Yaml

/-! ## Anchors -/

/-- A character that may follow an anchor or alias. -/
def endsAnchor (c : Char) : Bool :=
  isBlank c || isBreak c || "?:,]\x7d%@`".toList.contains c

/-- The name of the anchor or alias at a place, after its indicator. -/
def anchorName (c : Cursor) : Option (String × Cursor) :=
  let (name, next) := (c.skip 1).span isNameChar
  if name.isEmpty || !next.peek.all endsAnchor then none
  else some (String.ofList name, next)

/-! ## Tags -/

/-- A character of a tag outside an escape; brackets and commas only where `full` allows them. -/
def isTagChar (full : Bool) (c : Char) : Bool :=
  isNameChar c || ";/?:@&=+$.!~*'()".toList.contains c || (full && ",[]".toList.contains c)

/-- One escaped octet: a percent sign and two hexadecimal digits. -/
def escapedOctet? (c : Cursor) : Option (UInt8 × Cursor) :=
  match c.rest with
  | '%' :: a :: b :: _ => (hexNumber? [a, b]).map fun n => (n.toUInt8, c.skip 3)
  | _ => none

/-- The number of octets of a character that starts with this octet. -/
def utf8Width? (octet : UInt8) : Option Nat :=
  if octet < 0x80 then some 1
  else if octet < 0xC0 then none
  else if octet < 0xE0 then some 2
  else if octet < 0xF0 then some 3
  else if octet < 0xF8 then some 4
  else none

/-- So many escaped octets at a place, each of which goes on with a character. -/
def trailingOctets? : Nat → Cursor → Option (List UInt8 × Cursor)
  | 0, c => some ([], c)
  | n + 1, c => do
    let (octet, c) ← escapedOctet? c
    if octet < 0x80 || 0xC0 ≤ octet then none
    else
      let (rest, c) ← trailingOctets? n c
      return (octet :: rest, c)

/-- The escaped octets at a place that have the form of one character. -/
def escapedOctets? (c : Cursor) : Option (List UInt8 × Cursor) := do
  let (first, c) ← escapedOctet? c
  let width ← utf8Width? first
  let (rest, c) ← trailingOctets? (width - 1) c
  return (first :: rest, c)

/-- The octets of a tag at a place, after those of `text` in reverse, and the place after them. -/
def tagSteps (full : Bool) : Nat → List UInt8 → Cursor → Option (List UInt8 × Cursor)
  | 0, text, c => some (text, c)
  | fuel + 1, text, c =>
    match c.peek with
    | none => some (text, c)
    | some '%' =>
      (escapedOctets? c).bind fun (more, c) => tagSteps full fuel (more.reverse ++ text) c
    | some x =>
      if isTagChar full x then tagSteps full fuel (x.toNat.toUInt8 :: text) (c.skip 1)
      else some (text, c)

/-- The octets of a tag at a place and the place after them. -/
def tagText (full : Bool) (c : Cursor) : Option (List UInt8 × Cursor) :=
  (tagSteps full c.left [] c).map fun (text, c) => (text.reverse, c)

/-- The characters of a handle at a place: an exclamation mark, a name, and perhaps another
exclamation mark. -/
def handleText (c : Cursor) : Option (List Char × Cursor) :=
  if !c.is '!' then none
  else
    let (name, next) := (c.skip 1).span isNameChar
    if next.is '!' then some ('!' :: name ++ ['!'], next.skip 1) else some ('!' :: name, next)

/-- The tag `!`, which names no type. -/
def bareTag : TagName := ⟨"", [exclamationMark]⟩

/-- **The tag at a place** and the place after it. -/
def tagName (inFlow : Bool) (c : Cursor) : Option (TagName × Cursor) := do
  let (name, next) ←
    if c.peekAt 1 == some '<' then do
      let (text, next) ← tagText true (c.skip 2)
      if text.isEmpty || !next.is '>' then none
      else some ((⟨"", beforeZero text⟩ : TagName), next.skip 1)
    else do
      let (handle, next) ← handleText c
      let (text, next) ← tagText false next
      if 2 ≤ handle.length && handle.getLast? == some '!' then
        if text.isEmpty then none
        else some (⟨String.ofList handle, beforeZero text⟩, next)
      else
        let suffix := beforeZero (octets (String.ofList (handle.drop 1)) ++ text)
        some (if suffix.isEmpty then bareTag else ⟨"!", suffix⟩, next)
  if (inFlow && next.is ',') || next.blankOrEnd then return (name, next) else none

/-! ## Directives -/

/-- A number of at most nine digits at a place. -/
def versionNumber (c : Cursor) : Option (Nat × Cursor) :=
  let (digits, next) := c.span Char.isDigit
  if digits.isEmpty || 9 < digits.length then none
  else some (Decimal.digitsValue digits, next)

/-- The version after the name of its directive. -/
def versionDirective (c : Cursor) : Option (Token × Cursor) := do
  let (major, c) ← versionNumber (c.skipWhile isBlank)
  if !c.is '.' then none
  else
    let (minor, c) ← versionNumber (c.skip 1)
    return (.version major minor, c)

/-- The handle and the leading part of tags after the name of their directive. -/
def tagDirective (c : Cursor) : Option (Token × Cursor) := do
  let (handle, c) ← handleText (c.skipWhile isBlank)
  if handle != ['!'] && (handle.length < 2 || handle.getLast? != some '!') then none
  else if !c.has isBlank then none
  else
    let (leading, c) ← tagText true (c.skipWhile isBlank)
    if leading.isEmpty || !c.blankOrEnd then none
    else return (.tagDirective (String.ofList handle) (beforeZero leading), c)

/-- **The directive at a place** and the start of the next line. -/
def directive (c : Cursor) : Option (Token × Cursor) := do
  let (name, c) := (c.skip 1).span isNameChar
  if !c.blankOrEnd then none
  else
    let (token, c) ← match String.ofList name with
      | "YAML" => versionDirective c
      | "TAG" => tagDirective c
      | _ => none
    let c := c.skipWhile isBlank
    let c := if c.is '#' then c.skipWhile fun x => !isBreak x else c
    if c.breakOrEnd then return (token, c.skipBreak) else none

end Runbook.Yaml
