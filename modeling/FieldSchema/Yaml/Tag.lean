import FieldSchema.Json.Token
import FieldSchema.Yaml.Cursor

/-!
# YAML names, tags and directives

A tag is written as a handle and a suffix; a `%TAG` directive says what a handle stands for. A suffix
may escape bytes by their value in base 16. Escaped bytes have the lengths of UTF-8, but they need not
be UTF-8, so a `Tag` is made of bytes. A zero byte ends the part of a tag in which it stands.

* `Tag.standard` is a tag of the standard ones, `Tag.localName?` what a tag of the document's own
  names.
* `TagText.read?`, `Directive.read?` and `readAnchor?` take what is written.
-/

namespace FieldSchema.Yaml

/-- What kind of value a node says it is. -/
structure Tag where
  bytes : List UInt8
  deriving DecidableEq, Repr

namespace Tag

/-- The tag of a text. -/
def ofString (s : String) : Tag := ⟨s.toList.flatMap String.utf8EncodeChar⟩

/-- The standard tag of a name. -/
def standard (name : String) : Tag := ofString ("tag:yaml.org,2002:" ++ name)

/-- Whether a tag begins with an exclamation mark, as those do that are the document's own. -/
def isLocal (t : Tag) : Bool := t.bytes.head? = some 0x21

/-- What a local tag names, if it is text. A lone exclamation mark names itself. -/
def localName? (t : Tag) : Option String :=
  if t.isLocal then
    match t.bytes.tail with
    | [] => some "!"
    | name => String.fromUTF8? ⟨name.toArray⟩
  else none

end Tag

/-- A tag as it is written. An empty handle means that the suffix is the whole tag. -/
structure TagText where
  handle : List Char
  suffix : List UInt8
  deriving DecidableEq

/-- A directive at the head of a document. -/
inductive Directive where
  | version (major minor : Nat)
  | tag (handle : List Char) (start : List UInt8)
  deriving DecidableEq

namespace TagText

/-- A character of a tag. Those that also have a meaning between brackets are allowed only where a
whole address is expected. -/
def isTagChar (wholeAddress : Bool) (c : Char) : Bool :=
  isNameChar c || ";/?:@&=+$.%!~*'()".toList.contains c ||
    (wholeAddress && (c = ',' || c = '[' || c = ']'))

/-- Takes an escaped byte. -/
def readByte? : List Char → Option (UInt8 × List Char)
  | '%' :: a :: b :: r => do
    let a ← Json.Token.hexValue? a
    let b ← Json.Token.hexValue? b
    return (.ofNat (a * 16 + b), r)
  | _ => none

/-- How many bytes a character has that begins with a byte. -/
def width? (b : UInt8) : Option Nat :=
  if b < 0x80 then some 1
  else if b &&& 0xE0 = 0xC0 then some 2
  else if b &&& 0xF0 = 0xE0 then some 3
  else if b &&& 0xF8 = 0xF0 then some 4
  else none

/-- Takes the further bytes of a character. -/
def readMore? : Nat → List Char → Option (List UInt8 × List Char)
  | 0, cs => some ([], cs)
  | n + 1, cs => do
    let (b, r) ← readByte? cs
    if b &&& 0xC0 ≠ 0x80 then none
    let (bs, rest) ← readMore? n r
    return (b :: bs, rest)

/-- Takes an escaped character. -/
def readEscape? (cs : List Char) : Option (List UInt8 × List Char) := do
  let (b, r) ← readByte? cs
  let n ← width? b
  let (bs, rest) ← readMore? (n - 1) r
  return (b :: bs, rest)

/-- Takes the bytes of the characters of a tag. -/
def readBytes? (wholeAddress : Bool) : Nat → List Char → Option (List UInt8 × List Char)
  | 0, cs => some ([], cs)
  | _ + 1, [] => some ([], [])
  | fuel + 1, c :: r =>
    if !isTagChar wholeAddress c then some ([], c :: r)
    else do
      let (x, rest) ← if c = '%' then readEscape? (c :: r) else some (String.utf8EncodeChar c, r)
      let (xs, rest) ← readBytes? wholeAddress fuel rest
      return (x ++ xs, rest)

/-- Takes the bytes of the characters of a tag from a cursor. -/
def readSuffix? (wholeAddress : Bool) (c : Cursor) : Option (List UInt8 × Cursor) := do
  let (bytes, rest) ← readBytes? wholeAddress (c.rest.length + 1) c.rest
  return (bytes, c.skip (c.rest.length - rest.length))

/-- What counts of the bytes of a part of a tag. -/
def untilZero (bytes : List UInt8) : List UInt8 := bytes.takeWhile (· ≠ 0)

/-- Takes a handle: an exclamation mark, and perhaps a name and another one. -/
def readHandle? (c : Cursor) : Option (List Char × Cursor) :=
  match c.rest with
  | '!' :: _ =>
    let (name, d) := (c.skip 1).takeWhile isNameChar
    match d.rest with
    | '!' :: _ => some ('!' :: name ++ ['!'], d.skip 1)
    | _ => some ('!' :: name, d)
  | _ => none

/-- Whether a handle ends with its own exclamation mark. -/
def isClosed (handle : List Char) : Bool := 1 < handle.length && handle.getLast? = some '!'

/-- Takes a tag: a whole address between angle brackets, or a handle and a suffix. A space must
follow, or a comma between brackets. -/
def read? (inFlow : Bool) (c : Cursor) : Option (TagText × Cursor) := do
  let (tag, d) ←
    match c.rest with
    | _ :: '<' :: _ => do
      let (suffix, d) ← readSuffix? true (c.skip 2)
      if suffix.isEmpty || d.rest.head? ≠ some '>' then none
      some (⟨[], untilZero suffix⟩, d.skip 1)
    | _ => do
      let (handle, d) ← readHandle? c
      let (suffix, e) ← readSuffix? false d
      if isClosed handle then
        if suffix.isEmpty then none else some (⟨handle, untilZero suffix⟩, e)
      else
        let name := (handle.drop 1).flatMap String.utf8EncodeChar
        let suffix := untilZero (name ++ suffix)
        some (if suffix.isEmpty then ⟨[], (Tag.ofString "!").bytes⟩ else ⟨['!'], suffix⟩, e)
  if atSpace d.rest || (inFlow && d.rest.head? = some ',') then some (tag, d) else none

end TagText

namespace Directive

/-- Takes a number of at most nine digits. -/
def readNumber? (c : Cursor) : Option (Nat × Cursor) :=
  let (digits, d) := c.takeWhile Char.isDigit
  if digits.isEmpty || 9 < digits.length then none else some (digitsValue digits, d)

/-- Takes the version of a `%YAML` directive. -/
def readVersion? (c : Cursor) : Option (Directive × Cursor) := do
  let (major, d) ← readNumber? (c.skipWhile isBlank)
  if d.rest.head? ≠ some '.' then none
  let (minor, e) ← readNumber? (d.skip 1)
  return (.version major minor, e)

/-- Takes the handle of a `%TAG` directive and what it stands for. -/
def readTag? (c : Cursor) : Option (Directive × Cursor) := do
  let (handle, d) ← TagText.readHandle? (c.skipWhile isBlank)
  if handle ≠ ['!'] && !TagText.isClosed handle then none
  if !(d.rest.head?.any isBlank) then none
  let (start, e) ← TagText.readSuffix? true (d.skipWhile isBlank)
  if start.isEmpty || !atSpace e.rest then none
  return (.tag handle (TagText.untilZero start), e)

/-- Takes a directive with the line it stands on. -/
def read? (c : Cursor) : Option (Directive × Cursor) := do
  let (name, d) := (c.skip 1).takeWhile isNameChar
  if !atSpace d.rest then none
  let (directive, e) ←
    if name = ['Y', 'A', 'M', 'L'] then readVersion? d
    else if name = ['T', 'A', 'G'] then readTag? d
    else none
  let f ← e.finishLine?
  return (directive, f)

end Directive

/-- Takes the name of an anchor, after its mark. Something that cannot belong to a name must
follow. -/
def readAnchor? (c : Cursor) : Option (List Char × Cursor) :=
  let (name, d) := (c.skip 1).takeWhile isNameChar
  if name.isEmpty then none
  else if atSpace d.rest || (d.rest.head?.any fun x => "?:,]\x7d%@\x60".toList.contains x) then
    some (name, d)
  else none

end FieldSchema.Yaml
