/-!
# Reading YAML text

A `Cursor` stands before the rest of a text and knows the line and column it stands in. Line breaks
are line feeds, carriage returns, both together as one, the next-line character and the two Unicode
separators; inside scalars all but the Unicode separators become line feeds. The byte order mark is a
character like any other inside scalars; between tokens it may begin a line
(`Cursor.skipByteOrderMark`).
-/

namespace FieldSchema.Yaml

/-- Whether a character may stand in a document. -/
def isAllowed (c : Char) : Bool :=
  let n := c.toNat
  n = 0x09 || n = 0x0a || n = 0x0d || (0x20 ≤ n && n ≤ 0x7e) || n = 0x85 ||
    (0xa0 ≤ n && n ≤ 0xfffd) || 0x10000 ≤ n

/-- The byte order mark. -/
def byteOrderMark : Char := '\ufeff'

/-- A space or a tab. -/
def isBlank (c : Char) : Bool := c = ' ' || c = '\t'

/-- A character that ends a line. -/
def isBreak (c : Char) : Bool :=
  c = '\n' || c = '\r' || c = '\u0085' || c = '\u2028' || c = '\u2029'

/-- A character of names: of anchors, tag handles and directives. -/
def isNameChar (c : Char) : Bool := c.isAlphanum || c = '_' || c = '-'

/-- Whether the text is at its end, at a blank or at a line break. -/
def atSpace : List Char → Bool
  | [] => true
  | c :: _ => isBlank c || isBreak c

/-- Whether the text is at its end or at a line break. -/
def atLineEnd : List Char → Bool
  | [] => true
  | c :: _ => isBreak c

/-- Whether the text begins with the three characters of a document mark and a space or its end. -/
def atMark (c : Char) : List Char → Bool
  | a :: b :: d :: r => a = c && b = c && d = c && atSpace r
  | _ => false

/-- How many bytes of UTF-8 characters have. -/
def byteLength (cs : List Char) : Nat := cs.foldl (fun n c => n + c.utf8Size) 0

/-- A place in a text. -/
structure Place where
  /-- How many bytes of UTF-8 stand before. -/
  offset : Nat := 0
  line : Nat := 0
  column : Nat := 0
  deriving DecidableEq, Repr

/-- A place in a text and what stands after it. -/
structure Cursor where
  rest : List Char
  place : Place := {}

namespace Cursor

/-- Moves over characters of one line. -/
def skip (n : Nat) (c : Cursor) : Cursor where
  rest := c.rest.drop n
  place := { c.place with
    offset := c.place.offset + byteLength (c.rest.take n)
    column := c.place.column + n }

/-- Moves over characters of one class, and gives them. -/
def takeWhile (p : Char → Bool) (c : Cursor) : List Char × Cursor :=
  let taken := c.rest.takeWhile p
  (taken, c.skip taken.length)

/-- Moves over characters of one class. -/
def skipWhile (p : Char → Bool) (c : Cursor) : Cursor := (c.takeWhile p).2

/-- The place at the beginning of the next line, after some characters. -/
def nextLine (cs : List Char) (p : Place) : Place := ⟨p.offset + byteLength cs, p.line + 1, 0⟩

/-- Moves over a line break, and gives what it becomes inside a scalar. -/
def takeBreak? (c : Cursor) : Option (List Char × Cursor) :=
  match c.rest with
  | '\r' :: '\n' :: r => some (['\n'], ⟨r, nextLine ['\r', '\n'] c.place⟩)
  | b :: r =>
    if isBreak b then
      some (if b = '\u2028' ∨ b = '\u2029' then [b] else ['\n'], ⟨r, nextLine [b] c.place⟩)
    else none
  | [] => none

/-- Moves over a line break, if there is one. -/
def skipBreak (c : Cursor) : Cursor :=
  match c.takeBreak? with
  | some (_, d) => d
  | none => c

/-- Moves over a byte order mark at the beginning of a line. What follows it stands in the column after
it, so it is not at the beginning of the line. -/
def skipByteOrderMark (c : Cursor) : Cursor :=
  if c.place.column = 0 && c.rest.head? = some byteOrderMark then c.skip 1 else c

/-- Moves over a comment, up to the end of its line. -/
def skipComment (c : Cursor) : Cursor :=
  match c.rest with
  | '#' :: _ => c.skipWhile fun x => !isBreak x
  | _ => c

/-- Moves over the blanks and the comment at the end of a line, and over its end; fails if there is
anything else. -/
def finishLine? (c : Cursor) : Option Cursor :=
  let d := (c.skipWhile isBlank).skipComment
  if atLineEnd d.rest then some d.skipBreak else none

/-- Whether a document mark stands here; only the beginning of a line is the place for one. -/
def atDocumentMark (c : Cursor) : Bool :=
  c.place.column = 0 && (atMark '-' c.rest || atMark '.' c.rest)

end Cursor

end FieldSchema.Yaml
