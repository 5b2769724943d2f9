import FieldSchema.Yaml.Scalar
import FieldSchema.Yaml.Tag

/-!
# YAML tokens

The tokens of a YAML text. Indentation is told by tokens of its own: a block begins where the
indentation grows, and ends where it shrinks.

A key need not be announced: whether a scalar is a key shows only at the colon after it. So the
lexer remembers, for each level of brackets, where a key may have begun (`Candidate`); at the colon
it puts the tokens of a key in front of what was read since. A candidate is given up at the end of
its line or more than 1024 bytes later. Until it is decided the tokens from there on do not count: where
the lexer meets a mistake, the tokens that count are those before the first open candidate
(`Lexer.settled`).

A text is looked at in pieces. A piece with a character that may not stand in a document cannot be
read, so the text goes wrong where the lexer would look into it (`readableLength?`).
-/

namespace FieldSchema.Yaml

/-- A token of YAML text. -/
inductive Token where
  | directive (d : Directive)
  | documentStart
  | documentEnd
  | streamEnd
  | blockSequenceStart
  | blockMappingStart
  | blockEnd
  | flowSequenceStart
  | flowSequenceEnd
  | flowMappingStart
  | flowMappingEnd
  | blockEntry
  | flowEntry
  | key
  | value
  | alias (name : List Char)
  | anchor (name : List Char)
  | tag (t : TagText)
  | scalar (text : List Char) (style : Style)
  deriving DecidableEq

/-- Where a key may have begun. -/
structure Candidate where
  /-- Nothing else can stand there. -/
  required : Bool
  /-- How many tokens come before. -/
  token : Nat
  place : Place

/-- The state of scanning. -/
structure Lexer where
  cursor : Cursor
  tokens : Array Token := #[]
  /-- The column of the innermost block; `-1` outside of all blocks. -/
  indent : Int := -1
  /-- The columns of the blocks around it. -/
  indents : List Int := []
  /-- Whether a key may begin here. -/
  keyAllowed : Bool := true
  /-- The candidate of the innermost brackets. -/
  candidate : Option Candidate := none
  /-- The candidates outside of each level of brackets, innermost first. -/
  outer : List (Option Candidate) := []
  /-- Whether the end of the text was reached. -/
  ended : Bool := false
  /-- Whether the text goes on with something that cannot be read. -/
  cut : Bool := false

namespace Lexer

/-- Whether brackets are open. -/
def inFlow (s : Lexer) : Bool := !s.outer.isEmpty

/-- The column of the next character. -/
def column (s : Lexer) : Nat := s.cursor.place.column

/-- Adds a token. -/
def push (s : Lexer) (t : Token) : Lexer := { s with tokens := s.tokens.push t }

/-- Moves over characters of one line. -/
def skip (s : Lexer) (n : Nat) : Lexer := { s with cursor := s.cursor.skip n }

/-! ## Candidates -/

/-- Gives a candidate up that is too far away; fails if nothing else can stand there. -/
def stale? (here : Place) : Option Candidate → Option (Option Candidate)
  | none => some none
  | some k =>
    if k.place.line < here.line || k.place.offset + 1024 < here.offset then
      if k.required then none else some none
    else some (some k)

/-- Gives up all candidates that are too far away. -/
def dropStale? (s : Lexer) : Option Lexer := do
  let candidate ← stale? s.cursor.place s.candidate
  let outer ← s.outer.mapM (stale? s.cursor.place)
  return { s with candidate := candidate, outer := outer }

/-- Gives up the innermost candidate. -/
def dropCandidate? (s : Lexer) : Option Lexer :=
  match s.candidate with
  | some k => if k.required then none else some { s with candidate := none }
  | none => some s

/-- Remembers that a key may begin here. -/
def saveCandidate? (s : Lexer) : Option Lexer :=
  if s.keyAllowed then do
    let t ← s.dropCandidate?
    return { t with candidate := some {
      required := !s.inFlow && s.indent = s.column
      token := s.tokens.size
      place := s.cursor.place } }
  else some s

/-- How many of the tokens count: those before the first open candidate. -/
def settled (s : Lexer) : Nat :=
  (s.candidate :: s.outer).foldl (fun n k => (k.map fun k => min n k.token).getD n) s.tokens.size

/-! ## Indentation -/

/-- Opens a block at a column further in, before the token at a place. -/
def openBlock (column : Nat) (place : Nat) (t : Token) (s : Lexer) : Lexer :=
  if !s.inFlow && s.indent < column then
    { s with
      indents := s.indent :: s.indents
      indent := column
      tokens := s.tokens.insertIdxIfInBounds place t }
  else s

/-- Closes blocks, innermost first, until the innermost is not further in than a column. -/
def closeBlocks (column : Int) : List Int → Lexer → Lexer
  | [], s => s
  | i :: rest, s =>
    if !s.inFlow && column < s.indent then
      closeBlocks column rest { s.push .blockEnd with indent := i, indents := rest }
    else s

/-- Closes the blocks that are further in than a column. -/
def dedent (column : Int) (s : Lexer) : Lexer := closeBlocks column s.indents s

/-! ## Tokens -/

/-- Moves over blanks, comments and line ends, and over a byte order mark at the beginning of a line.
Tabs are not moved over where a key may begin in a block. After a line end in a block a key may
begin. -/
def skipSpace : Nat → Lexer → Lexer
  | 0, s => s
  | fuel + 1, s =>
    let tabs := s.inFlow || !s.keyAllowed
    let start := s.cursor.skipByteOrderMark
    let c := (start.skipWhile fun x => x = ' ' || (tabs && x = '\t')).skipComment
    match c.takeBreak? with
    | some (_, d) => skipSpace fuel { s with cursor := d, keyAllowed := s.keyAllowed || !s.inFlow }
    | none => { s with cursor := c }

/-- The end of the text, which ends all blocks. -/
def takeEnd? (s : Lexer) : Option Lexer := do
  let p := s.cursor.place
  let place := if p.column = 0 then p else ⟨p.offset, p.line + 1, 0⟩
  let t ← (({ s with cursor := ⟨s.cursor.rest, place⟩ } : Lexer).dedent (-1)).dropCandidate?
  return { t.push .streamEnd with keyAllowed := false, ended := true }

/-- A directive, which ends all blocks. -/
def takeDirective? (s : Lexer) : Option Lexer := do
  let t ← (s.dedent (-1)).dropCandidate?
  let (d, c) ← Directive.read? t.cursor
  return { t.push (.directive d) with cursor := c, keyAllowed := false }

/-- A mark between documents, which ends all blocks. -/
def takeMark? (mark : Token) (s : Lexer) : Option Lexer := do
  let t ← (s.dedent (-1)).dropCandidate?
  return { (t.push mark).skip 3 with keyAllowed := false }

/-- An opening bracket, which may begin a key. -/
def takeOpening? (bracket : Token) (s : Lexer) : Option Lexer := do
  let t ← s.saveCandidate?
  return { (t.push bracket).skip 1 with
    outer := t.candidate :: t.outer
    candidate := none
    keyAllowed := true }

/-- A closing bracket. One that closes nothing is left to those who make nodes of the tokens. -/
def takeClosing? (bracket : Token) (s : Lexer) : Option Lexer := do
  let t ← s.dropCandidate?
  let u := { (t.push bracket).skip 1 with keyAllowed := false }
  match t.outer with
  | k :: rest => return { u with candidate := k, outer := rest }
  | [] => return u

/-- A comma between brackets. -/
def takeComma? (s : Lexer) : Option Lexer := do
  let t ← s.dropCandidate?
  return { (t.push .flowEntry).skip 1 with keyAllowed := true }

/-- The dash of an item. Between brackets it is a token that no node begins with. -/
def takeDash? (s : Lexer) : Option Lexer := do
  if !s.inFlow && !s.keyAllowed then none
  let t ← (s.openBlock s.column s.tokens.size .blockSequenceStart).dropCandidate?
  return { (t.push .blockEntry).skip 1 with keyAllowed := true }

/-- A question mark, which announces a key. -/
def takeKey? (s : Lexer) : Option Lexer := do
  if !s.inFlow && !s.keyAllowed then none
  let t ← (s.openBlock s.column s.tokens.size .blockMappingStart).dropCandidate?
  return { (t.push .key).skip 1 with keyAllowed := !s.inFlow }

/-- A colon. If a key may have begun, what was read since is the key. -/
def takeValue? (s : Lexer) : Option Lexer :=
  match s.candidate with
  | some k =>
    let t := { s with
      tokens := s.tokens.insertIdxIfInBounds k.token .key
      candidate := none
      keyAllowed := false }
    some (((t.openBlock k.place.column k.token .blockMappingStart).push .value).skip 1)
  | none => do
    if !s.inFlow && !s.keyAllowed then none
    let t := s.openBlock s.column s.tokens.size .blockMappingStart
    return { (t.push .value).skip 1 with keyAllowed := !s.inFlow }

/-- The name of an anchor or an alias. -/
def takeName? (token : List Char → Token) (s : Lexer) : Option Lexer := do
  let t ← s.saveCandidate?
  let (name, c) ← readAnchor? t.cursor
  return { t.push (token name) with cursor := c, keyAllowed := false }

/-- A tag. -/
def takeTag? (s : Lexer) : Option Lexer := do
  let t ← s.saveCandidate?
  let (tag, c) ← TagText.read? s.inFlow t.cursor
  return { t.push (.tag tag) with cursor := c, keyAllowed := false }

/-- A scalar that is a block. -/
def takeBlock? (style : Style) (s : Lexer) : Option Lexer := do
  let t ← s.dropCandidate?
  let (text, c) ← Scalar.readBlock? (style = .literal) s.indent t.cursor
  return { t.push (.scalar text style) with cursor := c, keyAllowed := true }

/-- A scalar between quotes. -/
def takeQuoted? (style : Style) (s : Lexer) : Option Lexer := do
  let t ← s.saveCandidate?
  let (text, c) ← Scalar.readQuoted? (style = .doubleQuoted) t.cursor
  return { t.push (.scalar text style) with cursor := c, keyAllowed := false }

/-- A plain scalar. If the line was left within it, a key may begin after it. -/
def takePlain? (s : Lexer) : Option Lexer := do
  let t ← s.saveCandidate?
  let (text, c, left) ← Scalar.readPlain? s.inFlow (s.indent + 1).toNat t.cursor
  return { t.push (.scalar text .plain) with cursor := c, keyAllowed := left }

/-- Whether a plain scalar may begin with a character that also has another meaning: a dash before
anything but a blank, and outside of brackets a question mark or a colon before anything but a
space. -/
def beginsPlain (inFlow : Bool) (c : Char) (r : List Char) : Bool :=
  if c = '-' then !(r.head?.any isBlank)
  else if c = '?' || c = ':' then !inFlow && !atSpace r
  else !(",[]\x7b\x7d#&*!|>'\"%@\x60".toList.contains c || isBlank c || isBreak c)

/-- Reads the next token, with the tokens of blocks that begin or end at it. Four characters are
looked at to tell what it is. -/
def step? (start : Lexer) : Option Lexer := do
  let s ← (start.skipSpace (start.cursor.rest.length + 1)).dropStale?
  if s.cut && (s.cursor.rest.drop 3).isEmpty then none
  let s := s.dedent s.column
  match s.cursor.rest with
  | [] => s.takeEnd?
  | c :: r =>
    if s.column = 0 && c = '%' then s.takeDirective?
    else if s.column = 0 && atMark '-' (c :: r) then s.takeMark? .documentStart
    else if s.column = 0 && atMark '.' (c :: r) then s.takeMark? .documentEnd
    else if c = '[' then s.takeOpening? .flowSequenceStart
    else if c = '\x7b' then s.takeOpening? .flowMappingStart
    else if c = ']' then s.takeClosing? .flowSequenceEnd
    else if c = '\x7d' then s.takeClosing? .flowMappingEnd
    else if c = ',' then s.takeComma?
    else if c = '-' && atSpace r then s.takeDash?
    else if c = '?' && (s.inFlow || atSpace r) then s.takeKey?
    else if c = ':' && (s.inFlow || atSpace r) then s.takeValue?
    else if c = '*' then s.takeName? .alias
    else if c = '&' then s.takeName? .anchor
    else if c = '!' then s.takeTag?
    else if c = '|' && !s.inFlow then s.takeBlock? .literal
    else if c = '>' && !s.inFlow then s.takeBlock? .folded
    else if c = '\'' then s.takeQuoted? .singleQuoted
    else if c = '\"' then s.takeQuoted? .doubleQuoted
    else if beginsPlain s.inFlow c r then s.takePlain?
    else none

/-- Reads tokens to the end of the text or the first mistake, when so many tokens are settled. Every
step but the last takes a character. -/
def run : Nat → Nat → Lexer → List Token
  | 0, settled, s => (s.tokens.toList).take settled
  | fuel + 1, settled, s =>
    match s.dropStale? with
    | none => s.tokens.toList.take settled
    | some s =>
      if s.ended then s.tokens.toList
      else
        match s.step?.filter fun t => !(t.cut && t.cursor.rest.isEmpty) with
        | none => s.tokens.toList.take s.settled
        | some t => run fuel s.settled t

end Lexer

/-- How many bytes a piece of text has at most. -/
def pieceSize : Nat := 16384

/-- How many characters stand before the first piece that cannot be read; nothing if there is none.
Given are how many characters stand before the piece and before the text, and how many bytes of the
piece stand before the text. -/
def readableLength? (start passed used : Nat) : List Char → Option Nat
  | [] => none
  | c :: r =>
    let isNext := pieceSize < used + c.utf8Size
    let start := if isNext then passed else start
    let used := if isNext then 0 else used
    if isAllowed c then readableLength? start (passed + 1) (used + c.utf8Size) r else some start

/-- The tokens of a text up to the first mistake. A text that is well formed ends with
`Token.streamEnd`. -/
def Token.scan (text : List Char) : List Token :=
  match readableLength? 0 0 0 text with
  | none => Lexer.run (text.length + 2) 0 { cursor := ⟨text, {}⟩ }
  | some n => Lexer.run (n + 2) 0 { cursor := ⟨text.take n, {}⟩, cut := true }

end FieldSchema.Yaml
