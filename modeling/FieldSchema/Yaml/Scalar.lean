import FieldSchema.Json.Token
import FieldSchema.Yaml.Cursor

/-!
# YAML scalars

The forms in which a text is written: plain, between single or double quotes, and as a literal or
folded block. Each reader takes one scalar and gives the text it stands for; none of them looks at
what the text means.

Between words a line break is folded: a single one becomes a space, and of more than one the first
is dropped (`Gap.text`).
-/

namespace FieldSchema.Yaml

/-- The form of a scalar. -/
inductive Style where
  | plain
  | singleQuoted
  | doubleQuoted
  | literal
  | folded
  deriving DecidableEq, Repr

/-- The blanks and line breaks between two words of a scalar. -/
structure Gap where
  /-- Blanks before any line break. -/
  blanks : List Char := []
  /-- The first line break. -/
  first : List Char := []
  /-- The other line breaks. -/
  more : List Char := []
  /-- Whether the line was left. -/
  newLine : Bool := false

namespace Gap

/-- What stands for line breaks, the first of which may be folded. -/
def folded (first more : List Char) : List Char :=
  if first = ['\n'] then (if more.isEmpty then [' '] else more) else first ++ more

/-- What stands for the gap. -/
def text (g : Gap) : List Char := if g.newLine then folded g.first g.more else g.blanks

/-- Takes in a line break. -/
def addBreak (g : Gap) (b : List Char) : Gap :=
  if g.newLine then { g with more := g.more ++ b }
  else { g with blanks := [], first := b, newLine := true }

/-- Takes in a blank, which counts only before the first line break. -/
def addBlank (g : Gap) (b : Char) : Gap :=
  if g.newLine then g else { g with blanks := g.blanks ++ [b] }

/-- Moves over blanks and line breaks. Fails at a tab in the indentation of a new line, where there
must be `indent` columns of it. -/
def read? (indent : Nat) : Nat → Gap → Cursor → Option (Gap × Cursor)
  | 0, g, c => some (g, c)
  | fuel + 1, g, c =>
    match c.takeBreak? with
    | some (b, d) => read? indent fuel (g.addBreak b) d
    | none =>
      match c.rest with
      | b :: _ =>
        if isBlank b then
          if g.newLine && c.place.column < indent && b = '\t' then none
          else read? indent fuel (g.addBlank b) (c.skip 1)
        else some (g, c)
      | [] => some (g, c)

end Gap

namespace Scalar

/-! ## Plain scalars -/

/-- A character that ends a plain scalar between brackets. -/
def isFlowEnd (c : Char) : Bool :=
  c = ',' || c = '[' || c = ']' || c = '\x7b' || c = '\x7d'

/-- Takes a word of a plain scalar. A colon ends it before a space; between brackets a colon before
one of them is a mistake. -/
def plainWord? (inFlow : Bool) : List Char → Option (List Char × List Char)
  | [] => some ([], [])
  | c :: r =>
    if isBlank c || isBreak c then some ([], c :: r)
    else if inFlow && c = ':' && (r.head?.any fun x => isFlowEnd x || x = '?') then none
    else if (c = ':' && atSpace r) || (inFlow && isFlowEnd c) then some ([], c :: r)
    else (plainWord? inFlow r).map fun (w, rest) => (c :: w, rest)

/-- Takes the rest of a plain scalar after a gap. Gives the text, the place after it and whether the
line was left. -/
def plainRest? (inFlow : Bool) (indent : Nat) :
    Nat → Gap → Cursor → Option (List Char × Cursor × Bool)
  | 0, g, c => some ([], c, g.newLine)
  | fuel + 1, g, c => do
    if c.atDocumentMark || c.rest.head? = some '#' then return ([], c, g.newLine)
    let (word, _) ← plainWord? inFlow c.rest
    let d := c.skip word.length
    let between := if word.isEmpty then [] else g.text
    let left := word.isEmpty && g.newLine
    if !atSpace d.rest || d.rest.isEmpty then return (between ++ word, d, left)
    let start : Gap := if word.isEmpty then g else {}
    let (gap, e) ← start.read? indent (d.rest.length + 1) d
    if !inFlow && e.place.column < indent then return (between ++ word, e, gap.newLine)
    let (more, f, left) ← plainRest? inFlow indent fuel gap e
    return (between ++ word ++ more, f, left)

/-- Takes a plain scalar whose further lines have at least `indent` columns of indentation. -/
def readPlain? (inFlow : Bool) (indent : Nat) (c : Cursor) :
    Option (List Char × Cursor × Bool) :=
  plainRest? inFlow indent (c.rest.length + 1) {} c

/-! ## Quoted scalars -/

/-- What a letter after a backslash stands for, alone. -/
def shortEscape? : Char → Option Char
  | '0' => some '\x00'
  | 'a' => some '\x07'
  | 'b' => some '\x08'
  | 't' | '\t' => some '\t'
  | 'n' => some '\n'
  | 'v' => some '\x0b'
  | 'f' => some '\x0c'
  | 'r' => some '\r'
  | 'e' => some '\x1b'
  | ' ' => some ' '
  | '\"' => some '\"'
  | '/' => some '/'
  | '\\' => some '\\'
  | 'N' => some '\u0085'
  | '_' => some '\u00a0'
  | 'L' => some '\u2028'
  | 'P' => some '\u2029'
  | _ => none

/-- How many digits of base 16 follow a letter after a backslash. -/
def escapeLength? : Char → Option Nat
  | 'x' => some 2
  | 'u' => some 4
  | 'U' => some 8
  | _ => none

/-- The character of a code in base 16. -/
def codeChar? (digits : List Char) : Option Char := do
  let n ← digits.foldlM (fun n d => (Json.Token.hexValue? d).map (n * 16 + ·)) 0
  if (0xD800 ≤ n ∧ n ≤ 0xDFFF) ∨ 0x10FFFF < n then none else some (Char.ofNat n)

/-- What ends a word of a quoted scalar. -/
inductive WordEnd where
  /-- A blank, a line break or the end of the text. -/
  | space
  /-- The closing quote. -/
  | quote
  /-- A backslash before a line break. -/
  | joinedLine

/-- Takes a word between single quotes, where a quote is written twice. -/
def singleWord : List Char → List Char × WordEnd × List Char
  | [] => ([], .space, [])
  | '\'' :: '\'' :: r =>
    let (w, e, rest) := singleWord r
    ('\'' :: w, e, rest)
  | c :: r =>
    if c = '\'' then ([], .quote, c :: r)
    else if isBlank c || isBreak c then ([], .space, c :: r)
    else
      let (w, e, rest) := singleWord r
      (c :: w, e, rest)

/-- Takes a word between double quotes. -/
def doubleWord? : Nat → List Char → Option (List Char × WordEnd × List Char)
  | 0, cs => some ([], .space, cs)
  | _ + 1, [] => some ([], .space, [])
  | fuel + 1, c :: r =>
    if c = '\"' then some ([], .quote, c :: r)
    else if isBlank c || isBreak c then some ([], .space, c :: r)
    else if c = '\\' then
      match r with
      | [] => none
      | e :: t =>
        if isBreak e then some ([], .joinedLine, c :: r)
        else
          match shortEscape? e, escapeLength? e with
          | some x, _ => (doubleWord? fuel t).map fun (w, e, rest) => (x :: w, e, rest)
          | none, some n =>
            let digits := t.take n
            if digits.length < n then none
            else do
              let x ← codeChar? digits
              let (w, e, rest) ← doubleWord? fuel (t.drop n)
              return (x :: w, e, rest)
          | none, none => none
    else (doubleWord? fuel r).map fun (w, e, rest) => (c :: w, e, rest)

/-- Takes the rest of a quoted scalar, up to and with its closing quote. -/
def quotedRest? (double : Bool) : Nat → Cursor → Option (List Char × Cursor)
  | 0, _ => none
  | fuel + 1, c => do
    if c.atDocumentMark || c.rest.isEmpty then none
    let (word, ending, rest) ←
      if double then doubleWord? (c.rest.length + 1) c.rest else some (singleWord c.rest)
    let d := c.skip (c.rest.length - rest.length)
    match ending with
    | .quote => return (word, d.skip 1)
    | .space =>
      let (gap, e) ← Gap.read? 0 (d.rest.length + 1) {} d
      let (more, f) ← quotedRest? double fuel e
      return (word ++ gap.text ++ more, f)
    | .joinedLine =>
      let joined := (d.skip 1).skipBreak
      let start : Gap := { newLine := true }
      let (gap, e) ← start.read? 0 (joined.rest.length + 1) joined
      let (more, f) ← quotedRest? double fuel e
      return (word ++ gap.text ++ more, f)

/-- Takes a quoted scalar, from its opening quote on. -/
def readQuoted? (double : Bool) (c : Cursor) : Option (List Char × Cursor) :=
  quotedRest? double (c.rest.length + 1) (c.skip 1)

/-! ## Block scalars -/

/-- What is done with the line breaks at the end of a block. -/
inductive Chomping where
  | strip
  | clip
  | keep
  deriving DecidableEq

/-- The chomping a character stands for. -/
def chomping? : Char → Option Chomping
  | '+' => some .keep
  | '-' => some .strip
  | _ => none

/-- Takes the signs after the mark of a block: chomping and indentation, in either order. A stated
indentation is not zero. -/
def readHeader? (c : Cursor) : Option (Chomping × Nat × Cursor) :=
  let digit (c : Cursor) : Option (Nat × Cursor) :=
    match c.rest with
    | d :: _ =>
      if !d.isDigit then some (0, c)
      else if d = '0' then none
      else some (d.toNat - '0'.toNat, c.skip 1)
    | [] => some (0, c)
  match c.rest.head?.bind chomping? with
  | some how => (digit (c.skip 1)).map fun (n, d) => (how, n, d)
  | none => (digit c).map fun (n, d) =>
    match (if n = 0 then none else d.rest.head?.bind chomping?) with
    | some how => (how, n, d.skip 1)
    | none => (.clip, n, d)

/-- Moves over empty lines and indentation; an indentation of zero is one that is not known yet. Gives
the line breaks, the greatest column reached and the place after them. Fails at a tab in the
indentation. -/
def readEmptyLines? (indent : Nat) :
    Nat → Nat → Cursor → Option (List Char × Nat × Cursor)
  | 0, greatest, c => some ([], greatest, c)
  | fuel + 1, greatest, c =>
    let free := c.rest.takeWhile (· = ' ')
    let n := if indent = 0 then free.length else min free.length (indent - c.place.column)
    let d := c.skip n
    let greatest := max greatest d.place.column
    if (indent = 0 || d.place.column < indent) && d.rest.head? = some '\t' then none
    else
      match d.takeBreak? with
      | some (b, e) =>
        (readEmptyLines? indent fuel greatest e).map fun (bs, rest) => (b ++ bs, rest)
      | none => some ([], greatest, d)

/-- What stands between two lines of a folded block: a single line break becomes a space, unless one
of the lines begins with a blank. -/
def blockGap (literal wasBlank isBlank : Bool) (first more : List Char) : List Char :=
  if !literal && first = ['\n'] && !wasBlank && !isBlank then
    (if more.isEmpty then [' '] else more)
  else first ++ more

/-- Takes the lines of a block that have its indentation. Gives the text up to the last line, the line
break after it, the empty lines after that, and the place after all. -/
def blockLines? (literal : Bool) (indent : Nat) :
    Nat → Bool → List Char → List Char → Cursor →
      Option (List Char × List Char × List Char × Cursor)
  | 0, _, first, more, c => some ([], first, more, c)
  | fuel + 1, wasBlank, first, more, c => do
    if c.place.column ≠ indent || c.rest.isEmpty then return ([], first, more, c)
    let blank := c.rest.head?.any isBlank
    let gap := blockGap literal wasBlank blank first more
    let (line, d) := c.takeWhile fun x => !isBreak x
    let (first, e) := (d.takeBreak?).getD ([], d)
    let (more, _, f) ← readEmptyLines? indent (e.rest.length + 1) 0 e
    let (text, rest) ← blockLines? literal indent fuel blank first more f
    return (gap ++ line ++ text, rest)

/-- Takes a block, from its mark on. Its lines are indented further than `parent` columns; `-1` stands
for the root. -/
def readBlock? (literal : Bool) (parent : Int) (c : Cursor) : Option (List Char × Cursor) := do
  let (how, increment, d) ← readHeader? (c.skip 1)
  let e ← d.finishLine?
  let stated : Nat := if increment = 0 then 0 else parent.toNat + increment
  let (more, greatest, f) ← readEmptyLines? stated (e.rest.length + 1) 0 e
  let indent := if stated = 0 then max (max greatest (parent + 1).toNat) 1 else stated
  let (text, first, more, g) ← blockLines? literal indent (f.rest.length + 1) false [] more f
  match how with
  | .strip => return (text, g)
  | .clip => return (text ++ first, g)
  | .keep => return (text ++ first ++ more, g)

end Scalar

end FieldSchema.Yaml
