import FieldSchema.Yaml.Meaning

/-!
# Written forms of text

How a text is written as a YAML scalar. A text of several lines is a literal block, and any other is
plain if it then stands for itself, or else between single quotes. Where those would lose something,
it is written between double quotes, with escapes.

* `Style.ofText` chooses the form.
* `scalarLine` is the scalar with the end of its line.
* `isSimpleKey` says whether a text can be a key that is not announced.
-/

namespace FieldSchema.Yaml

/-! ## What is in a text -/

/-- A character that stands for itself in every form. -/
def isPrintable (c : Char) : Bool :=
  isAllowed c && c ≠ '\t' && c ≠ '\r' && c ≠ '\u0085' && c ≠ byteOrderMark

/-- Whether a character of one class stands before one of another. -/
def hasPair (p q : Char → Bool) : List Char → Bool
  | a :: b :: r => (p a && q b) || hasPair p q (b :: r)
  | _ => false

/-- The space itself. -/
def isSpace (c : Char) : Bool := c = ' '

/-- Whether only escapes keep the text: it has characters that are not printable, or lines that end
with a space. -/
def needsEscapes (cs : List Char) : Bool :=
  !cs.all isPrintable || hasPair isSpace isBreak cs

/-- Whether the text has a mark that ends a plain scalar: a colon before a space, or a sign of a
comment after one. -/
def endsWithin : Bool → List Char → Bool
  | _, [] => false
  | afterSpace, c :: r =>
    (c = ':' && atSpace r) || (c = '#' && afterSpace) || endsWithin (atSpace [c]) r

/-- Whether the text begins like something else than a plain scalar. -/
def beginsOtherwise : List Char → Bool
  | '-' :: '-' :: '-' :: _ | '.' :: '.' :: '.' :: _ => true
  | c :: r =>
    "#,[]\x7b\x7d&*!|>'\"%@\x60".toList.contains c || ((c = '?' || c = '-') && atSpace r)
  | [] => false

/-- Whether the text can be a plain scalar of one line. -/
def fitsPlain (cs : List Char) : Bool :=
  !needsEscapes cs && !cs.any isBreak && cs.head? ≠ some ' ' && cs.getLast? ≠ some ' ' &&
    !beginsOtherwise cs && !endsWithin true cs

/-- Whether the text can stand between single quotes. -/
def fitsSingleQuotes (cs : List Char) : Bool := !needsEscapes cs && !hasPair isBreak isSpace cs

/-- Whether the text can be a block. -/
def fitsBlock (cs : List Char) : Bool := !needsEscapes cs && cs.getLast? ≠ some ' '

/-- Whether a plain scalar of this text is the text, and looks like nothing else. -/
def isWord (s : String) : Bool := Meaning.ofText s = .text && !isZeroPadded s.toList

/-- The form in which a text is written. -/
def Style.ofText (s : String) : Style :=
  let cs := s.toList
  if cs.contains '\n' then (if fitsBlock cs then .literal else .doubleQuoted)
  else if isWord s && fitsPlain cs then .plain
  else if fitsSingleQuotes cs then .singleQuoted
  else .doubleQuoted

/-! ## Writing -/

/-- Columns of indentation. -/
def spaces (n : Nat) : List Char := List.replicate n ' '

/-- The last digits of a number in base 16, in capitals. -/
def hexDigits : Nat → Nat → List Char
  | 0, _ => []
  | k + 1, n => hexDigits k (n / 16) ++ [(Nat.digitChar (n % 16)).toUpper]

/-- A character after a backslash. -/
def escape (c : Char) : List Char :=
  match c with
  | '\x00' => ['0']
  | '\x07' => ['a']
  | '\x08' => ['b']
  | '\t' => ['t']
  | '\n' => ['n']
  | '\x0b' => ['v']
  | '\x0c' => ['f']
  | '\r' => ['r']
  | '\x1b' => ['e']
  | '\"' => ['\"']
  | '\\' => ['\\']
  | '\u0085' => ['N']
  | '\u2028' => ['L']
  | '\u2029' => ['P']
  | _ =>
    let n := c.toNat
    if n ≤ 0xff then 'x' :: hexDigits 2 n
    else if n ≤ 0xffff then 'u' :: hexDigits 4 n
    else 'U' :: hexDigits 8 n

/-- A character between double quotes. -/
def doubleQuotedChar (c : Char) : List Char :=
  if isPrintable c && !isBreak c && c ≠ '\"' && c ≠ '\\' then [c] else '\\' :: escape c

/-- A character between single quotes. -/
def singleQuotedChar (c : Char) : List Char := if c = '\'' then ['\'', '\''] else [c]

/-- Indents the lines that are not empty. The first one counts if it stands after a line break. -/
def indentLines (n : Nat) : Bool → List Char → List Char
  | _, [] => []
  | afterBreak, c :: r =>
    if isBreak c then c :: indentLines n true r
    else (if afterBreak then spaces n else []) ++ c :: indentLines n false r

/-- Whether the text ends with a line break. -/
def endsLine (cs : List Char) : Bool := cs.getLast?.any isBreak

/-- The signs of a block: how far it is indented where its beginning does not show that, and what is
done with line breaks at its end. -/
def blockSigns (cs : List Char) : List Char :=
  let indentation := if cs.head?.any (fun c => c = ' ' || isBreak c) then ['2'] else []
  let last := cs.reverse.take 2
  indentation ++
    (if !endsLine cs then ['-'] else if last.all isBreak then ['+'] else [])

/-- The text of a scalar, in a form, and with the end of its last line. The lines after the first are
indented by `n` columns. -/
def Style.write (n : Nat) (s : String) : Style → List Char
  | .plain | .folded => s.toList ++ ['\n']
  | .singleQuoted =>
    let inner := indentLines n false (s.toList.flatMap singleQuotedChar)
    '\'' :: inner ++ (if endsLine s.toList then spaces n else []) ++ ['\'', '\n']
  | .doubleQuoted => '\"' :: s.toList.flatMap doubleQuotedChar ++ ['\"', '\n']
  | .literal =>
    let cs := s.toList
    '|' :: blockSigns cs ++ '\n' :: indentLines n true cs ++ (if endsLine cs then [] else ['\n'])

/-- A text as a scalar, with the end of its last line. -/
def scalarLine (n : Nat) (s : String) : List Char := (Style.ofText s).write n s

/-- Whether a text can be a key that is not announced: it is a single line and not too long. -/
def isSimpleKey (s : String) : Bool := !s.toList.any isBreak && s.utf8ByteSize ≤ 128

end FieldSchema.Yaml
