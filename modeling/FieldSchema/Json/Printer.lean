import FieldSchema.Binary64.Layout
import FieldSchema.Json.Value

/-!
# JSON text

Writing JSON values, on one line (`Json.Value.compact`) or indented by two spaces
(`Json.Value.pretty`). Strings escape the quote, the backslash and the control characters below the
space, and nothing else. A number that is not finite has no JSON text and is written as `null`.
-/

namespace FieldSchema.Json

/-- A digit of base 16, in lower case. -/
def hexDigit (n : Nat) : Char := (Nat.toDigits 16 n).headD '0'

/-- A character inside a string. -/
def escape (c : Char) : List Char :=
  if c = '\"' then ['\\', '\"']
  else if c = '\\' then ['\\', '\\']
  else if c = '\n' then ['\\', 'n']
  else if c = '\r' then ['\\', 'r']
  else if c = '\t' then ['\\', 't']
  else if c = '\x08' then ['\\', 'b']
  else if c = '\x0c' then ['\\', 'f']
  else if c.toNat < 0x20 then
    ['\\', 'u', '0', '0', hexDigit (c.toNat / 16), hexDigit (c.toNat % 16)]
  else [c]

/-- A string with its quotes. -/
def quote (s : String) : List Char := '\"' :: s.toList.flatMap escape ++ ['\"']

/-- A whole number. -/
def integerText (n : Int) : List Char :=
  if n < 0 then '-' :: (Nat.repr n.natAbs).toList else (Nat.repr n.natAbs).toList

/-- A number. -/
def Number.chars : Number → List Char
  | .integer n => integerText n
  | .float x => (x.text .json).toList

/-- A truth value. -/
def boolText (b : Bool) : List Char := if b then ['t', 'r', 'u', 'e'] else ['f', 'a', 'l', 's', 'e']

/-- The word for no value. -/
def nullText : List Char := ['n', 'u', 'l', 'l']

/-- Puts a separator between parts. -/
def sepBy (separator : List Char) : List (List Char) → List Char
  | [] => []
  | [x] => x
  | x :: y :: rest => x ++ separator ++ sepBy separator (y :: rest)

namespace Value

mutual

/-- The text of a value on one line, without blanks. -/
def chars : Value → List Char
  | .null => nullText
  | .bool b => boolText b
  | .number n => n.chars
  | .string s => quote s
  | .array items => '[' :: sepBy [','] (itemChars items) ++ [']']
  | .object entries => '\x7b' :: sepBy [','] (entryChars entries) ++ ['\x7d']

/-- The texts of the items of an array. -/
def itemChars : List Value → List (List Char)
  | [] => []
  | v :: rest => chars v :: itemChars rest

/-- The texts of the entries of an object. -/
def entryChars : List (String × Value) → List (List Char)
  | [] => []
  | (k, v) :: rest => (quote k ++ ':' :: chars v) :: entryChars rest

end

/-- The text of a value on one line, without blanks. -/
def compact (v : Value) : String := String.ofList v.chars

/-- The start of a line at a depth. -/
def indentation (depth : Nat) : List Char := '\n' :: List.replicate (2 * depth) ' '

/-- Puts parts on lines of their own between brackets; no parts leave the brackets alone. -/
def block (opening closing : Char) (depth : Nat) (parts : List (List Char)) : List Char :=
  if parts.isEmpty then [opening, closing]
  else
    opening :: indentation (depth + 1) ++ sepBy (',' :: indentation (depth + 1)) parts ++
      indentation depth ++ [closing]

mutual

/-- The indented text of a value whose first line stands at a depth. -/
def prettyChars (depth : Nat) : Value → List Char
  | .null => nullText
  | .bool b => boolText b
  | .number n => n.chars
  | .string s => quote s
  | .array items => block '[' ']' depth (prettyItems depth items)
  | .object entries => block '\x7b' '\x7d' depth (prettyEntries depth entries)

/-- The indented texts of the items of an array. -/
def prettyItems (depth : Nat) : List Value → List (List Char)
  | [] => []
  | v :: rest => prettyChars (depth + 1) v :: prettyItems depth rest

/-- The indented texts of the entries of an object. -/
def prettyEntries (depth : Nat) : List (String × Value) → List (List Char)
  | [] => []
  | (k, v) :: rest => (quote k ++ ':' :: ' ' :: prettyChars (depth + 1) v) :: prettyEntries depth rest

end

/-- The text of a value with two spaces for each depth. -/
def pretty (v : Value) : String := String.ofList (prettyChars 0 v)

end Value

end FieldSchema.Json
