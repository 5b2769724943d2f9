import FieldSchema.Json.Printer
import FieldSchema.Yaml.Form

/-!
# YAML text

Writing values as YAML blocks (`Json.Value.yaml`). A mapping is indented by two columns under its
key, a sequence stands in the columns of its key, and a collection in an item begins on the line of
its dash. Only empty collections are written in brackets.
-/

namespace FieldSchema.Yaml

open FieldSchema.Json (Value Number)

/-- A number. -/
def numberText : Number → List Char
  | .integer n => Json.integerText n
  | .float x => (x.text .yaml).toList

/-- Puts the parts of a block below one another. Each part ends its last line. -/
def stack (n : Nat) (parts : List (List Char)) : List Char := Json.sepBy (spaces n) parts

/-- A value without parts, with the end of its last line. It belongs to a collection in column `n`. -/
def partless (n : Nat) : Value → List Char
  | .null => Json.nullText ++ ['\n']
  | .bool b => Json.boolText b ++ ['\n']
  | .number x => numberText x ++ ['\n']
  | .string s => scalarLine (n + 2) s
  | .array _ => ['[', ']', '\n']
  | .object _ => ['\x7b', '\x7d', '\n']

mutual

/-- A value on the line of its mark, which stands in column `n`, and the lines after it. -/
def besideMark (n : Nat) : Value → List Char
  | .array (v :: vs) => ' ' :: stack (n + 2) (itemLines (n + 2) (v :: vs))
  | .object (e :: es) => ' ' :: stack (n + 2) (entryLines (n + 2) (e :: es))
  | v => ' ' :: partless n v

/-- A value after a colon and its key, which stands in column `n`. -/
def besideKey (n : Nat) : Value → List Char
  | .array (v :: vs) => '\n' :: spaces n ++ stack n (itemLines n (v :: vs))
  | .object (e :: es) => '\n' :: spaces (n + 2) ++ stack (n + 2) (entryLines (n + 2) (e :: es))
  | v => ' ' :: partless n v

/-- The items of a sequence, each with its dash in column `n`. -/
def itemLines (n : Nat) : List Value → List (List Char)
  | [] => []
  | v :: rest => ('-' :: besideMark n v) :: itemLines n rest

/-- The entries of a mapping, each with its key in column `n`. A key that is not simple stands
beside a question mark, and its value beside a colon on a line of its own. -/
def entryLines (n : Nat) : List (String × Value) → List (List Char)
  | [] => []
  | (key, v) :: rest =>
    (if isSimpleKey key then (scalarLine (n + 2) key).dropLast ++ ':' :: besideKey n v
      else '?' :: ' ' :: scalarLine (n + 2) key ++ spaces n ++ ':' :: besideMark n v) ::
      entryLines n rest

end

/-- The lines of a whole document. -/
def documentLines : Value → List Char
  | .array (v :: vs) => stack 0 (itemLines 0 (v :: vs))
  | .object (e :: es) => stack 0 (entryLines 0 (e :: es))
  | v => partless 0 v

end FieldSchema.Yaml

/-- The text of a value as a YAML document. -/
def FieldSchema.Json.Value.yaml (v : FieldSchema.Json.Value) : String :=
  String.ofList (FieldSchema.Yaml.documentLines v)
