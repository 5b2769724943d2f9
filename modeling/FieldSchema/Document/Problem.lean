import FieldSchema.Binary64.Layout
import FieldSchema.Json.Printer
import FieldSchema.Text.Quoted

/-!
# Problems of a document

Why a document cannot be taken for what it should hold. A `Fault` is either a mistake in the text,
which has no stable wording, or a `Problem` of the data: the text is well formed so far, but says
something else than expected. A `Wording` holds what the formats call things differently.
-/

namespace FieldSchema.Document

/-- What stands where something else was expected. -/
inductive Found where
  | nothing
  | boolean (b : Bool)
  | integer (n : Int)
  /-- An integer of more than 64 bits. -/
  | wideInteger (n : Int)
  | float (x : Binary64)
  | string (s : String)
  | sequence
  | map
  deriving DecidableEq

/-- A problem of the data of a document. -/
inductive Problem where
  | missingField (name : String)
  | duplicateField (name : String)
  | unknownField (name : String) (known : List String)
  | unknownVariant (name : String) (known : List String)
  | invalidType (found : Found) (expected : String)
  | invalidValue (found : Found) (expected : String)
  | invalidLength (length : Nat) (expected : String)
  deriving DecidableEq

/-- Why a document cannot be read. -/
inductive Fault where
  /-- A mistake in the text, or nesting beyond the limit. -/
  | malformed
  | data (problem : Problem)
  deriving DecidableEq

/-- The words of a format. -/
structure Wording where
  nothing : String
  numbers : Binary64.Layout

namespace Wording

/-- The words for JSON documents. -/
def json : Wording := ⟨"null", .json⟩

/-- The words for YAML documents, where numbers are written without exponents. -/
def yaml : Wording := ⟨"unit value", .positional⟩

end Wording

/-- A name between the marks that messages put around names. -/
def marked (name : String) : String := "`" ++ name ++ "`"

/-- What was found, in words. -/
def Found.text (w : Wording) : Found → String
  | .nothing => w.nothing
  | .boolean b => "boolean " ++ marked (String.ofList (Json.boolText b))
  | .integer n => "integer " ++ marked (String.ofList (Json.integerText n))
  | .wideInteger n =>
    "integer " ++ marked (String.ofList (Json.integerText n)) ++
      (if n < 0 then " as i128" else " as u128")
  | .float x => "floating point " ++ marked (x.text w.numbers)
  | .string s => "string " ++ Text.quoted s
  | .sequence => "sequence"
  | .map => "map"

/-- A choice of names, in words. -/
def choiceText : List String → String
  | [a] => marked a
  | [a, b] => marked a ++ " or " ++ marked b
  | names => "one of " ++ String.intercalate ", " (names.map marked)

/-- A problem, in words. -/
def Problem.message (w : Wording) : Problem → String
  | .missingField name => "missing field " ++ marked name
  | .duplicateField name => "duplicate field " ++ marked name
  | .unknownField name known =>
    "unknown field " ++ marked name ++ ", expected " ++ choiceText known
  | .unknownVariant name known =>
    "unknown variant " ++ marked name ++ ", expected " ++ choiceText known
  | .invalidType found expected =>
    "invalid type: " ++ found.text w ++ ", expected " ++ expected
  | .invalidValue found expected =>
    "invalid value: " ++ found.text w ++ ", expected " ++ expected
  | .invalidLength length expected =>
    "invalid length " ++ Nat.repr length ++ ", expected " ++ expected

/-- The words of a fault, if they are stable. -/
def Fault.message? (w : Wording) : Fault → Option String
  | .malformed => none
  | .data problem => some (problem.message w)

end FieldSchema.Document
