import FieldSchema.Binary64.Basic
import FieldSchema.Entries

/-!
# JSON values

A JSON value with the entries of its objects in order, and with whole numbers told apart from
numbers in floating point.
-/

namespace FieldSchema.Json

/-- A JSON number. -/
inductive Number where
  | integer (n : Int)
  | float (x : Binary64)
  deriving DecidableEq

/-- A JSON value. -/
inductive Value where
  | null
  | bool (b : Bool)
  | number (n : Number)
  | string (s : String)
  | array (items : List Value)
  | object (entries : List (String × Value))

namespace Value

/-- A whole number that is not negative. -/
def nat (n : Nat) : Value := .number (.integer n)

/-- A number in floating point. -/
def float (x : Binary64) : Value := .number (.float x)

/-- A list of strings. -/
def strings (xs : List String) : Value := .array (xs.map .string)

/-- A string, or `null`. -/
def stringOrNull : Option String → Value
  | some s => .string s
  | none => .null

/-- The entry of a name in an object. -/
def field? : Value → String → Option Value
  | .object es, name => Entries.find? es name
  | _, _ => none

/-- The text of a string. -/
def string? : Value → Option String
  | .string s => some s
  | _ => none

/-- The items of an array. -/
def array? : Value → Option (List Value)
  | .array xs => some xs
  | _ => none

/-- The entries of an object. -/
def object? : Value → Option (Entries Value)
  | .object es => some es
  | _ => none

end Value

end FieldSchema.Json
