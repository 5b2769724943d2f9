/-!
# Scalar types

The type of a single value in a mapping, and the tags it is written with. Some types have several
tags; a tag of no type is kept as it is written, and it is for the schema builders to refuse it.
-/

namespace FieldSchema

/-- The type of a scalar field. -/
inductive ScalarType where
  /-- A 32-bit integer. -/
  | int
  /-- A 64-bit integer. -/
  | long
  /-- An integer of any size. -/
  | bigInteger
  /-- A single precision number. -/
  | float
  /-- A double precision number. -/
  | double
  /-- A decimal number of any precision. -/
  | bigDecimal
  | boolean
  /-- Free text. -/
  | text
  | uuid
  /-- A day and a time. -/
  | dateTime
  /-- A calendar day. -/
  | date
  /-- A tag that names no known type. -/
  | custom (tag : String)
  deriving DecidableEq, Repr

namespace ScalarType

/-- The type a tag is written for. -/
def ofTag : String → ScalarType
  | "int" | "integer" | "int32" => .int
  | "long" | "int64" => .long
  | "bigInteger" | "bigint" => .bigInteger
  | "float" => .float
  | "double" => .double
  | "bigDecimal" | "decimal" => .bigDecimal
  | "boolean" | "bool" => .boolean
  | "text" | "string" => .text
  | "uuid" => .uuid
  | "datetime" | "dateTime" | "date-time" => .dateTime
  | "date" => .date
  | tag => .custom tag

/-- The tag a type is printed with. -/
def tag : ScalarType → String
  | .int => "int"
  | .long => "long"
  | .bigInteger => "bigInteger"
  | .float => "float"
  | .double => "double"
  | .bigDecimal => "bigDecimal"
  | .boolean => "boolean"
  | .text => "text"
  | .uuid => "uuid"
  | .dateTime => "datetime"
  | .date => "date"
  | .custom tag => tag

/-- Whether a type is a tag of no known type. -/
def isCustom : ScalarType → Bool
  | .custom _ => true
  | _ => false

/-- Every known type is read back from the tag it is printed with. -/
theorem ofTag_tag (t : ScalarType) (h : t.isCustom = false) : ofTag t.tag = t := by
  cases t <;> first | rfl | simp [isCustom] at h

end ScalarType

end FieldSchema
