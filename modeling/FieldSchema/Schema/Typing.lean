import FieldSchema.Mapping.Basic
import FieldSchema.Schema.Property
import FieldSchema.Schema.Error

/-!
# Types, formats and keywords of a node

What a single node says about its value, before its children are looked at: the type name, the
format, the validation keywords, and whether it is primitive, which means that it can be carried
outside a request body.
-/

namespace FieldSchema

namespace ScalarType

/-- The type name of a scalar type; a tag of no known type has none. -/
def typeName : ScalarType → Except SchemaError TypeName
  | .int | .long | .bigInteger => .ok .integer
  | .float | .double | .bigDecimal => .ok .number
  | .boolean => .ok .boolean
  | .text | .uuid | .dateTime | .date => .ok .string
  | .custom tag => .error (.unsupportedType tag)

/-- The format that a scalar type implies. -/
def impliedFormat : ScalarType → Except SchemaError (Option String)
  | .int => .ok (some "int32")
  | .long => .ok (some "int64")
  | .float => .ok (some "float")
  | .double => .ok (some "double")
  | .uuid => .ok (some "uuid")
  | .dateTime => .ok (some "date-time")
  | .date => .ok (some "date")
  | .bigInteger | .bigDecimal | .boolean | .text => .ok none
  | .custom tag => .error (.unsupportedType tag)

end ScalarType

namespace Validation

/-- Takes one constraint into the keywords: the last one of a kind holds. Presence and being an email
address are no keywords. -/
def declare (v : Validation) : Constraint → Validation
  | .pattern p => { v with pattern := some p }
  | .minLength n => { v with minLength := some n }
  | .maxLength n => { v with maxLength := some n }
  | .minimum x => { v with minimum := some x }
  | .maximum x => { v with maximum := some x }
  | .oneOf values => { v with oneOf := values }
  | .required | .email => v

/-- The keywords of a list of constraints. -/
def ofConstraints (cs : List Constraint) : Validation := cs.foldl declare {}

end Validation

namespace Mapping

/-- The type name of a node. -/
def typeName : Mapping → Except SchemaError TypeName
  | .scalar type _ => type.typeName
  | .list .. => .ok .array
  | .object .. => .ok .object

/-- The format of a node: the declared one unless it is empty, then `email` for a text that must be
an email address, then the one that the type implies. -/
def format (m : Mapping) : Except SchemaError (Option String) :=
  match m.extras.format.filter (· ≠ "") with
  | some declared => .ok (some declared)
  | none =>
    match m with
    | .scalar .text t => .ok (if t.isEmail then some "email" else none)
    | .scalar type _ => type.impliedFormat
    | .list .. | .object .. => .ok none

/-- The validation keywords of a node. -/
def validation (m : Mapping) : Validation := .ofConstraints m.constraints

/-- Whether a node needs no object to describe it. A list is primitive only where lists are allowed
and its element is primitive. -/
def isPrimitive (lists : Bool) : Mapping → Bool
  | .scalar .. => true
  | .list element _ => lists && isPrimitive lists element
  | .object .. => false

end Mapping

end FieldSchema
