/-!
# Why a mapping has no schema

The causes for which a mapping cannot be described, and their texts.
-/

namespace FieldSchema

/-- A cause for which a mapping has no description. -/
inductive SchemaError where
  /-- A node that is used as a parameter does not say where it is carried. -/
  | missingLocation
  /-- The tag of a scalar names no known type. -/
  | unsupportedType (tag : String)
  /-- A parameter outside the body is not a single value or an allowed list. -/
  | nonPrimitiveParameter (name : String)
  deriving DecidableEq, Repr

/-- The text of a cause. -/
def SchemaError.message : SchemaError → String
  | .missingLocation => "in is required!!!"
  | .unsupportedType tag => "Unsupported target type: " ++ tag
  | .nonPrimitiveParameter name =>
    "Parameter '" ++ name ++ "' is not primitive and must be declared in body"

end FieldSchema
