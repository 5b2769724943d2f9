import FieldSchema.Binary64.Basic

/-!
# Constraints

The validation rules that a mapping node declares. A node holds a list of them in the order of
declaration, and a kind may occur several times.
-/

namespace FieldSchema

/-- One declared validation rule. -/
inductive Constraint where
  /-- The value must be present. -/
  | required
  /-- The value must be an email address. -/
  | email
  /-- The value must match a regular expression. -/
  | pattern (expression : String)
  /-- The least length of a text. -/
  | minLength (length : UInt64)
  /-- The greatest length of a text. -/
  | maxLength (length : UInt64)
  /-- The least value, included. -/
  | minimum (bound : Binary64)
  /-- The greatest value, included. -/
  | maximum (bound : Binary64)
  /-- The value must be one of these. -/
  | oneOf (values : List String)
  deriving DecidableEq

namespace Constraint

/-- Comparison of constraints; bounds are compared as numbers. -/
def same : Constraint → Constraint → Bool
  | .minimum x, .minimum y => x.numEq y
  | .maximum x, .maximum y => x.numEq y
  | a, b => a == b

end Constraint

end FieldSchema
