import FieldSchema.Document.Definition
import FieldSchema.Document.Error

/-!
# From records to mappings

`Definition.toMapping` makes a mapping of a record, node by node. A list needs an element and an
object fields, and no node has children that do not belong to its type; the first node, parents
before children and fields in order, at which this fails is reported.
-/

namespace FieldSchema.Document

namespace Keywords

/-- The constraint of a keyword that is set. -/
def declared (b : Bool) (c : Constraint) : List Constraint := if b then [c] else []

/-- The constraints that keywords declare, in a fixed order. -/
def constraints (w : Keywords) : List Constraint :=
  declared w.required .required ++
  declared w.email .email ++
  (w.pattern.map Constraint.pattern).toList ++
  (w.minLength.map Constraint.minLength).toList ++
  (w.maxLength.map Constraint.maxLength).toList ++
  (w.minimum.map Constraint.minimum).toList ++
  (w.maximum.map Constraint.maximum).toList ++
  (w.oneOf.map Constraint.oneOf).toList

/-- The traits that keywords declare. -/
def traits (w : Keywords) : Traits := ⟨w.constraints, w.extras⟩

end Keywords

namespace Definition

mutual

/-- The mapping of the record at a path. -/
def toMapping (path : Path) : Definition → Except Error Mapping
  | .mk type items fields keywords =>
    if type = "list" then
      match items, fields with
      | _, some _ => .error (.misfit path .listWithFields)
      | none, none => .error (.misfit path .listWithoutItems)
      | some element, none => do
        let m ← toMapping (path ++ [.element]) element
        return .list m keywords.traits
    else if type = "object" then
      match items, fields with
      | some _, _ => .error (.misfit path .objectWithItems)
      | none, none => .error (.misfit path .objectWithoutFields)
      | none, some ds => do
        let ms ← fieldMappings path ds
        return .object ms keywords.traits
    else
      match items, fields with
      | none, none => .ok (.scalar (.ofTag type) keywords.traits)
      | _, _ => .error (.misfit path .scalarWithChildren)

/-- The mappings of the fields of the record at a path. -/
def fieldMappings (path : Path) :
    List (String × Definition) → Except Error (List (String × Mapping))
  | [] => .ok []
  | (name, d) :: rest => do
    let m ← toMapping (path ++ [.field name]) d
    let ms ← fieldMappings path rest
    return (name, m) :: ms

end

end Definition

end FieldSchema.Document
