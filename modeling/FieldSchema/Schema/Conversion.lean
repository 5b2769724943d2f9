import FieldSchema.Schema.Typing

/-!
# From mappings to properties and models

* `Mapping.toProperty` describes a node inline. A named node below it is described by a pointer to
  its definition; a name of the node itself is not looked at.
* `Mapping.toModel` describes a node on its own, in the same way.
* `Mapping.nestedProperty` is the description of a node that stands below another one.

An error is that of the first node, parents before fields and fields in order, that has none of the
known types and is not behind a name.
-/

namespace FieldSchema

namespace Mapping

/-- The description of a node that stands below another: a pointer if the node is named, otherwise
the given one. -/
@[macro_inline]
def orPointer (m : Mapping) (inlined : Except SchemaError Property) : Except SchemaError Property :=
  match m.refName with
  | some name => .ok (.ref (definitionRef name) m.isRequired)
  | none => inlined

/-- The names of the fields that must be present, in order. -/
def requiredNames (fields : List (String × Mapping)) : List String :=
  (fields.filter fun (_, m) => m.isRequired).map Prod.fst

/-- The description of a single value. -/
def scalarProperty (type : ScalarType) (traits : Traits) : Except SchemaError ScalarProperty := do
  let typeName ← type.typeName
  let format ← (Mapping.scalar type traits).format
  return {
    type := typeName
    format := format
    description := traits.extras.description
    sample := traits.extras.sample
    validation := .ofConstraints traits.constraints
    required := traits.isRequired }

mutual

/-- The inline description of a node. -/
def toProperty : Mapping → Except SchemaError Property
  | .scalar type t => do
    let p ← scalarProperty type t
    return .scalar p
  | .list element t => do
    let items ← element.orPointer (toProperty element)
    return .array items t.extras.description t.isRequired
  | .object fields t => do
    let properties ← fieldProperties fields
    return .object (requiredNames fields) (Entries.ofList properties) t.extras.description
      t.isRequired

/-- The descriptions of fields, one for each. -/
def fieldProperties : List (String × Mapping) → Except SchemaError (List (String × Property))
  | [] => .ok []
  | (name, m) :: rest => do
    let p ← m.orPointer (toProperty m)
    let ps ← fieldProperties rest
    return (name, p) :: ps

end

/-- The description of a node that stands below another. -/
def nestedProperty (m : Mapping) : Except SchemaError Property := m.orPointer m.toProperty

/-- The properties of an object and the names that must be present. A repeated name keeps its first
place among the properties and has its last description; it is listed as required once for each
field that must be present. -/
def objectProperties (fields : List (String × Mapping)) :
    Except SchemaError (Entries Property × List String) := do
  let properties ← fieldProperties fields
  return (Entries.ofList properties, requiredNames fields)

/-- The description of a node on its own. -/
def toModel : Mapping → Except SchemaError Model
  | .object fields t => do
    let (properties, required) ← objectProperties fields
    return .object required properties t.extras.description
  | .list element t => do
    let items ← element.nestedProperty
    return .array items t.extras.description
  | .scalar type t => do
    let typeName ← type.typeName
    let format ← (Mapping.scalar type t).format
    return .primitive typeName format t.extras.description

/-! ## Small facts -/

theorem nestedProperty_of_refName {m : Mapping} {name : String} (h : m.refName = some name) :
    m.nestedProperty = .ok (.ref (definitionRef name) m.isRequired) := by
  simp [nestedProperty, orPointer, h]

theorem nestedProperty_of_unnamed {m : Mapping} (h : m.refName = none) :
    m.nestedProperty = m.toProperty := by
  simp [nestedProperty, orPointer, h]

end Mapping

end FieldSchema
