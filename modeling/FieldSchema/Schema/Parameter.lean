import FieldSchema.Schema.Conversion

/-!
# Request parameters

`Mapping.toParameters` turns a named mapping into request parameters. An object without a location
is a group: each of its fields is one parameter under its own name. Groups do not nest, so any other
node must have a location.

A body parameter carries a model. Any other carries a type, and is a single value or, where the
settings allow it, a list of primitive elements; its elements are described inline, because items of
a parameter cannot hold pointers.
-/

namespace FieldSchema

/-- How the values of a list parameter are joined. -/
inductive CollectionFormat where
  | csv
  | ssv
  | tsv
  | pipes
  | multi
  deriving DecidableEq, Repr

namespace CollectionFormat

/-- All formats. -/
def all : List CollectionFormat := [.csv, .ssv, .tsv, .pipes, .multi]

/-- The keyword of a format. -/
def name : CollectionFormat → String
  | .csv => "csv"
  | .ssv => "ssv"
  | .tsv => "tsv"
  | .pipes => "pipes"
  | .multi => "multi"

end CollectionFormat

/-- The settings for parameters. -/
structure Settings where
  /-- Whether lists of primitive elements may be carried outside the body. -/
  primitiveListParams : Bool := true
  /-- The format to state for list parameters. -/
  collectionFormat : Option CollectionFormat := none
  deriving DecidableEq, Repr

/-- A parameter that is carried outside the body. -/
structure PlainParameter where
  name : String
  description : Option String
  required : Bool
  type : TypeName
  format : Option String
  /-- The description of the elements of a list. -/
  items : Option Property
  collectionFormat : Option CollectionFormat
  validation : Validation

/-- A parameter that is the body of the request. -/
structure BodyParameter where
  name : String
  description : Option String
  required : Bool
  schema : Model

/-- A request parameter. -/
inductive Parameter where
  | plain (location : Location) (outside_body : location ≠ .body) (parameter : PlainParameter)
  | body (parameter : BodyParameter)

namespace Parameter

/-- Where the request carries the parameter. -/
def location : Parameter → Location
  | .plain l _ _ => l
  | .body _ => .body

/-- The name of the parameter. -/
def name : Parameter → String
  | .plain _ _ p => p.name
  | .body p => p.name

/-- Whether the parameter must be given. -/
def isRequired : Parameter → Bool
  | .plain _ _ p => p.required
  | .body p => p.required

/-- The description. -/
def description? : Parameter → Option String
  | .plain _ _ p => p.description
  | .body p => p.description

end Parameter

namespace Mapping

/-- The description of the elements of a list. A name of the element is not looked at. -/
def itemsProperty : Mapping → Except SchemaError (Option Property)
  | .list element _ => do
    let items ← element.toProperty
    return some items
  | .scalar .. | .object .. => .ok none

/-- The parameter of a node that is carried outside the body. A part of the path is always
required. -/
def toPlainParameter (settings : Settings) (name : String) (location : Location) (m : Mapping) :
    Except SchemaError PlainParameter := do
  if !m.isPrimitive settings.primitiveListParams then
    throw (.nonPrimitiveParameter name)
  let items ← m.itemsProperty
  let type ← m.typeName
  let format ← m.format
  return {
    name := name
    description := m.extras.description
    required := location == .path || m.isRequired
    type := type
    format := format
    items := items
    collectionFormat := items.bind fun _ => settings.collectionFormat
    validation := m.validation }

/-- The parameter of a node. -/
def toParameter (settings : Settings) (name : String) (m : Mapping) :
    Except SchemaError Parameter :=
  match m.extras.location with
  | none => .error .missingLocation
  | some location =>
    if h : location = .body then do
      let schema ← m.toModel
      return .body {
        name := name
        description := m.extras.description
        required := m.isRequired
        schema := schema }
    else do
      let p ← m.toPlainParameter settings name location
      return .plain location h p

/-- The parameters of a named mapping: those of its fields if it is a group, otherwise one. -/
def toParameters (settings : Settings) (name : String) (m : Mapping) :
    Except SchemaError (List Parameter) :=
  match m, m.extras.location with
  | .object fields _, none => fields.mapM fun (fieldName, field) => field.toParameter settings fieldName
  | _, _ => do
    let p ← m.toParameter settings name
    return [p]

end Mapping

end FieldSchema
