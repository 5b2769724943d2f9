import FieldSchema.Schema.Parameter

/-!
# Fragments

What is written as JSON. A fragment says what a property, a model or a parameter says, but its type
is a text. Descriptions have the types of `TypeName` only; a fragment may have any text there, an
array or an object included.

* `Property.fragment`, `Model.fragment`, `Parameter.fragment`: the fragment of a description, with
  the keyword of its type.
-/

namespace FieldSchema

/-! ## Fragments -/

/-- What an inline fragment of a single value says. -/
structure ScalarFragment where
  type : String
  format : Option String
  description : Option String
  sample : Option String
  validation : Validation
  required : Bool

/-- An inline fragment. -/
inductive PropertyFragment where
  /-- A pointer to a definition. -/
  | ref (pointer : String) (required : Bool)
  | array (type : String) (items : PropertyFragment) (description : Option String)
      (required : Bool)
  | object (type : String) (requiredNames : List String)
      (properties : List (String × PropertyFragment)) (description : Option String)
      (required : Bool)
  | scalar (fragment : ScalarFragment)

/-- A fragment that stands alone. -/
inductive ModelFragment where
  | object (type : String) (requiredNames : List String) (properties : Entries PropertyFragment)
      (description : Option String)
  | array (type : String) (items : PropertyFragment) (description : Option String)
  | primitive (type : String) (format : Option String) (description : Option String)

/-- The fragment of a parameter that is carried outside the body. -/
structure PlainFragment where
  name : String
  description : Option String
  required : Bool
  type : String
  format : Option String
  /-- The fragment of the elements of a list. -/
  items : Option PropertyFragment
  collectionFormat : Option CollectionFormat
  validation : Validation

/-- The fragment of a parameter that is the body of the request. -/
structure BodyFragment where
  name : String
  description : Option String
  required : Bool
  schema : ModelFragment

/-- The fragment of a request parameter. -/
inductive ParameterFragment where
  | plain (location : Location) (outside_body : location ≠ .body) (fragment : PlainFragment)
  | body (fragment : BodyFragment)

/-! ## Fragments of descriptions -/

/-- The fragment of a single value. -/
def ScalarProperty.fragment (p : ScalarProperty) : ScalarFragment where
  type := p.type.name
  format := p.format
  description := p.description
  sample := p.sample
  validation := p.validation
  required := p.required

namespace Property

mutual

/-- The fragment of a property. -/
def fragment : Property → PropertyFragment
  | .ref pointer required => .ref pointer required
  | .array items description required =>
    .array TypeName.array.name (fragment items) description required
  | .object requiredNames properties description required =>
    .object TypeName.object.name requiredNames (entryFragments properties) description required
  | .scalar p => .scalar p.fragment

/-- The fragments of named properties. -/
def entryFragments : List (String × Property) → List (String × PropertyFragment)
  | [] => []
  | (name, p) :: rest => (name, fragment p) :: entryFragments rest

end

theorem entryFragments_eq (ps : List (String × Property)) :
    entryFragments ps = ps.map fun e => (e.1, e.2.fragment) := by
  induction ps with
  | nil => rfl
  | cons e ps ih => rw [entryFragments, ih, List.map_cons]

end Property

/-- The fragment of a model. -/
def Model.fragment : Model → ModelFragment
  | .object requiredNames properties description =>
    .object TypeName.object.name requiredNames (Property.entryFragments properties) description
  | .array items description => .array TypeName.array.name items.fragment description
  | .primitive type format description => .primitive type.name format description

/-- The fragment of a parameter that is carried outside the body. -/
def PlainParameter.fragment (p : PlainParameter) : PlainFragment where
  name := p.name
  description := p.description
  required := p.required
  type := p.type.name
  format := p.format
  items := p.items.map Property.fragment
  collectionFormat := p.collectionFormat
  validation := p.validation

/-- The fragment of a parameter that is the body of the request. -/
def BodyParameter.fragment (p : BodyParameter) : BodyFragment where
  name := p.name
  description := p.description
  required := p.required
  schema := p.schema.fragment

/-- The fragment of a request parameter. -/
def Parameter.fragment : Parameter → ParameterFragment
  | .plain location outside p => .plain location outside p.fragment
  | .body p => .body p.fragment

end FieldSchema
