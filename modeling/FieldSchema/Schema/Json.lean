import FieldSchema.Json.Value
import FieldSchema.Schema.Definitions
import FieldSchema.Schema.Fragment

/-!
# Schemas as JSON values

The written form of fragments, and by that of properties, models and parameters. Entries stand in a
fixed order; what is absent is left out, and so are an empty list of required names and an empty list
of allowed values. Whether a single property must be present is not written.
-/

namespace FieldSchema

open Json (Value)

namespace Json

/-- An entry that is left out if there is no value. -/
def optionalEntry {α : Type} (name : String) (write : α → Value) : Option α → Entries Value
  | some a => [(name, write a)]
  | none => []

/-- An entry that is left out if the list is empty. -/
def stringsEntry (name : String) (values : List String) : Entries Value :=
  if values.isEmpty then [] else [(name, .strings values)]

/-- An entry for a length. -/
def lengthEntry (name : String) (length : Option UInt64) : Entries Value :=
  optionalEntry name (fun n => .nat n.toNat) length

theorem mem_optionalEntry {α : Type} {name : String} {write : α → Value} {a : Option α}
    {e : String × Value} :
    e ∈ optionalEntry name write a ↔ ∃ x, a = some x ∧ (name, write x) = e := by
  cases a <;> simp [optionalEntry, eq_comm]

theorem mem_stringsEntry {name : String} {values : List String} {e : String × Value} :
    e ∈ stringsEntry name values ↔ values ≠ [] ∧ (name, .strings values) = e := by
  cases values <;> simp [stringsEntry, eq_comm]

end Json

open Json (optionalEntry stringsEntry lengthEntry)

/-- The entries of validation keywords. -/
def Validation.toEntries (v : Validation) : Entries Value :=
  optionalEntry "pattern" .string v.pattern ++
  lengthEntry "minLength" v.minLength ++
  lengthEntry "maxLength" v.maxLength ++
  optionalEntry "minimum" .float v.minimum ++
  optionalEntry "maximum" .float v.maximum ++
  stringsEntry "enum" v.oneOf

/-! ## Fragments -/

/-- A single value, written. -/
def ScalarFragment.toJson (s : ScalarFragment) : Value :=
  .object (
    ("type", .string s.type) ::
    optionalEntry "format" .string s.format ++
    optionalEntry "description" .string s.description ++
    optionalEntry "example" .string s.sample ++
    s.validation.toEntries)

namespace PropertyFragment

mutual

/-- An inline fragment, written. -/
def toJson : PropertyFragment → Value
  | .ref pointer _ => .object [("$ref", .string pointer)]
  | .array type items description _ =>
    .object (
      ("type", .string type) ::
      ("items", toJson items) ::
      optionalEntry "description" .string description)
  | .object type requiredNames properties description _ =>
    .object (
      ("type", .string type) ::
      stringsEntry "required" requiredNames ++
      ("properties", .object (entriesToJson properties)) ::
      optionalEntry "description" .string description)
  | .scalar s => s.toJson

/-- Named fragments, written. -/
def entriesToJson : List (String × PropertyFragment) → List (String × Value)
  | [] => []
  | (name, p) :: rest => (name, toJson p) :: entriesToJson rest

end

theorem entriesToJson_eq (ps : List (String × PropertyFragment)) :
    entriesToJson ps = ps.map fun e => (e.1, e.2.toJson) := by
  induction ps with
  | nil => rfl
  | cons e ps ih => rw [entriesToJson, ih, List.map_cons]

end PropertyFragment

/-- A fragment that stands alone, written. -/
def ModelFragment.toJson : ModelFragment → Value
  | .object type requiredNames properties description =>
    .object (
      ("type", .string type) ::
      stringsEntry "required" requiredNames ++
      ("properties", .object (PropertyFragment.entriesToJson properties)) ::
      optionalEntry "description" .string description)
  | .array type items description =>
    .object (
      ("type", .string type) ::
      ("items", items.toJson) ::
      optionalEntry "description" .string description)
  | .primitive type format description =>
    .object (
      ("type", .string type) ::
      optionalEntry "format" .string format ++
      optionalEntry "description" .string description)

/-- The fragment of a parameter, written. -/
def ParameterFragment.toJson : ParameterFragment → Value
  | .plain location _ p =>
    .object (
      ("in", .string location.name) ::
      ("name", .string p.name) ::
      optionalEntry "description" .string p.description ++
      ("required", .bool p.required) ::
      ("type", .string p.type) ::
      optionalEntry "format" .string p.format ++
      optionalEntry "items" PropertyFragment.toJson p.items ++
      optionalEntry "collectionFormat" (fun f => .string f.name) p.collectionFormat ++
      p.validation.toEntries)
  | .body p =>
    .object (
      ("in", .string Location.body.name) ::
      ("name", .string p.name) ::
      optionalEntry "description" .string p.description ++
      ("required", .bool p.required) ::
      [("schema", p.schema.toJson)])

/-! ## Descriptions -/

/-- A single value, written as its fragment. -/
def ScalarProperty.toJson (p : ScalarProperty) : Value := p.fragment.toJson

theorem ScalarProperty.toJson_eq (p : ScalarProperty) :
    p.toJson = .object (
      ("type", .string p.type.name) ::
      optionalEntry "format" .string p.format ++
      optionalEntry "description" .string p.description ++
      optionalEntry "example" .string p.sample ++
      p.validation.toEntries) := rfl

namespace Property

variable {items : Property} {properties : List (String × Property)} {requiredNames : List String}
  {description : Option String} {pointer : String} {required : Bool} {p : ScalarProperty}

/-- A property, written as its fragment. -/
def toJson (p : Property) : Value := p.fragment.toJson

theorem toJson_ref : (ref pointer required).toJson = .object [("$ref", .string pointer)] := rfl

theorem toJson_array :
    (array items description required).toJson = .object (
      ("type", .string "array") ::
      ("items", items.toJson) ::
      optionalEntry "description" .string description) := rfl

theorem toJson_object :
    (object requiredNames properties description required).toJson = .object (
      ("type", .string "object") ::
      stringsEntry "required" requiredNames ++
      ("properties", .object (properties.map fun e => (e.1, e.2.toJson))) ::
      optionalEntry "description" .string description) := by
  rw [toJson, fragment, PropertyFragment.toJson, entryFragments_eq,
    PropertyFragment.entriesToJson_eq, List.map_map]
  rfl

theorem toJson_scalar : (scalar p).toJson = p.toJson := rfl

end Property

/-- A model, written as its fragment. -/
def Model.toJson (model : Model) : Value := model.fragment.toJson

/-- A parameter, written as its fragment. -/
def Parameter.toJson (p : Parameter) : Value := p.fragment.toJson

/-! ## Documents -/

/-- The document of a list of parameters. -/
def Parameter.document (parameters : List Parameter) : Value :=
  .object [("parameters", .array (parameters.map toJson))]

/-- The document of merged definitions. -/
def Definitions.document (d : Definitions) : Value :=
  .object [("definitions", .object (d.entries.map fun (name, model) => (name, model.toJson)))]

end FieldSchema
