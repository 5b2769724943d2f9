import FieldSchema.Mapping.ScalarType
import FieldSchema.Mapping.Constraint

/-!
# Mappings

A mapping describes a value by a tree: a scalar, a list of one kind of element, or an object of
named fields. Every node carries `Traits`: the constraints declared for it and its extras, such as
the place of a request parameter or the name under which the node is a reusable definition.

* `Mapping.refName` is the name of a node; the empty name is no name.
* `Mapping.nodes` lists the nodes of a tree, a node before the nodes below it.
* `Mapping.same` compares trees, with bounds compared as numbers.

Field names may repeat within an object.
-/

namespace FieldSchema

/-- Where a request carries a parameter. -/
inductive Location where
  | query
  | path
  | header
  | formData
  | body
  deriving DecidableEq, Repr

namespace Location

/-- All locations. -/
def all : List Location := [.query, .path, .header, .formData, .body]

/-- The keyword of a location. -/
def name : Location → String
  | .query => "query"
  | .path => "path"
  | .header => "header"
  | .formData => "formData"
  | .body => "body"

end Location

/-- What a node says about its presentation. -/
structure Extras where
  /-- The place of a node that is used as a parameter. -/
  location : Option Location := none
  description : Option String := none
  /-- A format that replaces the one the type implies. -/
  format : Option String := none
  /-- The name under which the node is a definition. -/
  refName : Option String := none
  /-- An example value. -/
  sample : Option String := none
  deriving DecidableEq

/-- What a node of any shape carries. -/
structure Traits where
  constraints : List Constraint := []
  extras : Extras := {}
  deriving DecidableEq

/-- A mapping tree. -/
inductive Mapping where
  | scalar (type : ScalarType) (traits : Traits)
  | list (element : Mapping) (traits : Traits)
  | object (fields : List (String × Mapping)) (traits : Traits)

instance : Inhabited Mapping := ⟨.object [] {}⟩

namespace Traits

/-- Whether the value must be present. -/
def isRequired (t : Traits) : Bool := t.constraints.contains .required

/-- Whether the value must be an email address. -/
def isEmail (t : Traits) : Bool := t.constraints.contains .email

/-- The definition name, if there is one and it is not empty. -/
def refName (t : Traits) : Option String := t.extras.refName.filter (· ≠ "")

/-- Comparison of traits; bounds are compared as numbers. -/
def same (t u : Traits) : Bool :=
  t.constraints.length == u.constraints.length &&
    (t.constraints.zip u.constraints).all (fun (a, b) => a.same b) &&
    t.extras == u.extras

end Traits

namespace Mapping

/-- The constraints and extras of a node. -/
def traits : Mapping → Traits
  | .scalar _ t | .list _ t | .object _ t => t

/-- The node with other traits. -/
def withTraits : Mapping → Traits → Mapping
  | .scalar type _, t => .scalar type t
  | .list element _, t => .list element t
  | .object fields _, t => .object fields t

/-! ## Making nodes -/

/-- A plain scalar. -/
def ofType (type : ScalarType) : Mapping := .scalar type {}

/-- A plain 32-bit integer. -/
def int : Mapping := ofType .int

/-- A plain 64-bit integer. -/
def long : Mapping := ofType .long

/-- A plain text. -/
def text : Mapping := ofType .text

/-- A plain list. -/
def listOf (element : Mapping) : Mapping := .list element {}

/-- A plain object. -/
def objectOf (fields : List (String × Mapping)) : Mapping := .object fields {}

/-- Declares one more constraint, after those declared already. -/
def constrained (m : Mapping) (c : Constraint) : Mapping :=
  m.withTraits { m.traits with constraints := m.traits.constraints ++ [c] }

/-- Declares that the value must be present. -/
def required (m : Mapping) : Mapping := m.constrained .required

/-- Replaces all extras. -/
def withExtras (m : Mapping) (extras : Extras) : Mapping :=
  m.withTraits { m.traits with extras := extras }

/-! ## Reading nodes -/

/-- The constraints in order of declaration. -/
def constraints (m : Mapping) : List Constraint := m.traits.constraints

/-- The extras of a node. -/
def extras (m : Mapping) : Extras := m.traits.extras

/-- Whether the value must be present. -/
def isRequired (m : Mapping) : Bool := m.traits.isRequired

/-- Whether the value must be an email address. -/
def isEmail (m : Mapping) : Bool := m.traits.isEmail

/-- The name under which the node is a definition; the empty name is none. -/
def refName (m : Mapping) : Option String := m.traits.refName

/-- The fields of an object. -/
def fields? : Mapping → Option (List (String × Mapping))
  | .object fields _ => some fields
  | _ => none

mutual

/-- All nodes of a tree, each before the nodes below it, fields in order. -/
def nodes : Mapping → List Mapping
  | .scalar type t => [.scalar type t]
  | .list element t => .list element t :: nodes element
  | .object fields t => .object fields t :: fieldNodes fields

/-- All nodes of the fields of an object. -/
def fieldNodes : List (String × Mapping) → List Mapping
  | [] => []
  | (_, m) :: rest => nodes m ++ fieldNodes rest

end

mutual

/-- Comparison of trees: shape, order, names and traits, with bounds compared as numbers. -/
def same : Mapping → Mapping → Bool
  | .scalar a t, .scalar b u => a == b && t.same u
  | .list a t, .list b u => same a b && t.same u
  | .object fs t, .object gs u => sameFields fs gs && t.same u
  | _, _ => false

/-- Comparison of field lists. -/
def sameFields : List (String × Mapping) → List (String × Mapping) → Bool
  | [], [] => true
  | (n, a) :: fs, (m, b) :: gs => n == m && same a b && sameFields fs gs
  | _, _ => false

end

/-! ## Small facts -/

@[simp] theorem traits_withTraits (m : Mapping) (t : Traits) : (m.withTraits t).traits = t := by
  cases m <;> rfl

@[simp] theorem constraints_constrained (m : Mapping) (c : Constraint) :
    (m.constrained c).constraints = m.constraints ++ [c] := by
  simp [constrained, constraints]

@[simp] theorem extras_constrained (m : Mapping) (c : Constraint) :
    (m.constrained c).extras = m.extras := by
  simp [constrained, extras]

@[simp] theorem extras_withExtras (m : Mapping) (e : Extras) : (m.withExtras e).extras = e := by
  simp [withExtras, extras]

@[simp] theorem constraints_withExtras (m : Mapping) (e : Extras) :
    (m.withExtras e).constraints = m.constraints := by
  simp [withExtras, constraints]

@[simp] theorem isRequired_required (m : Mapping) : m.required.isRequired = true := by
  simp [required, isRequired, Traits.isRequired, constrained]

end Mapping

end FieldSchema
