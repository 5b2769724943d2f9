import FieldSchema.Binary64.Basic
import FieldSchema.Entries

/-!
# Properties and models

What a mapping is turned into. A `Property` describes a value inline, or points to a definition by
its name. A `Model` describes a value that stands alone, as a definition or as the body of a
request.

A property knows whether its value must be present. Written out, that is said only by the list of
required names of the enclosing object.

* `definitionRef` is the pointer to a definition, `simpleRef` the name in a pointer.
* `Property.same` and `Model.same` compare what is described: the order of properties in an object
  does not matter, and bounds are compared as numbers.
-/

namespace FieldSchema

/-- The name of the type of a described value. What is written may have any text in its place, but a
description of a mapping has one of these. -/
inductive TypeName where
  | integer
  | number
  | boolean
  | string
  | array
  | object
  deriving DecidableEq, Repr

/-- The keyword of a type name. -/
def TypeName.name : TypeName → String
  | .integer => "integer"
  | .number => "number"
  | .boolean => "boolean"
  | .string => "string"
  | .array => "array"
  | .object => "object"

/-- Validation keywords, each at most once. -/
structure Validation where
  pattern : Option String := none
  minLength : Option UInt64 := none
  maxLength : Option UInt64 := none
  minimum : Option Binary64 := none
  maximum : Option Binary64 := none
  /-- The values to choose from; none stands for no such restriction. -/
  oneOf : List String := []
  deriving DecidableEq

/-- What an inline description of a single value says. -/
structure ScalarProperty where
  type : TypeName
  format : Option String
  description : Option String
  sample : Option String
  validation : Validation
  required : Bool
  deriving DecidableEq

/-- An inline description of a value. -/
inductive Property where
  /-- A pointer to a definition. -/
  | ref (pointer : String) (required : Bool)
  | array (items : Property) (description : Option String) (required : Bool)
  | object (requiredNames : List String) (properties : List (String × Property))
      (description : Option String) (required : Bool)
  | scalar (property : ScalarProperty)

/-- A description of a value that stands alone. -/
inductive Model where
  | object (requiredNames : List String) (properties : Entries Property)
      (description : Option String)
  | array (items : Property) (description : Option String)
  | primitive (type : TypeName) (format : Option String) (description : Option String)

/-! ## Pointers -/

/-- What a pointer to a definition begins with. -/
def definitionsRoot : String := "#/definitions/"

/-- The pointer to the definition of a name. -/
def definitionRef (name : String) : String := definitionsRoot ++ name

/-- The name in a pointer to a definition; any other pointer is its own name. -/
def simpleRef (pointer : String) : String :=
  if definitionsRoot.toList.isPrefixOf pointer.toList then
    String.ofList (pointer.toList.drop definitionsRoot.toList.length)
  else pointer

/-- The name in the pointer to a definition is the name of the definition. -/
theorem simpleRef_definitionRef (name : String) : simpleRef (definitionRef name) = name := by
  simp [simpleRef, definitionRef]

/-! ## Reading descriptions -/

namespace Property

/-- Whether the described value must be present. -/
def isRequired : Property → Bool
  | .ref _ r | .array _ _ r | .object _ _ _ r => r
  | .scalar p => p.required

/-- The description; a pointer has none. -/
def description? : Property → Option String
  | .ref _ _ => none
  | .array _ d _ | .object _ _ d _ => d
  | .scalar p => p.description

/-- The type; a pointer has none. -/
def typeName? : Property → Option TypeName
  | .ref _ _ => none
  | .array .. => some .array
  | .object .. => some .object
  | .scalar p => some p.type

end Property

namespace Model

/-- The type of the described value. -/
def typeName : Model → TypeName
  | .object .. => .object
  | .array .. => .array
  | .primitive t _ _ => t

/-- The properties of an object. -/
def properties? : Model → Option (Entries Property)
  | .object _ ps _ => some ps
  | _ => none

end Model

/-! ## Comparison -/

/-- Comparison of optional bounds as numbers. -/
def Binary64.optionSame : Option Binary64 → Option Binary64 → Bool
  | some x, some y => x.numEq y
  | none, none => true
  | _, _ => false

namespace Validation

/-- Comparison of keywords; bounds are compared as numbers. -/
def same (v w : Validation) : Bool :=
  v.pattern == w.pattern && v.minLength == w.minLength && v.maxLength == w.maxLength &&
    Binary64.optionSame v.minimum w.minimum && Binary64.optionSame v.maximum w.maximum &&
    v.oneOf == w.oneOf

end Validation

/-- Comparison of single values. -/
def ScalarProperty.same (p q : ScalarProperty) : Bool :=
  p.type == q.type && p.format == q.format && p.description == q.description &&
    p.sample == q.sample && p.validation.same q.validation && p.required == q.required

namespace Property

mutual

/-- Comparison of properties. Two objects have the same properties if they have equally many and
each of the first is found, the same, in the second. -/
def same : Property → Property → Bool
  | .ref p r, .ref q s => p == q && r == s
  | .array i d r, .array j e s => same i j && d == e && r == s
  | .object ns ps d r, .object ms qs e s =>
    ns == ms && ps.length == qs.length && allFound ps qs && d == e && r == s
  | .scalar p, .scalar q => p.same q
  | _, _ => false

/-- Whether each of the first properties is found, the same, among the second. -/
def allFound : List (String × Property) → List (String × Property) → Bool
  | [], _ => true
  | (name, p) :: rest, qs =>
    (match Entries.find? qs name with
      | some q => same p q
      | none => false) && allFound rest qs

end

end Property

/-- Comparison of models. -/
def Model.same : Model → Model → Bool
  | .object ns ps d, .object ms qs e =>
    ns == ms && ps.length == qs.length && Property.allFound ps qs && d == e
  | .array i d, .array j e => i.same j && d == e
  | .primitive t f d, .primitive u g e => t == u && f == g && d == e
  | _, _ => false

end FieldSchema
