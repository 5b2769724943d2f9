import FieldSchema.Document.Record
import FieldSchema.Mapping.Basic

/-!
# Definition records

The node of a mapping document is a record of sixteen keys. A reader gives its values one after the
other as `Slot`s; `Definition.ofSlots` puts them together, in whichever order they came.

* `Key` names the keys; their order here is that of a record written as a sequence.
* `Keywords.set_comm`: slots of different keys can be taken in in either order.
-/

namespace FieldSchema.Document

/-- What a definition record is called in messages. -/
def recordName : String := "struct MappingDef"

/-- A key of a definition record. -/
inductive Key where
  | type
  | items
  | fields
  | required
  | email
  | pattern
  | minLength
  | maxLength
  | minimum
  | maximum
  | oneOf
  | location
  | description
  | format
  | refName
  | sample
  deriving DecidableEq, Repr

namespace Key

/-- All keys in order. -/
def all : List Key :=
  [.type, .items, .fields, .required, .email, .pattern, .minLength, .maxLength, .minimum, .maximum,
    .oneOf, .location, .description, .format, .refName, .sample]

/-- How a key is written. -/
def name : Key → String
  | .type => "type"
  | .items => "items"
  | .fields => "fields"
  | .required => "required"
  | .email => "email"
  | .pattern => "pattern"
  | .minLength => "minLength"
  | .maxLength => "maxLength"
  | .minimum => "minimum"
  | .maximum => "maximum"
  | .oneOf => "oneOf"
  | .location => "in"
  | .description => "description"
  | .format => "format"
  | .refName => "refName"
  | .sample => "example"

theorem mem_all (k : Key) : k ∈ all := by cases k <;> decide

end Key

/-- The keys of a definition record. -/
def keys : KeySet Key := ⟨Key.all, Key.name⟩

/-- Every key is found by its name. -/
theorem find?_name (k : Key) : keys.find? k.name = some k := by cases k <;> decide

/-- The values of a record other than its type and its children. -/
structure Keywords where
  required : Bool := false
  email : Bool := false
  pattern : Option String := none
  minLength : Option UInt64 := none
  maxLength : Option UInt64 := none
  minimum : Option Binary64 := none
  maximum : Option Binary64 := none
  oneOf : Option (List String) := none
  extras : Extras := {}
  deriving DecidableEq

/-- A node of a mapping document, as it is written: nothing says yet that the children fit the
type. -/
inductive Definition where
  | mk (type : String) (items : Option Definition) (fields : Option (List (String × Definition)))
      (keywords : Keywords)

namespace Definition

/-- The tag of the type. -/
def type : Definition → String
  | .mk type _ _ _ => type

/-- The element of a list. -/
def items : Definition → Option Definition
  | .mk _ items _ _ => items

/-- The fields of an object. -/
def fields : Definition → Option (Entries Definition)
  | .mk _ _ fields _ => fields

/-- What a node of any type may say. -/
def keywords : Definition → Keywords
  | .mk _ _ _ keywords => keywords

end Definition

/-- The value read for one key. -/
inductive Slot where
  | type (s : String)
  | items (d : Option Definition)
  | fields (ds : Option (Entries Definition))
  | required (b : Bool)
  | email (b : Bool)
  | pattern (s : Option String)
  | minLength (n : Option UInt64)
  | maxLength (n : Option UInt64)
  | minimum (x : Option Binary64)
  | maximum (x : Option Binary64)
  | oneOf (ss : Option (List String))
  | location (l : Option Location)
  | description (s : Option String)
  | format (s : Option String)
  | refName (s : Option String)
  | sample (s : Option String)

namespace Slot

/-- The key a slot is for. -/
def key : Slot → Key
  | .type _ => .type
  | .items _ => .items
  | .fields _ => .fields
  | .required _ => .required
  | .email _ => .email
  | .pattern _ => .pattern
  | .minLength _ => .minLength
  | .maxLength _ => .maxLength
  | .minimum _ => .minimum
  | .maximum _ => .maximum
  | .oneOf _ => .oneOf
  | .location _ => .location
  | .description _ => .description
  | .format _ => .format
  | .refName _ => .refName
  | .sample _ => .sample

/-- The value of a key that a record written as a sequence may leave out at its end. -/
def default? : Key → Option Slot
  | .required => some (.required false)
  | .email => some (.email false)
  | _ => none

end Slot

namespace Keywords

/-- Takes in the value of a slot. -/
def set (w : Keywords) : Slot → Keywords
  | .type _ | .items _ | .fields _ => w
  | .required b => { w with required := b }
  | .email b => { w with email := b }
  | .pattern s => { w with pattern := s }
  | .minLength n => { w with minLength := n }
  | .maxLength n => { w with maxLength := n }
  | .minimum x => { w with minimum := x }
  | .maximum x => { w with maximum := x }
  | .oneOf ss => { w with oneOf := ss }
  | .location l => { w with extras := { w.extras with location := l } }
  | .description s => { w with extras := { w.extras with description := s } }
  | .format s => { w with extras := { w.extras with format := s } }
  | .refName s => { w with extras := { w.extras with refName := s } }
  | .sample s => { w with extras := { w.extras with sample := s } }

/-- Slots of different keys can be taken in in either order. -/
theorem set_comm (w : Keywords) {a b : Slot} (h : a.key ≠ b.key) :
    (w.set a).set b = (w.set b).set a := by
  cases a <;> cases b <;> first | rfl | exact absurd rfl h

end Keywords

namespace Definition

/-- The type among slots. -/
def typeOf? (slots : List Slot) : Option String :=
  slots.findSome? fun
    | .type s => some s
    | _ => none

/-- The element among slots; an absent one and a declared nothing are the same. -/
def itemsOf (slots : List Slot) : Option Definition :=
  slots.findSome? fun
    | .items d => d
    | _ => none

/-- The fields among slots. -/
def fieldsOf (slots : List Slot) : Option (Entries Definition) :=
  slots.findSome? fun
    | .fields ds => ds
    | _ => none

/-- The record of slots of distinct keys; nothing if the type is missing. -/
def ofSlots? (slots : List Slot) : Option Definition :=
  (typeOf? slots).map fun type =>
    .mk type (itemsOf slots) (fieldsOf slots) (slots.foldl Keywords.set {})

/-- The record of slots; its type must be among them. -/
def ofSlots (slots : List Slot) : Read Definition :=
  match ofSlots? slots with
  | some d => .ok d
  | none => Read.refuse (.missingField Key.type.name)

end Definition

end FieldSchema.Document
