import FieldSchema.Document.Settings
import FieldSchema.Document.Validation
import FieldSchema.Json.Node

/-!
# Documents in JSON

Taking JSON nodes for what a document should hold. A node is taken apart in the order of the text,
so of several things that are wrong the first is reported. A value of the wrong kind is refused as
a whole, before its contents are looked at.

At most 127 containers may be open at a time. Every reader of a container takes the number of
containers that may still be opened, and the readers of what is inside take one less.

* `Definition.ofJson` reads a record, written as an object or as the array of its sixteen values.
* `mappingOfJson` reads a whole mapping document.
* `Settings.ofJsonText` reads the settings for parameters from a text, `Settings.ofJsonValue` from
  a value that was read before.
-/

namespace FieldSchema

open Document (Read Found Problem choose)

namespace Json

/-- What a number is found to be. -/
def Number.found : Number → Found
  | .integer n => .integer n
  | .float x => .float x

namespace Node

/-- Refuses a node that is not what was expected. -/
def refuse {α : Type} (expected : String) : Node → Read α
  | .null => Read.refuse (.invalidType .nothing expected)
  | .bool b => Read.refuse (.invalidType (.boolean b) expected)
  | .number n => Read.refuse (.invalidType n.found expected)
  | .string s => Read.refuse (.invalidType (.string s) expected)
  | .array .. => Read.refuse (.invalidType .sequence expected)
  | .object .. => Read.refuse (.invalidType .map expected)
  | .broken => Read.malformed

/-! ## Single values -/

/-- Takes a node for a text. -/
def asString : Node → Read String
  | .string s => .ok s
  | node => node.refuse "a string"

/-- Takes a node for a truth value. -/
def asBool : Node → Read Bool
  | .bool b => .ok b
  | node => node.refuse "a boolean"

/-- Takes a node for a whole number of at most 64 bits. -/
def asLength : Node → Read UInt64
  | .number (.integer n) =>
    if n < 0 then Read.refuse (.invalidValue (.integer n) "u64") else .ok (.ofNat n.toNat)
  | node => node.refuse "u64"

/-- Takes a node for any number. -/
def asBound : Node → Read Binary64
  | .number (.integer n) => .ok (.ofRatio (n < 0) n.natAbs 1)
  | .number (.float x) => .ok x
  | node => node.refuse "f64"

/-- Takes a node for a value that may be absent. -/
def asOption {α : Type} (read : Node → Read α) : Node → Read (Option α)
  | .null => .ok none
  | node => (read node).map some

/-- Takes a node for a list of texts, when so many containers may be opened. -/
def asStrings (depth : Nat) : Node → Read (List String)
  | .array items closed =>
    if depth = 0 then Read.malformed
    else do
      let xs ← items.mapM asString
      if closed then return xs else Read.malformed
  | node => node.refuse "a sequence"

/-- Takes a node for a choice: its name, or an object with the name and `null`. -/
def asChoice {α : Type} (choices : List (String × α)) (depth : Nat) : Node → Read α
  | .string s => choose choices s
  | .object ((name, value) :: more) closed =>
    if depth = 0 then Read.malformed
    else do
      let a ← choose choices name
      match value with
      | .null => if more.isEmpty && closed then return a else Read.malformed
      | _ => value.refuse "unit"
  | _ => Read.malformed

/-- Takes the items of an array for the values of a record, from the key at place `n` on. Only keys
with a default may be left out, and only at the end. -/
def asSequence {κ σ : Type} (read : κ → Node → Read σ) (default? : κ → Option σ)
    (expected : String) (closed : Bool) : Nat → List κ → List Node → Read (List σ)
  | _, [], [] => if closed then .ok [] else Read.malformed
  | _, [], _ :: _ => Read.malformed
  | n, k :: ks, [] =>
    if closed then
      match default? k with
      | some slot => do
        let slots ← asSequence read default? expected closed (n + 1) ks []
        return slot :: slots
      | none => Read.refuse (.invalidLength n expected)
    else Read.malformed
  | n, k :: ks, node :: nodes => do
    let slot ← read k node
    let slots ← asSequence read default? expected closed (n + 1) ks nodes
    return slot :: slots

end Node

/-- Reads a text of which nothing may be left over. -/
def readText {α : Type} (read : Node → Read α) (text : String) : Read α := do
  let (node, whole) := Node.ofText text
  let a ← read node
  if whole then return a else Read.malformed

end Json

namespace Document

open Json (Node)

/-- How many containers of a JSON text may be open at a time. -/
def jsonNesting : Nat := 127

/-! ## Mappings -/

/-- Takes a node for the value of a key, given readers of the children. -/
def Slot.ofJson (depth : Nat) (readItem : Node → Read Definition)
    (readFields : Node → Read (Entries Definition)) (k : Key) (node : Node) : Read Slot :=
  match k with
  | .type => node.asString.map .type
  | .items => (node.asOption readItem).map .items
  | .fields => (node.asOption readFields).map .fields
  | .required => node.asBool.map .required
  | .email => node.asBool.map .email
  | .pattern => (node.asOption Node.asString).map .pattern
  | .minLength => (node.asOption Node.asLength).map .minLength
  | .maxLength => (node.asOption Node.asLength).map .maxLength
  | .minimum => (node.asOption Node.asBound).map .minimum
  | .maximum => (node.asOption Node.asBound).map .maximum
  | .oneOf => (node.asOption (Node.asStrings depth)).map .oneOf
  | .location => (node.asOption (Node.asChoice locationChoices depth)).map .location
  | .description => (node.asOption Node.asString).map .description
  | .format => (node.asOption Node.asString).map .format
  | .refName => (node.asOption Node.asString).map .refName
  | .sample => (node.asOption Node.asString).map .sample

mutual

/-- Takes a node for a record, when so many containers may be opened. -/
def Definition.ofJson : Nat → Node → Read Definition
  | 0, .object .. | 0, .array .. => Read.malformed
  | depth + 1, .object entries closed => do
    let slots ← readSlots keys .ok
      (Slot.ofJson depth (Definition.ofJson depth) (fieldsOfJson depth)) [] entries
    if closed then Definition.ofSlots slots else Read.malformed
  | depth + 1, .array items closed => do
    let slots ← Node.asSequence
      (Slot.ofJson depth (Definition.ofJson depth) (fieldsOfJson depth)) Slot.default?
      (recordName ++ " with 16 elements") closed 0 Key.all items
    Definition.ofSlots slots
  | _, node => node.refuse recordName

/-- Takes a node for the fields of a record, when so many containers may be opened. A repeated name
keeps its first place and has its last record. -/
def fieldsOfJson : Nat → Node → Read (Entries Definition)
  | 0, .object .. => Read.malformed
  | depth + 1, .object entries closed => do
    let ds ← readNamed .ok (Definition.ofJson depth) entries
    if closed then return Entries.ofList ds else Read.malformed
  | _, node => node.refuse "a map"

end

/-- The record that a text holds. -/
def Definition.ofJsonText (text : String) : Read Definition :=
  Json.readText (Definition.ofJson jsonNesting) text

/-- The mapping that a JSON document holds. -/
def mappingOfJson (text : String) : Except Error Mapping := do
  let d ← (Definition.ofJsonText text).mapError .json
  d.toMapping []

end Document

/-- The location that a text holds. -/
def Location.ofJsonText (text : String) : Read Location :=
  Json.readText (Json.Node.asChoice Document.locationChoices Document.jsonNesting) text

/-! ## Settings -/

namespace Settings

open Document (Setting SettingKey settingKeys settingsOf settingsName readSlots collectionFormatChoices)
open Json (Node Value)

/-- Takes a node for the value of a key. -/
def settingOfJson (depth : Nat) (k : SettingKey) (node : Node) : Read Setting :=
  match k with
  | .primitiveListParams => node.asBool.map .primitiveListParams
  | .collectionFormat =>
    (node.asOption (Node.asChoice collectionFormatChoices depth)).map .collectionFormat

/-- What a sequence leaves unsaid. -/
def unsaid : SettingKey → Option Setting
  | .primitiveListParams => some (.primitiveListParams ({} : Settings).primitiveListParams)
  | .collectionFormat => some (.collectionFormat none)

/-- Takes a node for settings, when so many containers may be opened. -/
def ofJson : Nat → Node → Read Settings
  | 0, .object .. | 0, .array .. => Read.malformed
  | depth + 1, .object entries closed => do
    let values ← readSlots settingKeys .ok (settingOfJson depth) [] entries
    if closed then return settingsOf values else Read.malformed
  | depth + 1, .array items closed => do
    let values ← Node.asSequence (settingOfJson depth) unsaid settingsName closed 0 settingKeys.all
      items
    return settingsOf values
  | _, node => node.refuse settingsName

/-- The settings that a JSON text holds. -/
def ofJsonText (text : String) : Read Settings := Json.readText (ofJson Document.jsonNesting) text

/-! ### From values -/

/-- What a value is found to be. -/
def found : Value → Found
  | .null => .nothing
  | .bool b => .boolean b
  | .number n => n.found
  | .string s => .string s
  | .array _ => .sequence
  | .object _ => .map

/-- Takes a value for a collection format: its name, or an object with the name and `null`. -/
def formatOfValue : Value → Read CollectionFormat
  | .string s => choose collectionFormatChoices s
  | .object [(name, value)] => do
    let f ← choose collectionFormatChoices name
    match value with
    | .null => return f
    | _ => Read.refuse (.invalidType (found value) "unit")
  | .object _ => Read.refuse (.invalidValue .map "map with a single key")
  | value => Read.refuse (.invalidType (found value) "string or map")

/-- Takes a value for the value of a key. -/
def settingOfValue (k : SettingKey) (value : Value) : Read Setting :=
  match k with
  | .primitiveListParams =>
    match value with
    | .bool b => .ok (.primitiveListParams b)
    | _ => Read.refuse (.invalidType (found value) "a boolean")
  | .collectionFormat =>
    match value with
    | .null => .ok (.collectionFormat none)
    | _ => (formatOfValue value).map fun f => .collectionFormat (some f)

/-- The settings that a value holds. -/
def ofJsonValue : Value → Read Settings
  | .object entries => do
    let values ← readSlots settingKeys .ok settingOfValue [] entries
    return settingsOf values
  | .array items => do
    let values ← (settingKeys.all.zip items).mapM fun (k, value) => settingOfValue k value
    if settingKeys.all.length < items.length then
      Read.refuse (.invalidLength items.length "fewer elements in array")
    else return settingsOf values
  | value => Read.refuse (.invalidType (found value) settingsName)

end Settings

end FieldSchema
