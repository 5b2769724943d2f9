import FieldSchema.Document.Settings
import FieldSchema.Document.Validation
import FieldSchema.Yaml.Meaning
import FieldSchema.Yaml.Node

/-!
# Documents in YAML

Taking YAML nodes for what a document should hold. A node is taken apart in the order of the text, so
of several things that are wrong the first is reported.

Where a text is expected any scalar is one. A plain scalar is a truth value or a number if that is
what it means, whatever its tag. A value that may be absent is so if it is plain and empty or stands
for nothing; an empty value is also an empty record, map or sequence.

At most 128 collections may be open at a time. An alias is the node it names, and a document may not
follow aliases more than a hundred times for each beginning and end that it has.

* `Definition.ofYaml` reads a record, `mappingOfYaml` a whole mapping document.
* `Settings.ofYamlText` reads the settings for parameters.
-/

namespace FieldSchema

open Document (Read Found Problem Fault choose readSlots readNamed)

namespace Yaml

/-- Where aliases lead, and how often they may be followed. -/
structure Aliases where
  target? : Nat → Option Node
  limit : Nat

/-- Reading, while it is counted how often aliases were followed. -/
abbrev Reader := StateT Nat (Except Fault)

namespace Reader

/-- A mistake in the text. -/
def malformed {α : Type} : Reader α := throw .malformed

/-- A problem of the data. -/
def refuse {α : Type} (p : Problem) : Reader α := throw (.data p)

end Reader

/-- What a text means as a plain scalar. -/
def plainFound (text : String) : Found :=
  match Meaning.ofText text with
  | .nothing => .nothing
  | .boolean b => .boolean b
  | .integer n => .integer n
  | .wideInteger n => .wideInteger n
  | .float x => .float x
  | .text => .string text

/-- What is wrong with a scalar that is not what was expected. A scalar with a standard tag must be
what the tag says. -/
def scalarProblem (tag : Option Tag) (text : String) (style : Style) (expected : String) :
    Problem :=
  let tagged (found : Option Found) (kind : String) : Problem :=
    match found with
    | some f => .invalidType f expected
    | none => .invalidValue (.string text) kind
  let asWritten : Problem :=
    .invalidType (if style = .plain then plainFound text else .string text) expected
  match tag with
  | none => asWritten
  | some t =>
    if t = .standard "bool" then tagged ((bool? text).map .boolean) "a boolean"
    else if t = .standard "int" then
      tagged (((integer? 64 text).map Found.integer).or ((integer? 128 text).map .wideInteger))
        "an integer"
    else if t = .standard "float" then tagged ((float? text).map .float) "a float"
    else if t = .standard "null" then tagged (if isNull text then some .nothing else none) "null"
    else if t.isLocal then asWritten
    else .invalidType (.string text) expected

namespace Aliases

variable (a : Aliases)

/-- Follows an alias. -/
def follow : Node → Reader Node
  | .alias n => do
    let followed ← get
    if a.limit < followed + 1 then Reader.malformed
    set (followed + 1)
    match a.target? n with
    | some node => return node
    | none => Reader.malformed
  | node => return node

/-- Refuses a node that is not what was expected. -/
def refuse {α : Type} (expected : String) : Node → Reader α
  | .scalar _ tag text style => Reader.refuse (scalarProblem tag text style expected)
  | .sequence .. => Reader.refuse (.invalidType .sequence expected)
  | .mapping .. => Reader.refuse (.invalidType .map expected)
  | .alias _ | .missing => Reader.malformed

/-! ## Single values -/

/-- Takes a node for a text. -/
def asText (expected : String) (node : Node) : Reader String := do
  match ← a.follow node with
  | .scalar _ _ text _ => return text
  | other => refuse expected other

/-- Takes a node for a text. -/
def asString : Node → Reader String := a.asText "a string"

/-- Whether the meaning of a scalar counts: it is plain, or a literal block with the tag of what is
expected. -/
def hasMeaning (expected : String) (tag : Option Tag) (style : Style) : Bool :=
  style = .plain || (style = .literal && tag = some (.standard expected))

/-- Takes a node for a value that a scalar means. -/
def asMeaning {α : Type} (tagName expected : String) (meaning? : String → Option α) (node : Node) :
    Reader α := do
  match ← a.follow node with
  | .scalar anchor tag text style =>
    match (if hasMeaning tagName tag style then meaning? text else none) with
    | some x => return x
    | none => refuse expected (.scalar anchor tag text style)
  | other => refuse expected other

/-- Takes a node for a truth value. -/
def asBool : Node → Reader Bool := a.asMeaning "bool" "a boolean" bool?

/-- Takes a node for a whole number of at most 64 bits. -/
def asLength : Node → Reader UInt64 :=
  a.asMeaning "int" "u64" fun s => (natural? 64 s.toList).map UInt64.ofNat

/-- Takes a node for any number. -/
def asBound : Node → Reader Binary64 := a.asMeaning "float" "f64" float?

/-- Takes a node for a value that may be absent. -/
def asOption {α : Type} (read : Node → Reader α) (node : Node) : Reader (Option α) := do
  match ← a.follow node with
  | .scalar anchor tag text .plain =>
    let whole := Node.scalar anchor tag text .plain
    match tag with
    | none => if text = "" || isNull text then return none else some <$> read whole
    | some t =>
      if t ≠ .standard "null" then some <$> read whole
      else if isNull text then return none
      else Reader.refuse (.invalidValue (.string text) "null")
  | .missing => Reader.malformed
  | other => some <$> read other

/-! ## Collections -/

/-- Takes a node for a sequence, when so many collections may be opened. -/
def asItems (depth : Nat) (node : Node) : Reader (List Node × Bool) := do
  match ← a.follow node with
  | .sequence _ _ items closed => if depth = 0 then Reader.malformed else return (items, closed)
  | .scalar _ _ "" .plain => return ([], true)
  | other => refuse "a sequence" other

/-- Takes a node for a mapping, when so many collections may be opened. -/
def asEntries (depth : Nat) (expected : String) (node : Node) :
    Reader (List (Node × Node) × Bool) := do
  match ← a.follow node with
  | .mapping _ _ entries closed => if depth = 0 then Reader.malformed else return (entries, closed)
  | .scalar _ _ "" .plain => return ([], true)
  | other => refuse expected other

/-- Takes a node for a list of texts. -/
def asStrings (depth : Nat) (node : Node) : Reader (List String) := do
  let (items, closed) ← a.asItems depth node
  let xs ← items.mapM a.asString
  if closed then return xs else Reader.malformed

/-- Takes the name of a key. -/
def asKey : Node → Reader String := a.asText "field identifier"

/-! ## Choices -/

/-- Takes a node for nothing, whatever its tag. -/
def asUnit : Node → Reader Unit
  | .scalar _ _ text style =>
    if style = .plain && (text = "" || isNull text) then return ()
    else Reader.refuse (.invalidValue (.string text) "null")
  | other => refuse "unit" other

/-- Takes a node for a choice: a text with its name, or nothing with its name as tag. -/
def asChoice {α : Type} (choices : List (String × α)) (node : Node) : Reader α := do
  let expected := "a YAML tag starting with '!'"
  let node ← a.follow node
  let tagged (name : String) : Reader α := do
    let x ← liftM (choose choices name)
    asUnit node
    return x
  match node with
  | .scalar _ tag text _ =>
    match tag.bind Tag.localName? with
    | some name => tagged name
    | none => liftM (choose choices text)
  | .sequence _ tag _ _ =>
    match tag.bind Tag.localName? with
    | some name => tagged name
    | none => Reader.refuse (.invalidType .sequence expected)
  | .mapping _ tag _ _ =>
    match tag.bind Tag.localName? with
    | some name => tagged name
    | none => Reader.refuse (.invalidType .map expected)
  | .alias _ | .missing => Reader.malformed

end Aliases

/-- How many collections of a document may be open at a time. -/
def nesting : Nat := 128

/-- Reads the only document of a text. A text without a document is an empty value. -/
def readText {α : Type} (read : Aliases → Node → Reader α) (text : String) : Read α :=
  let (root, whole) := match Document.ofText text with
    | .empty => (Parse.emptyScalar, true)
    | .root node whole => (node, whole)
  let aliases : Aliases := ⟨root.target?, root.events * 100⟩
  match (read aliases root).run 0 with
  | .ok (x, _) => if whole then .ok x else Read.malformed
  | .error fault => .error fault

end Yaml

namespace Document

open Yaml (Aliases Reader Node)

/-! ## Mappings -/

/-- Takes a node for the value of a key, given readers of the children. -/
def Slot.ofYaml (a : Aliases) (depth : Nat) (readItem : Node → Reader Definition)
    (readFields : Node → Reader (Entries Definition)) (k : Key) (node : Node) : Reader Slot :=
  match k with
  | .type => .type <$> a.asString node
  | .items => .items <$> a.asOption readItem node
  | .fields => .fields <$> a.asOption readFields node
  | .required => .required <$> a.asBool node
  | .email => .email <$> a.asBool node
  | .pattern => .pattern <$> a.asOption a.asString node
  | .minLength => .minLength <$> a.asOption a.asLength node
  | .maxLength => .maxLength <$> a.asOption a.asLength node
  | .minimum => .minimum <$> a.asOption a.asBound node
  | .maximum => .maximum <$> a.asOption a.asBound node
  | .oneOf => .oneOf <$> a.asOption (a.asStrings depth) node
  | .location => .location <$> a.asOption (a.asChoice locationChoices) node
  | .description => .description <$> a.asOption a.asString node
  | .format => .format <$> a.asOption a.asString node
  | .refName => .refName <$> a.asOption a.asString node
  | .sample => .sample <$> a.asOption a.asString node

mutual

/-- Takes a node for a record, when so many collections may be opened. -/
def Definition.ofYaml (a : Aliases) : Nat → Node → Reader Definition
  | 0, node => do
    let _ ← a.asEntries 0 recordName node
    liftM (Definition.ofSlots [])
  | depth + 1, node => do
    let (entries, closed) ← a.asEntries (depth + 1) recordName node
    let slots ← readSlots keys a.asKey
      (Slot.ofYaml a depth (Definition.ofYaml a depth) (fieldsOfYaml a depth)) [] entries
    if closed then liftM (Definition.ofSlots slots) else Reader.malformed

/-- Takes a node for the fields of a record, when so many collections may be opened. A repeated name
keeps its first place and has its last record. -/
def fieldsOfYaml (a : Aliases) : Nat → Node → Reader (Entries Definition)
  | 0, node => do
    let _ ← a.asEntries 0 "a map" node
    return []
  | depth + 1, node => do
    let (entries, closed) ← a.asEntries (depth + 1) "a map" node
    let ds ← readNamed a.asString (Definition.ofYaml a depth) entries
    if closed then return Entries.ofList ds else Reader.malformed

end

/-- The record that a text holds. -/
def Definition.ofYamlText (text : String) : Read Definition :=
  Yaml.readText (fun a => Definition.ofYaml a Yaml.nesting) text

/-- The mapping that a YAML document holds. -/
def mappingOfYaml (text : String) : Except Error Mapping := do
  let d ← (Definition.ofYamlText text).mapError .yaml
  d.toMapping []

end Document

/-! ## Settings -/

namespace Settings

open Document (Setting SettingKey settingKeys settingsOf settingsName collectionFormatChoices)
open Yaml (Aliases Reader Node)

/-- Takes a node for the value of a key. -/
def settingOfYaml (a : Aliases) (k : SettingKey) (node : Node) : Reader Setting :=
  match k with
  | .primitiveListParams => .primitiveListParams <$> a.asBool node
  | .collectionFormat =>
    .collectionFormat <$> a.asOption (a.asChoice collectionFormatChoices) node

/-- Takes a node for settings. -/
def ofYaml (a : Aliases) (node : Node) : Reader Settings := do
  let (entries, closed) ← a.asEntries Yaml.nesting settingsName node
  let values ← readSlots settingKeys a.asKey (settingOfYaml a) [] entries
  if closed then return settingsOf values else Reader.malformed

/-- The settings that a YAML text holds. -/
def ofYamlText (text : String) : Read Settings := Yaml.readText ofYaml text

end Settings

end FieldSchema
