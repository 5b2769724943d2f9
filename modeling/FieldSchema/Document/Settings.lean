import FieldSchema.Document.Record
import FieldSchema.Schema.Parameter

/-!
# Settings records

The settings for parameters as a record of two keys. A key that is not given leaves the default.
-/

namespace FieldSchema.Document

/-- What a settings record is called in messages. -/
def settingsName : String := "struct ConverterConfig"

/-- A key of a settings record. -/
inductive SettingKey where
  | primitiveListParams
  | collectionFormat
  deriving DecidableEq, Repr

/-- The keys of a settings record. -/
def settingKeys : KeySet SettingKey where
  all := [.primitiveListParams, .collectionFormat]
  name
    | .primitiveListParams => "primitiveListParams"
    | .collectionFormat => "collectionFormat"

/-- The value read for one key. -/
inductive Setting where
  | primitiveListParams (b : Bool)
  | collectionFormat (f : Option CollectionFormat)
  deriving DecidableEq

/-- Takes in one value. -/
def Setting.apply (s : Settings) : Setting → Settings
  | .primitiveListParams b => { s with primitiveListParams := b }
  | .collectionFormat f => { s with collectionFormat := f }

/-- The settings of the values read. -/
def settingsOf (values : List Setting) : Settings := values.foldl Setting.apply {}

/-- The locations by name. -/
def locationChoices : List (String × Location) := Location.all.map fun l => (l.name, l)

/-- The collection formats by name. -/
def collectionFormatChoices : List (String × CollectionFormat) :=
  CollectionFormat.all.map fun f => (f.name, f)

end FieldSchema.Document
