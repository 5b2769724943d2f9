import FieldSchema.Schema.Conversion

/-!
# Definitions

The named nodes of a tree as definitions.

* `Mapping.definitions` lists one definition for each named node, a node before those below it. A
  name that occurs twice is listed twice.
* `Definitions.assemble` merges such a list: of each name the first definition is kept, and a later
  one that describes something else is counted as a conflict.
-/

namespace FieldSchema

namespace Mapping

/-- The definition of a node itself, if it is named. -/
def ownDefinition (m : Mapping) : Except SchemaError (List (String × Model)) :=
  match m.refName with
  | some name => do
    let model ← m.toModel
    return [(name, model)]
  | none => .ok []

mutual

/-- The definitions of the named nodes of a tree. -/
def definitions : Mapping → Except SchemaError (List (String × Model))
  | .scalar type t => (Mapping.scalar type t).ownDefinition
  | .list element t => do
    let own ← (Mapping.list element t).ownDefinition
    let below ← definitions element
    return own ++ below
  | .object fields t => do
    let own ← (Mapping.object fields t).ownDefinition
    let below ← fieldDefinitions fields
    return own ++ below

/-- The definitions of the named nodes of fields. -/
def fieldDefinitions : List (String × Mapping) → Except SchemaError (List (String × Model))
  | [] => .ok []
  | (_, m) :: rest => do
    let first ← definitions m
    let others ← fieldDefinitions rest
    return first ++ others

end

end Mapping

/-- Merged definitions, and how many later ones conflict with the kept one of their name. -/
structure Definitions where
  entries : Entries Model := []
  conflicts : Nat := 0

namespace Definitions

/-- Takes in one definition. A name that is present keeps its definition. -/
def add (d : Definitions) (named : String × Model) : Definitions :=
  match d.entries.find? named.1 with
  | none => { d with entries := d.entries ++ [named] }
  | some kept => if kept.same named.2 then d else { d with conflicts := d.conflicts + 1 }

/-- Merges definitions in order. -/
def assemble (named : List (String × Model)) : Definitions := named.foldl add {}

end Definitions

end FieldSchema
