import FieldSchema.Document.Problem
import FieldSchema.Entries

/-!
# Reading records

A record is written as named values. What is common to all records and all formats: a name must be
one of the known keys and must not come twice, and that is checked before the value is looked at.

A reader may keep a state of its own, so the functions here are for any monad into which a plain
result can be lifted.
-/

namespace FieldSchema.Document

/-- The result of taking something for a value. -/
abbrev Read (α : Type) := Except Fault α

namespace Read

/-- A mistake in the text. -/
def malformed {α : Type} : Read α := .error .malformed

/-- A problem of the data. -/
def refuse {α : Type} (p : Problem) : Read α := .error (.data p)

end Read

/-- The keys of a kind of record and how they are written. -/
structure KeySet (κ : Type) where
  all : List κ
  name : κ → String

namespace KeySet

variable {κ : Type}

/-- The key of a name. -/
def find? (keys : KeySet κ) (name : String) : Option κ := keys.all.find? fun k => keys.name k = name

/-- The names of the keys. -/
def names (keys : KeySet κ) : List String := keys.all.map keys.name

/-- The key of a name, if it is known and new. -/
def newKey [DecidableEq κ] (keys : KeySet κ) (seen : List κ) (name : String) : Read κ :=
  match keys.find? name with
  | none => Read.refuse (.unknownField name keys.names)
  | some k => if k ∈ seen then Read.refuse (.duplicateField name) else .ok k

end KeySet

variable {κ η ν σ α : Type} {m : Type → Type} [Monad m]

/-- Reads named values one after the other, when some keys were seen before. The name, the check of
the name and the value take turns. -/
def readSlots [MonadLiftT (Except Fault) m] [DecidableEq κ] (keys : KeySet κ) (name : η → m String)
    (read : κ → ν → m σ) : List κ → List (η × ν) → m (List σ)
  | _, [] => pure []
  | seen, (n, node) :: rest => do
    let k ← liftM (keys.newKey seen (← name n))
    let slot ← read k node
    let slots ← readSlots keys name read (k :: seen) rest
    return slot :: slots

/-- Reads named values of one kind, whatever their names. -/
def readNamed (name : η → m String) (read : ν → m α) : List (η × ν) → m (List (String × α))
  | [] => pure []
  | (n, node) :: rest => do
    let n ← name n
    let a ← read node
    let more ← readNamed name read rest
    return (n, a) :: more

/-- Takes the name of a choice. -/
def choose (choices : List (String × α)) (name : String) : Read α :=
  match Entries.find? choices name with
  | some a => .ok a
  | none => Read.refuse (.unknownVariant name (Entries.keys choices))

end FieldSchema.Document
