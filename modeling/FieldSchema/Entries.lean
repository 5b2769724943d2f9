/-!
# Entries

Maps from names to values that remember in which order their names first came.

* `Entries.insert` replaces the value of a present name and keeps its place; a new name goes to
  the end.
* `Entries.ofList` inserts the pairs of a list one after the other, so a repeated name keeps its
  first place and its last value.
* `Entries.keys_insert` and `Entries.find?_insert` say so for one insertion.
-/

namespace FieldSchema

/-- Named values in order. -/
abbrev Entries (α : Type) := List (String × α)

namespace Entries

variable {α : Type}

/-- The names in order. -/
def keys (es : Entries α) : List String := es.map Prod.fst

/-- The value of a name. -/
def find? : Entries α → String → Option α
  | [], _ => none
  | (k, v) :: es, key => if k = key then some v else find? es key

/-- Sets the value of a name: in its place if the name is present, otherwise at the end. -/
def insert : Entries α → String → α → Entries α
  | [], key, value => [(key, value)]
  | (k, v) :: es, key, value =>
    if k = key then (key, value) :: es else (k, v) :: insert es key value

/-- Inserts pairs one after the other. -/
def insertAll (es : Entries α) (pairs : List (String × α)) : Entries α :=
  pairs.foldl (fun acc (k, v) => acc.insert k v) es

/-- The entries of a list of pairs. -/
def ofList (pairs : List (String × α)) : Entries α := insertAll [] pairs

/-! ## Small facts -/

@[simp] theorem keys_nil : keys ([] : Entries α) = [] := rfl

@[simp] theorem keys_cons (k : String) (v : α) (es : Entries α) :
    keys ((k, v) :: es) = k :: keys es := rfl

/-- Inserting keeps the names in place, and adds a new one at the end. -/
theorem keys_insert (es : Entries α) (key : String) (value : α) :
    keys (es.insert key value) = if key ∈ keys es then keys es else keys es ++ [key] := by
  induction es with
  | nil => simp [insert]
  | cons e es ih => grind [insert, keys]

/-- After an insertion the name has the new value and the others have their own. -/
theorem find?_insert (es : Entries α) (key name : String) (value : α) :
    find? (es.insert key value) name = if key = name then some value else find? es name := by
  induction es with
  | nil => simp [insert, find?]
  | cons e es ih => grind [insert, find?]

/-- A name has a value exactly if it is among the names. -/
theorem find?_isSome_iff (es : Entries α) (key : String) :
    (find? es key).isSome ↔ key ∈ keys es := by
  induction es with
  | nil => simp [find?]
  | cons e es ih => grind [find?, keys]

end Entries

end FieldSchema
