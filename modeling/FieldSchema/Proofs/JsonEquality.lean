import FieldSchema.Proofs.Entries
import FieldSchema.Schema.Json

/-!
# Equal JSON values

`Json.Value.same` compares JSON values as a reader of the text does: the order of the entries of an
object does not matter, numbers are compared as numbers, and a number without digits is `null`.

* `Json.Value.same_object_iff`: objects are equal if they have equally many entries and each is
  found, equal, in the other.
* `Json.Value.rel_of_same_object`: then each entry is equal or left out in both.
* `Json.Value.same_object_of_agree`: objects with equal entries in the same places are equal.
* `Json.find?_optionalEntry`, `Json.find?_stringsEntry`: what is found in entries that may be left
  out.
-/

namespace FieldSchema.Json

/-! ## Comparison -/

/-- Whether a number is written as `null`. -/
def Number.isNull : Number → Bool
  | .integer _ => false
  | .float x => !x.isFinite

/-- Comparison of numbers as they are written. -/
def Number.same : Number → Number → Bool
  | .integer m, .integer n => m == n
  | .float x, .float y => x.numEq y || (!x.isFinite && !y.isFinite)
  | _, _ => false

namespace Value

mutual

/-- Comparison of values as they are written; the order of entries does not matter. -/
def same : Value → Value → Bool
  | .null, .null => true
  | .null, .number n | .number n, .null => n.isNull
  | .bool a, .bool b => a == b
  | .number m, .number n => m.same n
  | .string s, .string t => s == t
  | .array xs, .array ys => sameItems xs ys
  | .object es, .object fs => es.length == fs.length && allFound es fs
  | _, _ => false

/-- Comparison of items, in order. -/
def sameItems : List Value → List Value → Bool
  | [], [] => true
  | x :: xs, y :: ys => same x y && sameItems xs ys
  | _, _ => false

/-- Whether each of the first entries is found, equal, among the second. -/
def allFound : List (String × Value) → List (String × Value) → Bool
  | [], _ => true
  | (name, v) :: rest, fs =>
    (match Entries.find? fs name with
      | some w => same v w
      | none => false) && allFound rest fs

end

-- Two shapes are compared at once, so the equations are many. They are derived once, here.
attribute [local simp] same sameItems allFound

variable {es fs : Entries Value} {s t : String} {x y : Binary64}

/-! ## Single values -/

theorem same_string_iff : (string s).same (.string t) ↔ s = t := by
  rw [same, beq_iff_eq]

theorem same_nat_iff {m n : Nat} : (nat m).same (.nat n) ↔ m = n := by
  rw [nat, nat, same, Number.same, beq_iff_eq, Int.natCast_inj]

theorem same_float_iff :
    (float x).same (.float y) ↔ x.numEq y ∨ x.isFinite = false ∧ y.isFinite = false := by
  simp [float, Number.same]

theorem same_strings_iff {ss ts : List String} : (strings ss).same (.strings ts) ↔ ss = ts := by
  rw [strings, strings, same]
  induction ss generalizing ts with
  | nil => cases ts <;> simp
  | cons s ss ih =>
    cases ts with
    | nil => simp
    | cons t ts =>
      rw [List.map_cons, List.map_cons, sameItems, Bool.and_eq_true, ih, same_string_iff,
        List.cons.injEq]

/-! ## Objects -/

theorem allFound_iff :
    allFound es fs ↔ ∀ e ∈ es, ∃ w, fs.find? e.1 = some w ∧ e.2.same w := by
  induction es with
  | nil => simp
  | cons e es ih =>
    rw [allFound, Bool.and_eq_true, ih, List.forall_mem_cons]
    refine and_congr ?_ Iff.rfl
    cases h : fs.find? e.1 <;> simp

theorem same_object_iff :
    (object es).same (.object fs) ↔ Entries.Found (fun v w => v.same w) es fs := by
  rw [same, Bool.and_eq_true, beq_iff_eq, allFound_iff]
  rfl

/-- In equal objects, each entry is equal or left out in both. -/
theorem rel_of_same_object (h : (object es).same (.object fs)) (hn : (Entries.keys es).Nodup)
    (key : String) : Option.Rel (fun v w => v.same w) (es.find? key) (fs.find? key) :=
  (same_object_iff.mp h).find?_rel hn key

/-- Objects with equal entries in the same places are equal. -/
theorem same_object_of_agree (h : Entries.Agree (fun v w => v.same w) es fs)
    (hn : (Entries.keys fs).Nodup) : (object es).same (.object fs) :=
  same_object_iff.mpr (.of_agree h hn)

end Value

/-! ## Entries that may be left out -/

section Optional

variable {α : Type} {write : α → Value} {a b : Option α} {name key : String} {values : List String}

@[simp] theorem find?_optionalEntry :
    Entries.find? (optionalEntry name write a) key = if name = key then a.map write else none := by
  cases a with
  | none => simp [optionalEntry]
  | some a => rfl

@[simp] theorem find?_stringsEntry :
    Entries.find? (stringsEntry name values) key =
      if name = key ∧ values ≠ [] then some (.strings values) else none := by
  cases values with
  | nil => simp [stringsEntry]
  | cons value values => simp [stringsEntry]

theorem keys_optionalEntry_sublist :
    (Entries.keys (optionalEntry name write a)).Sublist [name] := by
  cases a with
  | none => exact List.nil_sublist _
  | some a => exact List.Sublist.refl _

theorem keys_stringsEntry_sublist : (Entries.keys (stringsEntry name values)).Sublist [name] := by
  cases values with
  | nil => exact List.nil_sublist _
  | cons value values => exact List.Sublist.refl _

/-- Values that are equal only if they are written from the same are written from the same. -/
theorem eq_of_rel_map (hwrite : ∀ a b, (write a).same (write b) → a = b)
    (h : Option.Rel (fun v w => v.same w) (a.map write) (b.map write)) : a = b := by
  cases a with
  | none =>
    cases b with
    | none => rfl
    | some b => cases h
  | some a =>
    cases b with
    | none => cases h
    | some b =>
      cases h with
      | some h => rw [hwrite a b h]

/-- Lists of texts that are written equal, or left out of both, are equal. -/
theorem eq_of_rel_stringsEntry {others : List String}
    (h : Option.Rel (fun v w => v.same w) (Entries.find? (stringsEntry name values) name)
      (Entries.find? (stringsEntry name others) name)) : values = others := by
  rw [find?_stringsEntry, find?_stringsEntry] at h
  by_cases hvalues : values = []
  · by_cases hothers : others = []
    · rw [hvalues, hothers]
    · rw [if_neg (by simp [hvalues]), if_pos ⟨rfl, hothers⟩] at h
      cases h
  · by_cases hothers : others = []
    · rw [if_pos ⟨rfl, hvalues⟩, if_neg (by simp [hothers])] at h
      cases h
    · rw [if_pos ⟨rfl, hvalues⟩, if_pos ⟨rfl, hothers⟩] at h
      cases h with
      | some h => exact Value.same_strings_iff.mp h

theorem agree_optionalEntry
    (h : Option.Rel (fun v w => v.same w) (a.map write) (b.map write)) :
    Entries.Agree (fun v w => v.same w) (optionalEntry name write a)
      (optionalEntry name write b) := by
  cases a with
  | none =>
    cases b with
    | none => exact .nil
    | some b => cases h
  | some a =>
    cases b with
    | none => cases h
    | some b =>
      cases h with
      | some h => exact .cons ⟨rfl, h⟩ .nil

theorem agree_optionalEntry_self (hwrite : ∀ a, (write a).same (write a)) :
    Entries.Agree (fun v w => v.same w) (optionalEntry name write a)
      (optionalEntry name write a) := by
  cases a with
  | none => exact .nil
  | some a => exact .cons ⟨rfl, hwrite a⟩ .nil

theorem agree_stringsEntry_self :
    Entries.Agree (fun v w => v.same w) (stringsEntry name values) (stringsEntry name values) := by
  cases values with
  | nil => exact .nil
  | cons value values => exact .cons ⟨rfl, Value.same_strings_iff.mpr rfl⟩ .nil

end Optional

end FieldSchema.Json
