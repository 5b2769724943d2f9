import FieldSchema.Proofs.Fragments
import FieldSchema.Proofs.ValueTexts

/-!
# What the written artifacts say

The JSON text of a fragment says everything about it except, for a property, whether its value must
be present. So it does whatever texts the types are.

* `PropertyFragment.withoutFlags`, `ModelFragment.withoutFlags`, `ParameterFragment.withoutFlags`: a
  fragment with this forgotten at every property.
* `PropertyFragment.allBounds`, `ModelFragment.allBounds`, `ParameterFragment.allBounds`: all bounds
  in a fragment. If they are finite, every number in the written form has digits
  (`PropertyFragment.legible_toJson`).
* `Validation.eq_of_find?`: keywords are known from their entries, wherever these stand.
  `PropertyFragment.eq_of_toJson`, `ModelFragment.eq_of_toJson`, `ParameterFragment.eq_of_toJson`:
  fragments are known from their written forms.
* `texts_determine`: so they are known from their texts, and descriptions from their fragments.
-/

namespace FieldSchema

open Json (Value optionalEntry stringsEntry)

/-! ## Columns -/

namespace Json

theorem Value.string_injective : Function.Injective Value.string :=
  fun _ _ h => Value.string.inj h

theorem Value.length_injective : Function.Injective fun n : UInt64 => Value.nat n.toNat := by
  intro m n h
  have hnumber := Number.integer.inj (Value.number.inj h)
  exact UInt64.toNat_inj.mp (Int.ofNat_inj.mp hnumber)

theorem Value.float_injective : Function.Injective Value.float :=
  fun _ _ h => Number.float.inj (Value.number.inj h)

section Columns

variable {α β : Type} {write : α → Value} {x y : β}

/-- What is written in an entry, or left out, is known from the entry. -/
theorem eq_of_column (entries : β → Entries Value) (key : String) (column : β → Option α)
    (hwrite : Function.Injective write)
    (hcolumn : ∀ z, (entries z).find? key = (column z).map write)
    (h : (entries x).find? key = (entries y).find? key) : column x = column y := by
  rw [hcolumn, hcolumn] at h
  exact Option.map_injective hwrite h

/-- A list of strings is known from its entry, which is left out if the list is empty. -/
theorem eq_of_stringsColumn (entries : β → Entries Value) (key : String)
    (lists : β → List String)
    (hcolumn : ∀ z, (entries z).find? key = Entries.find? (stringsEntry key (lists z)) key)
    (h : (entries x).find? key = (entries y).find? key) : lists x = lists y := by
  rw [hcolumn, hcolumn] at h
  have hrel : Option.Rel (fun v w => v.same w) (Entries.find? (stringsEntry key (lists x)) key)
      (Entries.find? (stringsEntry key (lists y)) key) := by
    rw [h, find?_stringsEntry]
    split
    · exact .some (Value.same_strings_iff.mpr rfl)
    · exact .none
  exact eq_of_rel_stringsEntry hrel

end Columns

end Json

/-! ## Keywords -/

namespace Validation

/-- Keywords are known from their entries. -/
theorem eq_of_find? {v w : Validation}
    (h : ∀ key ∈ keywords, v.toEntries.find? key = w.toEntries.find? key) : v = w := by
  have hpattern := Json.eq_of_column toEntries "pattern" pattern Value.string_injective
    (by simp [toEntries, Json.lengthEntry]) (h "pattern" (by decide))
  have hminLength := Json.eq_of_column toEntries "minLength" minLength Value.length_injective
    (by simp [toEntries, Json.lengthEntry]) (h "minLength" (by decide))
  have hmaxLength := Json.eq_of_column toEntries "maxLength" maxLength Value.length_injective
    (by simp [toEntries, Json.lengthEntry]) (h "maxLength" (by decide))
  have hminimum := Json.eq_of_column toEntries "minimum" minimum Value.float_injective
    (by simp [toEntries, Json.lengthEntry]) (h "minimum" (by decide))
  have hmaximum := Json.eq_of_column toEntries "maximum" maximum Value.float_injective
    (by simp [toEntries, Json.lengthEntry]) (h "maximum" (by decide))
  have honeOf := Json.eq_of_stringsColumn toEntries "enum" oneOf
    (by simp [toEntries, Json.lengthEntry]) (h "enum" (by decide))
  cases v
  cases w
  rw [mk.injEq]
  exact ⟨hpattern, hminLength, hmaxLength, hminimum, hmaximum, honeOf⟩

end Validation

/-! ## Numbers with digits -/

namespace Json.Value

variable {α : Type} {name : String} {write : α → Value} {a : Option α} {values : List String}

@[simp] theorem legible_string (s : String) : (string s).Legible := nofun

@[simp] theorem legible_bool (b : Bool) : (bool b).Legible := nofun

@[simp] theorem legible_nat (n : Nat) : (nat n).Legible := by
  intro m hm
  rw [List.mem_singleton.mp hm]
  trivial

@[simp] theorem legible_float_iff {x : Binary64} : (float x).Legible ↔ x.isFinite :=
  ⟨fun h => h _ List.mem_cons_self, fun h m hm => by rw [List.mem_singleton.mp hm]; exact h⟩

@[simp] theorem legible_array_iff {items : List Value} :
    (array items).Legible ↔ ∀ v ∈ items, v.Legible :=
  ⟨fun h _ hv => h.item hv, fun h n hn => by
    obtain ⟨v, hv, hn⟩ := mem_numbers_array.mp hn
    exact h v hv n hn⟩

/-- Every number in the values of entries has digits. -/
def LegibleEntries (es : Entries Value) : Prop := ∀ e ∈ es, e.2.Legible

@[simp] theorem legible_object_iff {entries : List (String × Value)} :
    (object entries).Legible ↔ LegibleEntries entries :=
  ⟨fun h _ he => h.entry he, fun h n hn => by
    obtain ⟨e, he, hn⟩ := mem_numbers_object.mp hn
    exact h e he n hn⟩

@[simp] theorem legibleEntries_nil : LegibleEntries [] := nofun

@[simp] theorem legibleEntries_cons {e : String × Value} {es : Entries Value} :
    LegibleEntries (e :: es) ↔ e.2.Legible ∧ LegibleEntries es :=
  List.forall_mem_cons

@[simp] theorem legibleEntries_append {es fs : Entries Value} :
    LegibleEntries (es ++ fs) ↔ LegibleEntries es ∧ LegibleEntries fs :=
  List.forall_mem_append

@[simp] theorem legible_optionalEntry_iff :
    LegibleEntries (optionalEntry name write a) ↔ ∀ x ∈ a, (write x).Legible := by
  cases a <;> simp [optionalEntry]

@[simp] theorem legible_stringsEntry : LegibleEntries (stringsEntry name values) := by
  cases values <;> simp [stringsEntry, strings]

end Json.Value

open Json.Value (LegibleEntries)

/-- The bounds among keywords. -/
def Validation.bounds (v : Validation) : List Binary64 := v.minimum.toList ++ v.maximum.toList

theorem Validation.legible_toEntries {v : Validation} (h : ∀ x ∈ v.bounds, x.isFinite) :
    LegibleEntries v.toEntries := by
  rw [bounds, List.forall_mem_append] at h
  simpa [toEntries, Json.lengthEntry] using h

/-! ## Inline fragments -/

namespace PropertyFragment

variable {p q : PropertyFragment} {s t : ScalarFragment} {ps qs : List (String × PropertyFragment)}
  {key : String}

mutual

/-- A fragment with nothing said, at any property in it, about whether the value must be present. -/
def withoutFlags : PropertyFragment → PropertyFragment
  | .ref pointer _ => .ref pointer false
  | .array type items description _ => .array type (withoutFlags items) description false
  | .object type names properties description _ =>
    .object type names (entriesWithoutFlags properties) description false
  | .scalar s => .scalar { s with required := false }

/-- Named fragments without this. -/
def entriesWithoutFlags : List (String × PropertyFragment) → List (String × PropertyFragment)
  | [] => []
  | (name, p) :: rest => (name, withoutFlags p) :: entriesWithoutFlags rest

end

theorem entriesWithoutFlags_eq (ps : List (String × PropertyFragment)) :
    entriesWithoutFlags ps = ps.map fun e => (e.1, e.2.withoutFlags) := by
  induction ps with
  | nil => rfl
  | cons e ps ih => rw [entriesWithoutFlags, ih, List.map_cons]

theorem find?_eq (h : p.toJson = q.toJson) (key : String) :
    p.written.find? key = q.written.find? key := by
  rw [written, written, h]

theorem mark_eq_of_toJson (h : p.toJson = q.toJson) : p.mark = q.mark :=
  mark_eq_of_isSome fun key _ => by rw [find?_eq h key]

theorem description_eq_of_toJson (h : p.toJson = q.toJson) : p.description? = q.description? :=
  Json.eq_of_column written "description" description? Value.string_injective find?_description
    (find?_eq h "description")

/-- The type; a pointer has none. -/
def type? : PropertyFragment → Option String
  | .ref .. => none
  | .array type _ _ _ | .object type _ _ _ _ => some type
  | .scalar s => some s.type

theorem type_eq_of_toJson (h : p.toJson = q.toJson) : p.type? = q.type? := by
  refine Json.eq_of_column written "type" type? Value.string_injective (fun p => ?_)
    (find?_eq h "type")
  cases p <;> simp [type?]

/-- The names that an object requires. -/
def requiredNames : PropertyFragment → List String
  | .object _ names _ _ _ => names
  | .ref .. | .array .. | .scalar _ => []

theorem requiredNames_eq_of_toJson (h : p.toJson = q.toJson) :
    p.requiredNames = q.requiredNames := by
  refine Json.eq_of_stringsColumn written "required" requiredNames (fun p => ?_)
    (find?_eq h "required")
  cases p <;> simp [requiredNames]

theorem find?_keyword (s : ScalarFragment) (hkey : key ∈ Validation.keywords) :
    (scalar s).written.find? key = s.validation.toEntries.find? key := by
  simp only [Validation.keywords, List.mem_cons, List.not_mem_nil, or_false] at hkey
  rcases hkey with rfl | rfl | rfl | rfl | rfl | rfl <;>
    simp [Validation.toEntries, Json.lengthEntry]

/-- Single values are known from their written forms. -/
theorem scalar_eq_of_toJson (h : (scalar s).toJson = (scalar t).toJson) :
    (scalar s).withoutFlags = (scalar t).withoutFlags := by
  have hfind (key : String) : (scalar s).written.find? key = (scalar t).written.find? key :=
    find?_eq h key
  have htype : s.type = t.type := Option.some.inj (type_eq_of_toJson h)
  have hformat : s.format = t.format :=
    Json.eq_of_column (fun s => (scalar s).written) "format" (·.format) Value.string_injective
      (by simp) (hfind "format")
  have hdescription : s.description = t.description := description_eq_of_toJson h
  have hsample : s.sample = t.sample :=
    Json.eq_of_column (fun s => (scalar s).written) "example" (·.sample) Value.string_injective
      (by simp) (hfind "example")
  have hvalidation : s.validation = t.validation := Validation.eq_of_find? fun key hkey => by
    rw [← find?_keyword s hkey, ← find?_keyword t hkey, hfind key]
  simp only [withoutFlags, htype, hformat, hdescription, hsample, hvalidation]

/-- Named fragments are known from their written forms, in order. -/
theorem entries_eq_of_toJson
    (ih : ∀ e ∈ ps, ∀ {q : PropertyFragment}, e.2.toJson = q.toJson →
      e.2.withoutFlags = q.withoutFlags)
    (h : entriesToJson ps = entriesToJson qs) :
    entriesWithoutFlags ps = entriesWithoutFlags qs := by
  rw [entriesToJson_eq, entriesToJson_eq] at h
  rw [entriesWithoutFlags_eq, entriesWithoutFlags_eq]
  refine list_map_eq_of_written (fun e he f hwritten => ?_) h
  obtain ⟨hname, hp⟩ := Prod.mk.inj hwritten
  rw [hname, ih e he hp]

theorem entriesToJson_withoutFlags (ih : ∀ e ∈ ps, e.2.withoutFlags.toJson = e.2.toJson) :
    entriesToJson (entriesWithoutFlags ps) = entriesToJson ps := by
  rw [entriesWithoutFlags_eq, entriesToJson_eq, entriesToJson_eq, List.map_map]
  exact List.map_congr_left fun e he => Prod.ext rfl (ih e he)

/-- Inline fragments are known from their written forms. -/
theorem eq_of_toJson (h : p.toJson = q.toJson) : p.withoutFlags = q.withoutFlags := by
  induction p generalizing q with
  | ref pointer required =>
    cases q with
    | ref pointer' required' =>
      have hpointer := find?_eq h "$ref"
      rw [written_ref, written_ref] at hpointer
      rw [withoutFlags, withoutFlags, Value.string.inj (Option.some.inj hpointer)]
    | _ => simpa [mark] using mark_eq_of_toJson h
  | array type items description required ih =>
    cases q with
    | array type' items' description' required' =>
      obtain rfl : type = type' := Option.some.inj (type_eq_of_toJson h)
      obtain rfl : description = description' := description_eq_of_toJson h
      have hfind (items : PropertyFragment) (required : Bool) :
          (array type items description required).written.find? "items" = some items.toJson := by
        simp
      have hitems := find?_eq h "items"
      rw [hfind, hfind] at hitems
      rw [withoutFlags, withoutFlags, ih (Option.some.inj hitems)]
    | _ => simpa [mark] using mark_eq_of_toJson h
  | object type names ps description required ih =>
    cases q with
    | object type' names' qs description' required' =>
      obtain rfl : type = type' := Option.some.inj (type_eq_of_toJson h)
      obtain rfl : description = description' := description_eq_of_toJson h
      obtain rfl : names = names' := requiredNames_eq_of_toJson h
      have hfind (ps : List (String × PropertyFragment)) (required : Bool) :
          (object type names ps description required).written.find? "properties" =
            some (.object (entriesToJson ps)) := by simp
      have hproperties := find?_eq h "properties"
      rw [hfind, hfind] at hproperties
      rw [withoutFlags, withoutFlags,
        entries_eq_of_toJson ih (Value.object.inj (Option.some.inj hproperties))]
    | _ => simpa [mark] using mark_eq_of_toJson h
  | scalar s =>
    cases q with
    | scalar t => exact scalar_eq_of_toJson h
    | _ => simpa [mark] using mark_eq_of_toJson h

/-- The flags are not written. -/
theorem toJson_withoutFlags (p : PropertyFragment) : p.withoutFlags.toJson = p.toJson := by
  induction p with
  | ref pointer required => rfl
  | array type items description required ih => rw [withoutFlags, toJson, toJson, ih]
  | object type names ps description required ih =>
    rw [withoutFlags, toJson, toJson, entriesToJson_withoutFlags ih]
  | scalar s => rfl

/-! ### Their numbers -/

mutual

/-- The bounds in a fragment. -/
def allBounds : PropertyFragment → List Binary64
  | .ref .. => []
  | .array _ items _ _ => allBounds items
  | .object _ _ properties _ _ => entriesBounds properties
  | .scalar s => s.validation.bounds

/-- The bounds in named fragments. -/
def entriesBounds : List (String × PropertyFragment) → List Binary64
  | [] => []
  | (_, p) :: rest => allBounds p ++ entriesBounds rest

end

theorem entriesBounds_eq (ps : List (String × PropertyFragment)) :
    entriesBounds ps = ps.flatMap fun e => e.2.allBounds := by
  induction ps with
  | nil => rfl
  | cons e ps ih => rw [entriesBounds, ih, List.flatMap_cons]

/-- Fragments with finite bounds are written with digits. -/
theorem legible_toJson (h : ∀ x ∈ p.allBounds, x.isFinite) : p.toJson.Legible := by
  induction p with
  | ref pointer required => simp [toJson]
  | array type items description required ih => simp [toJson, ih h]
  | object type names ps description required ih =>
    have hentries : LegibleEntries (entriesToJson ps) := by
      rw [LegibleEntries, entriesToJson_eq, List.forall_mem_map]
      intro e he
      rw [allBounds, entriesBounds_eq] at h
      exact ih e he fun x hx => h x (List.mem_flatMap.mpr ⟨e, he, hx⟩)
    simp [toJson, hentries]
  | scalar s =>
    have hkeywords := Validation.legible_toEntries h
    simp [toJson, ScalarFragment.toJson, hkeywords]

end PropertyFragment

/-! ## Fragments that stand alone -/

namespace ModelFragment

variable {a b : ModelFragment}

/-- A fragment with nothing said, at any property in it, about whether the value must be present. -/
def withoutFlags : ModelFragment → ModelFragment
  | .object type names properties description =>
    .object type names (PropertyFragment.entriesWithoutFlags properties) description
  | .array type items description => .array type items.withoutFlags description
  | .primitive type format description => .primitive type format description

/-- The bounds in a fragment. -/
def allBounds : ModelFragment → List Binary64
  | .object _ _ properties _ => PropertyFragment.entriesBounds properties
  | .array _ items _ => items.allBounds
  | .primitive .. => []

theorem inline_withoutFlags (a : ModelFragment) :
    a.withoutFlags.inline false = (a.inline false).withoutFlags := by
  cases a <;> rfl

theorem allBounds_inline (a : ModelFragment) : (a.inline false).allBounds = a.allBounds := by
  cases a <;> rfl

/-- Fragments that stand alone are known from their written forms. -/
theorem eq_of_toJson (h : a.toJson = b.toJson) : a.withoutFlags = b.withoutFlags := by
  rw [← toJson_inline a false, ← toJson_inline b false] at h
  have hinline := PropertyFragment.eq_of_toJson h
  rw [← inline_withoutFlags, ← inline_withoutFlags] at hinline
  exact inline_injective false hinline

theorem toJson_withoutFlags (a : ModelFragment) : a.withoutFlags.toJson = a.toJson := by
  rw [← toJson_inline _ false, inline_withoutFlags, PropertyFragment.toJson_withoutFlags,
    toJson_inline]

/-- Fragments with finite bounds are written with digits. -/
theorem legible_toJson (h : ∀ x ∈ a.allBounds, x.isFinite) : a.toJson.Legible := by
  rw [← toJson_inline a false]
  rw [← allBounds_inline] at h
  exact PropertyFragment.legible_toJson h

end ModelFragment

/-! ## Fragments of parameters -/

theorem Location.name_injective : Function.Injective Location.name := by
  intro a b
  cases a <;> cases b <;> decide

theorem CollectionFormat.name_injective : Function.Injective CollectionFormat.name := by
  intro a b
  cases a <;> cases b <;> decide

namespace ParameterFragment

/-- Where the request carries the parameter. -/
def location : ParameterFragment → Location
  | .plain l _ _ => l
  | .body _ => .body

/-- The name of the parameter. -/
def name : ParameterFragment → String
  | .plain _ _ a => a.name
  | .body a => a.name

/-- Whether the parameter must be given. -/
def isRequired : ParameterFragment → Bool
  | .plain _ _ a => a.required
  | .body a => a.required

/-- The description. -/
def description? : ParameterFragment → Option String
  | .plain _ _ a => a.description
  | .body a => a.description

variable {p q : ParameterFragment} {a b : PlainFragment} {location : Location}
  {outside : location ≠ .body} {key : String}

/-- A fragment with nothing said, at any property in it, about whether the value must be present.
Whether the parameter itself must be given is written. -/
def withoutFlags : ParameterFragment → ParameterFragment
  | .plain location outside a =>
    .plain location outside { a with items := a.items.map PropertyFragment.withoutFlags }
  | .body a => .body { a with schema := a.schema.withoutFlags }

/-- The bounds in a fragment. -/
def allBounds : ParameterFragment → List Binary64
  | .plain _ _ a => a.items.toList.flatMap PropertyFragment.allBounds ++ a.validation.bounds
  | .body a => a.schema.allBounds

/-- Fragments with finite bounds are written with digits. -/
theorem legible_toJson (h : ∀ x ∈ p.allBounds, x.isFinite) : p.toJson.Legible := by
  cases p with
  | plain location outside a =>
    rw [allBounds, List.forall_mem_append] at h
    have hitems : ∀ i ∈ a.items, i.toJson.Legible := fun i hi =>
      PropertyFragment.legible_toJson fun x hx =>
        h.1 x (List.mem_flatMap.mpr ⟨i, Option.mem_toList.mpr hi, hx⟩)
    have hkeywords := Validation.legible_toEntries h.2
    simp only [toJson, Json.Value.legible_object_iff]
    simpa [hkeywords] using hitems
  | body a =>
    have hschema := ModelFragment.legible_toJson h
    simp [toJson, hschema]

/-- The entries of a written fragment. -/
def written (p : ParameterFragment) : Entries Value := p.toJson.object?.getD []

theorem find?_eq (h : p.toJson = q.toJson) (key : String) :
    p.written.find? key = q.written.find? key := by
  rw [written, written, h]

@[simp] theorem written_plain : (plain location outside a).written =
    ("in", .string location.name) ::
      ("name", .string a.name) ::
      optionalEntry "description" .string a.description ++
      ("required", .bool a.required) ::
      ("type", .string a.type) ::
      optionalEntry "format" .string a.format ++
      optionalEntry "items" PropertyFragment.toJson a.items ++
      optionalEntry "collectionFormat" (fun f => .string f.name) a.collectionFormat ++
      a.validation.toEntries := rfl

@[simp] theorem written_body (a : BodyFragment) : (body a).written =
    ("in", .string Location.body.name) ::
      ("name", .string a.name) ::
      optionalEntry "description" .string a.description ++
      ("required", .bool a.required) ::
      [("schema", a.schema.toJson)] := rfl

/-- What all parameters say is known from their written forms. -/
theorem common_eq_of_toJson (h : p.toJson = q.toJson) :
    p.location = q.location ∧ p.name = q.name ∧ p.description? = q.description? ∧
      p.isRequired = q.isRequired := by
  have hlocation (p : ParameterFragment) :
      p.written.find? "in" = some (.string p.location.name) := by
    cases p <;> rfl
  have hname (p : ParameterFragment) : p.written.find? "name" = some (.string p.name) := by
    cases p <;> rfl
  have hdescription (p : ParameterFragment) :
      p.written.find? "description" = p.description?.map .string := by
    cases p <;> simp [description?, Validation.toEntries, Json.lengthEntry]
  have hrequired (p : ParameterFragment) :
      p.written.find? "required" = some (.bool p.isRequired) := by
    cases p <;> simp [isRequired]
  have hin := find?_eq h "in"
  have hown := find?_eq h "name"
  have hflag := find?_eq h "required"
  rw [hlocation, hlocation] at hin
  rw [hname, hname] at hown
  rw [hrequired, hrequired] at hflag
  exact ⟨Location.name_injective (Value.string.inj (Option.some.inj hin)),
    Value.string.inj (Option.some.inj hown),
    Json.eq_of_column written "description" description? Value.string_injective hdescription
      (find?_eq h "description"),
    Value.bool.inj (Option.some.inj hflag)⟩

theorem find?_keyword (location : Location) (outside : location ≠ .body) (a : PlainFragment)
    (hkey : key ∈ Validation.keywords) :
    (plain location outside a).written.find? key = a.validation.toEntries.find? key := by
  simp only [Validation.keywords, List.mem_cons, List.not_mem_nil, or_false] at hkey
  rcases hkey with rfl | rfl | rfl | rfl | rfl | rfl <;>
    simp [Validation.toEntries, Json.lengthEntry]

/-- What parameters outside the body say is known from their written forms. -/
theorem plain_eq_of_toJson
    (h : (plain location outside a).toJson = (plain location outside b).toJson) :
    a.type = b.type ∧ a.format = b.format ∧
      a.items.map PropertyFragment.withoutFlags = b.items.map PropertyFragment.withoutFlags ∧
      a.collectionFormat = b.collectionFormat ∧ a.validation = b.validation := by
  let entries (a : PlainFragment) : Entries Value := (plain location outside a).written
  have hfind (key : String) : (entries a).find? key = (entries b).find? key := find?_eq h key
  have htype : a.type = b.type := by
    have hcolumn (a : PlainFragment) : (entries a).find? "type" = some (.string a.type) := by
      simp [entries]
    have htype := hfind "type"
    rw [hcolumn, hcolumn] at htype
    exact Value.string.inj (Option.some.inj htype)
  have hitems :
      a.items.map PropertyFragment.withoutFlags = b.items.map PropertyFragment.withoutFlags := by
    have hcolumn (a : PlainFragment) :
        (entries a).find? "items" = a.items.map PropertyFragment.toJson := by
      simp [entries, Validation.toEntries, Json.lengthEntry]
    have hitems := hfind "items"
    rw [hcolumn, hcolumn] at hitems
    exact map_eq_of_written (fun _ _ => PropertyFragment.eq_of_toJson) hitems
  have hkeywords : a.validation = b.validation := Validation.eq_of_find? fun key hkey => by
    rw [← find?_keyword location outside a hkey, find?_eq h key,
      find?_keyword location outside b hkey]
  refine ⟨htype, ?_, hitems, ?_, hkeywords⟩
  · exact Json.eq_of_column entries "format" (·.format) Value.string_injective
      (by simp [entries, Validation.toEntries, Json.lengthEntry]) (hfind "format")
  · exact Json.eq_of_column entries "collectionFormat" (·.collectionFormat)
      (Value.string_injective.comp CollectionFormat.name_injective)
      (by simp [entries, Validation.toEntries, Json.lengthEntry, Function.comp_def])
      (hfind "collectionFormat")

/-- Fragments of parameters are known from their written forms. -/
theorem eq_of_toJson (h : p.toJson = q.toJson) : p.withoutFlags = q.withoutFlags := by
  obtain ⟨hlocation, hname, hdescription, hrequired⟩ := common_eq_of_toJson h
  -- only a parameter in the body has a schema
  have hschema := find?_eq h "schema"
  cases p with
  | plain location outside a =>
    cases q with
    | plain location' outside' b =>
      obtain rfl : location = location' := hlocation
      obtain ⟨htype, hformat, hitems, hcollectionFormat, hvalidation⟩ := plain_eq_of_toJson h
      have hname : a.name = b.name := hname
      have hdescription : a.description = b.description := hdescription
      have hrequired : a.required = b.required := hrequired
      rw [withoutFlags, withoutFlags, hname, hdescription, hrequired, htype, hformat, hitems,
        hcollectionFormat, hvalidation]
    | body b => simp [Validation.toEntries, Json.lengthEntry] at hschema
  | body a =>
    cases q with
    | plain location outside b => simp [Validation.toEntries, Json.lengthEntry] at hschema
    | body b =>
      have hcolumn (a : BodyFragment) :
          (body a).written.find? "schema" = some a.schema.toJson := by simp
      rw [hcolumn, hcolumn] at hschema
      have hmodel := ModelFragment.eq_of_toJson (Option.some.inj hschema)
      have hname : a.name = b.name := hname
      have hdescription : a.description = b.description := hdescription
      have hrequired : a.required = b.required := hrequired
      rw [withoutFlags, withoutFlags, hname, hdescription, hrequired, hmodel]

theorem toJson_withoutFlags (p : ParameterFragment) : p.withoutFlags.toJson = p.toJson := by
  cases p with
  | plain location outside a =>
    have hitems :
        optionalEntry "items" PropertyFragment.toJson
            (a.items.map PropertyFragment.withoutFlags) =
          optionalEntry "items" PropertyFragment.toJson a.items := by
      cases a.items with
      | none => rfl
      | some i => simp [optionalEntry, PropertyFragment.toJson_withoutFlags]
    rw [withoutFlags, toJson, toJson, hitems]
  | body a => rw [withoutFlags, toJson, toJson, ModelFragment.toJson_withoutFlags]

/-- Lists of fragments are known from their written forms, in order. -/
theorem map_eq_of_toJson {ps qs : List ParameterFragment} (h : ps.map toJson = qs.map toJson) :
    ps.map withoutFlags = qs.map withoutFlags :=
  list_map_eq_of_written (fun _ _ _ => eq_of_toJson) h

theorem map_toJson_withoutFlags (ps : List ParameterFragment) :
    (ps.map withoutFlags).map toJson = ps.map toJson := by
  rw [List.map_map]
  exact List.map_congr_left fun p _ => toJson_withoutFlags p

theorem legible_array {ps : List ParameterFragment}
    (h : ∀ p ∈ ps, ∀ x ∈ p.allBounds, x.isFinite) : (Value.array (ps.map toJson)).Legible := by
  rw [Json.Value.legible_array_iff, List.forall_mem_map]
  exact fun p hp => legible_toJson (h p hp)

end ParameterFragment

/-! ## Texts -/

/-- **Artifacts are known from their texts.** If all bounds are finite, two inline fragments have one
text exactly if they differ at most in the flags that are not written, whatever texts their types
are. So do two fragments that stand alone and two lists of fragments of parameters. Descriptions are
written as their fragments, and no two of them have the same one. -/
theorem texts_determine :
    (∀ p q : PropertyFragment, (∀ x ∈ p.allBounds, x.isFinite) → (∀ x ∈ q.allBounds, x.isFinite) →
      (p.toJson.compact = q.toJson.compact ↔ p.withoutFlags = q.withoutFlags)) ∧
    (∀ a b : ModelFragment, (∀ x ∈ a.allBounds, x.isFinite) → (∀ x ∈ b.allBounds, x.isFinite) →
      (a.toJson.compact = b.toJson.compact ↔ a.withoutFlags = b.withoutFlags)) ∧
    (∀ ps qs : List ParameterFragment, (∀ p ∈ ps, ∀ x ∈ p.allBounds, x.isFinite) →
      (∀ q ∈ qs, ∀ x ∈ q.allBounds, x.isFinite) →
      ((Value.array (ps.map ParameterFragment.toJson)).compact =
          (Value.array (qs.map ParameterFragment.toJson)).compact ↔
        ps.map ParameterFragment.withoutFlags = qs.map ParameterFragment.withoutFlags)) ∧
    Function.Injective Property.fragment ∧ Function.Injective Model.fragment ∧
    Function.Injective Parameter.fragment := by
  refine ⟨fun p q hp hq => ⟨fun h => ?_, fun h => ?_⟩, fun a b ha hb => ⟨fun h => ?_, fun h => ?_⟩,
    fun ps qs hps hqs => ⟨fun h => ?_, fun h => ?_⟩, Property.fragment_injective,
    Model.fragment_injective, Parameter.fragment_injective⟩
  · exact PropertyFragment.eq_of_toJson (Value.compact_injective
      (PropertyFragment.legible_toJson hp) (PropertyFragment.legible_toJson hq) h)
  · rw [← PropertyFragment.toJson_withoutFlags p, h, PropertyFragment.toJson_withoutFlags]
  · exact ModelFragment.eq_of_toJson (Value.compact_injective
      (ModelFragment.legible_toJson ha) (ModelFragment.legible_toJson hb) h)
  · rw [← ModelFragment.toJson_withoutFlags a, h, ModelFragment.toJson_withoutFlags]
  · have hwritten := Value.compact_injective (ParameterFragment.legible_array hps)
      (ParameterFragment.legible_array hqs) h
    exact ParameterFragment.map_eq_of_toJson (Value.array.inj hwritten)
  · rw [← ParameterFragment.map_toJson_withoutFlags ps, h,
      ParameterFragment.map_toJson_withoutFlags]

/-- A value of a type with a lower bound, under a description with characters that are escaped. -/
def PropertyFragment.atLeast (type : String) (x : Binary64) (required : Bool) : PropertyFragment :=
  .scalar {
    type := type, format := none, description := some "\"from\n\\", sample := none,
    validation := { minimum := some x }, required := required }

/-- The body with a list of such numbers. -/
def ParameterFragment.atLeast (x : Binary64) (required : Bool) : ParameterFragment :=
  .body {
    name := "b", description := none, required := true,
    schema := .array "array" (.atLeast "number" x required) none }

theorem texts_determine_atLeast :
    (PropertyFragment.atLeast "file" (.zero false) true).toJson.compact =
        (PropertyFragment.atLeast "file" (.zero false) false).toJson.compact ∧
      (PropertyFragment.atLeast "file" (.zero false) true).toJson.compact ≠
        (PropertyFragment.atLeast "file" (.zero true) true).toJson.compact ∧
      (ModelFragment.array "array" (.atLeast "number" (.zero false) true) none).toJson.compact ≠
        (ModelFragment.array "list" (.atLeast "number" (.zero false) true) none).toJson.compact ∧
      (Value.array ([.atLeast (.zero false) true].map ParameterFragment.toJson)).compact =
        (Value.array ([.atLeast (.zero false) false].map ParameterFragment.toJson)).compact := by
  have hfinite (type : String) (negative required : Bool) :
      ∀ x ∈ (PropertyFragment.atLeast type (.zero negative) required).allBounds, x.isFinite := by
    intro x hx
    rw [List.mem_singleton.mp hx]
    rfl
  have hparameter (required : Bool) :
      ∀ p ∈ [ParameterFragment.atLeast (.zero false) required], ∀ x ∈ p.allBounds,
        x.isFinite := by
    intro p hp
    rw [List.mem_singleton.mp hp]
    exact hfinite "number" false required
  refine ⟨?_, ?_, ?_, ?_⟩
  · exact (texts_determine.1 _ _ (hfinite "file" false true) (hfinite "file" false false)).mpr rfl
  · intro h
    have hzero : [Binary64.zero false] ≠ [.zero true] := by decide
    have heq := (texts_determine.1 _ _ (hfinite "file" false true)
      (hfinite "file" true true)).mp h
    exact hzero (congrArg PropertyFragment.allBounds heq)
  · intro h
    have hitems := hfinite "number" false true
    have heq := (texts_determine.2.1 (.array "array" (.atLeast "number" (.zero false) true) none)
      (.array "list" (.atLeast "number" (.zero false) true) none) hitems hitems).mp h
    exact absurd (ModelFragment.array.inj heq).1 (by decide)
  · exact (texts_determine.2.2.1 _ _ (hparameter true) (hparameter false)).mpr rfl

end FieldSchema
