import FieldSchema.Proofs.RecordTrees

/-!
# Records whose children do not fit

A document gives a mapping exactly if the children of all its records fit their types. Otherwise the
first record for which this fails is reported, in the order of `Document.Definition.located`, and if
it both has children that do not belong to its type and lacks what its type needs, then the former.

* `Document.Definition.Has`: a misfit that a record has. `Document.Definition.Reports` says which
  one is reported of a record that has several.
* `Document.Definition.failure?_toMapping`: the conversion of a record has the error of the first
  record below it that has one.
* `Document.Path.text_eq_spelled`: the text of a path, step by step from the root.
* `Document.Definition.hasShape_of_toMapping`: a mapping has the shape of its record.
* `Document.Definition.first_misfit_reported`: what is accepted, what is reported, and in which
  words.
-/

namespace FieldSchema.Document

/-! ## The text of a path -/

namespace Path

/-- What stands for the steps of a path after something else. -/
def trail : Path → String
  | [] => ""
  | .element :: p => "[]" ++ trail p
  | .field name :: p => "." ++ name ++ trail p

/-- The steps of a path from the root. A field in front has no dot, and if its name is empty
nothing stands for it. -/
def spelled : Path → String
  | [] => ""
  | .element :: p => "[]" ++ trail p
  | .field name :: p => if name = "" then spelled p else name ++ trail p

theorem foldl_addStep {text : String} (h : text ≠ "") (p : Path) :
    p.foldl addStep text = text ++ trail p := by
  induction p generalizing text with
  | nil => simp [trail]
  | cons step p ih =>
    cases step with
    | element =>
      rw [List.foldl_cons, ih (by simp [addStep]), addStep, trail, String.append_assoc]
    | field name =>
      rw [List.foldl_cons, ih (by simp [addStep, h]), addStep, if_neg h, trail]
      simp only [String.append_assoc]

/-- The text of a path is put together of its steps. -/
theorem text_eq_spelled (p : Path) : p.text = p.spelled := by
  rw [text]
  induction p with
  | nil => rfl
  | cons step p ih =>
    cases step with
    | element => exact foldl_addStep (by decide) p
    | field name =>
      rw [List.foldl_cons, addStep, if_pos rfl, spelled]
      by_cases hname : name = ""
      · rw [if_pos hname, hname, ih]
      · rw [if_neg hname, foldl_addStep hname]

end Path

/-! ## Misfits of one record -/

/-- Something is missing, rather than there where it does not belong. -/
def Misfit.IsLack : Misfit → Prop
  | .listWithoutItems | .objectWithoutFields => True
  | .listWithFields | .objectWithItems | .scalarWithChildren => False

namespace Definition

/-- The children of a record do not fit its type in a certain way. -/
def Has (d : Definition) : Misfit → Prop
  | .listWithFields => d.type = "list" ∧ d.fields.isSome
  | .listWithoutItems => d.type = "list" ∧ d.items.isNone
  | .objectWithItems => d.type = "object" ∧ d.items.isSome
  | .objectWithoutFields => d.type = "object" ∧ d.fields.isNone
  | .scalarWithChildren =>
    (d.type ≠ "list" ∧ d.type ≠ "object") ∧ (d.items.isSome ∨ d.fields.isSome)

/-- The children of a record do not fit its type. -/
def IllFormed (d : Definition) : Prop := ∃ r, d.Has r

/-- A misfit that a record has, and a lack only if the record has nothing but lacks. -/
structure Reports (d : Definition) (r : Misfit) : Prop where
  has : d.Has r
  first : r.IsLack → ∀ s, d.Has s → s.IsLack

/-- The misfit that is reported of a record by itself. -/
def misfit? (d : Definition) : Option Misfit :=
  if d.type = "list" then
    if d.fields.isSome then some .listWithFields
    else if d.items.isNone then some .listWithoutItems else none
  else if d.type = "object" then
    if d.items.isSome then some .objectWithItems
    else if d.fields.isNone then some .objectWithoutFields else none
  else if d.items.isSome ∨ d.fields.isSome then some .scalarWithChildren else none

variable {d : Definition} {m : Mapping} {path : Path} {r : Misfit} {e : Error}

theorem has_of_misfit? (h : d.misfit? = some r) : d.Has r := by
  unfold misfit? at h
  split_ifs at h <;> cases h <;> simp_all [Has]

theorem misfit?_eq_some : d.misfit? = some r ↔ d.Reports r := by
  constructor
  · intro h
    refine ⟨has_of_misfit? h, fun hlack s hs => ?_⟩
    cases r <;> cases s <;> simp_all [Has, misfit?, Misfit.IsLack]
  · rintro ⟨hr, hfirst⟩
    cases r with
    | listWithFields => simp [misfit?, hr.1, hr.2]
    | listWithoutItems =>
      have hfields : ¬ d.fields.isSome := fun h => hfirst trivial .listWithFields ⟨hr.1, h⟩
      simp [misfit?, hr.1, hr.2, hfields]
    | objectWithItems => simp [misfit?, hr.1, hr.2]
    | objectWithoutFields =>
      have hitems : ¬ d.items.isSome := fun h => hfirst trivial .objectWithItems ⟨hr.1, h⟩
      simp [misfit?, hr.1, hr.2, hitems]
    | scalarWithChildren => simp [misfit?, hr.1.1, hr.1.2, hr.2]

/-- Something is reported of a record exactly if it has a misfit. -/
theorem misfit?_eq_none : d.misfit? = none ↔ ¬ d.IllFormed := by
  constructor
  · rintro h ⟨r, hr⟩
    unfold misfit? at h
    split_ifs at h <;> cases r <;> simp_all [Has]
  · intro h
    cases hr : d.misfit? with
    | none => rfl
    | some r => exact absurd ⟨r, has_of_misfit? hr⟩ h

/-! ## The error of a conversion -/

attribute [local simp] Definition.type Definition.items Definition.fields

/-- The error for a record at a path, if the record has a misfit. -/
def report? (n : Path × Definition) : Option Error := n.2.misfit?.map (.misfit n.1)

mutual

/-- A record fails with what the first record below it reports. -/
theorem failure?_toMapping (path : Path) :
    (d : Definition) → failure? (d.toMapping path) = (d.locatedFrom path).findSome? report?
  | .mk type items fields keywords => by
    rw [toMapping.eq_def, locatedFrom, List.findSome?_cons, List.findSome?_append]
    by_cases hlist : type = "list"
    · cases items with
      | none => cases fields <;> simp [hlist, report?, misfit?, failure?]
      | some element =>
        cases fields with
        | none =>
          simp [-bind_pure_comp, hlist, report?, misfit?, failure?_toMapping _ element, locatedItem,
            locatedFields]
        | some ds => simp [hlist, report?, misfit?, failure?]
    · by_cases hobject : type = "object"
      · cases fields with
        | none => cases items <;> simp [hobject, report?, misfit?, failure?]
        | some ds =>
          cases items with
          | none =>
            simp [-bind_pure_comp, hobject, report?, misfit?, failure?_fieldMappings path ds,
              locatedItem, locatedFields]
          | some element => simp [hobject, report?, misfit?, failure?]
      · cases items <;> cases fields <;>
          simp [hlist, hobject, report?, misfit?, failure?, locatedItem, locatedFields]

theorem failure?_fieldMappings (path : Path) :
    (ds : List (String × Definition)) →
      failure? (fieldMappings path ds) = (locatedEntries path ds).findSome? report?
  | [] => rfl
  | (name, d) :: rest => by
    rw [fieldMappings, failure?_bind_bind_pure, failure?_toMapping _ d,
      failure?_fieldMappings path rest, locatedEntries, List.findSome?_append]

end

/-- The first record of a document that has a misfit has this one, and it is at this path. -/
def IsFirstMisfit (d : Definition) (path : Path) (r : Misfit) : Prop :=
  ∃ before n after, d.located = before ++ (path, n) :: after ∧
    (∀ k ∈ before, ¬ k.2.IllFormed) ∧ n.Reports r

theorem IsFirstMisfit.exists_record (h : d.IsFirstMisfit path r) :
    ∃ n, (path, n) ∈ d.located ∧ n.Reports r := by
  obtain ⟨before, n, after, hlocated, -, hr⟩ := h
  exact ⟨n, by simp [hlocated], hr⟩

/-- The error for a document is its first misfit. -/
theorem toMapping_eq_error :
    d.toMapping [] = .error e ↔ ∃ path r, d.IsFirstMisfit path r ∧ e = .misfit path r := by
  rw [← failure?_eq_some, failure?_toMapping, ← located, List.findSome?_eq_some_iff]
  simp only [report?, Option.map_eq_some_iff, Option.map_eq_none_iff, misfit?_eq_some,
    misfit?_eq_none]
  constructor
  · rintro ⟨before, ⟨path, n⟩, after, hlocated, ⟨r, hr, rfl⟩, hbefore⟩
    exact ⟨path, r, ⟨before, n, after, hlocated, hbefore, hr⟩, rfl⟩
  · rintro ⟨path, r, ⟨before, n, after, hlocated, hbefore, hr⟩, rfl⟩
    exact ⟨before, (path, n), after, hlocated, ⟨r, hr, rfl⟩, hbefore⟩

theorem exists_error_iff :
    (∃ e, d.toMapping [] = .error e) ↔ ∃ n ∈ d.located, n.2.IllFormed := by
  have hnone : failure? (d.toMapping []) = none ↔ ∀ n ∈ d.located, ¬ n.2.IllFormed := by
    rw [failure?_toMapping, ← located, List.findSome?_eq_none_iff]
    simp only [report?, Option.map_eq_none_iff, misfit?_eq_none]
  rw [← failure?_ne_none, Ne, hnone]
  simp only [not_forall, not_not, exists_prop]

/-! ## The shape of a mapping -/

/-- A mapping has the shape of a record: the types of its nodes are those of the records, and the
fields of an object have the names of the fields of its record, in order. -/
inductive HasShape : Definition → Mapping → Prop
  | scalar {tag : String} {keywords : Keywords} {t : Traits} (hlist : tag ≠ "list")
      (hobject : tag ≠ "object") :
      HasShape (.mk tag none none keywords) (.scalar (.ofTag tag) t)
  | list {item : Definition} {element : Mapping} {keywords : Keywords} {t : Traits}
      (h : HasShape item element) :
      HasShape (.mk "list" (some item) none keywords) (.list element t)
  | object {ds : List (String × Definition)} {fields : List (String × Mapping)}
      {keywords : Keywords} {t : Traits}
      (hnames : Entries.keys ds = Entries.keys fields)
      (h : List.Forall₂ (fun e f => HasShape e.2 f.2) ds fields) :
      HasShape (.mk "object" none (some ds) keywords) (.object fields t)

/-- The mapping of a record has its shape. -/
theorem hasShape_of_toMapping (h : d.toMapping path = .ok m) : d.HasShape m := by
  induction m generalizing d path with
  | scalar type t =>
    obtain ⟨_, _, rfl, hlist, hobject, rfl, -⟩ := toMapping_eq_scalar.mp h
    exact .scalar hlist hobject
  | list element t ih =>
    obtain ⟨_, _, rfl, hitem, -⟩ := toMapping_eq_list.mp h
    exact .list (ih hitem)
  | object fields t ih =>
    obtain ⟨ds, _, rfl, hfields, -⟩ := toMapping_eq_object.mp h
    have hagree : Entries.Agree (fun n e => HasShape e n) fields ds := by
      refine (agree_of_fieldMappings hfields).flip.imp_of_mem ?_
      rintro name n e hf ⟨_, he⟩
      exact ih (name, n) hf he
    exact .object hagree.keys_eq.symm (hagree.flip.imp fun _ _ hef => hef.2)

/-! ## What is reported -/

/-- **The first misfit is reported.** A document gives no mapping exactly if one of its records has
a misfit. The error is the first misfit: records come before their item and their fields, fields
come in order, and children that do not belong to a record count before those it lacks. Its message
names the record by its path from the root. If there is a mapping, it has the shape of the
document. -/
theorem first_misfit_reported (d : Definition) :
    ((∃ e, d.toMapping [] = .error e) ↔ ∃ n ∈ d.located, n.2.IllFormed) ∧
    (∀ e, d.toMapping [] = .error e ↔ ∃ path r, d.IsFirstMisfit path r ∧ e = .misfit path r) ∧
    (∀ path r, d.IsFirstMisfit path r → (Error.misfit path r).message? =
      some ("Invalid mapping: " ++ (if path.spelled = "" then "<root>" else path.spelled) ++ ": " ++
        r.reason)) ∧
    ∀ m, d.toMapping [] = .ok m → d.HasShape m := by
  refine ⟨exists_error_iff, fun e => toMapping_eq_error, fun path r _ => ?_, fun m => ?_⟩
  · rw [Error.message?, Path.shown, path.text_eq_spelled]
  · exact hasShape_of_toMapping

/-- A delivery whose rows have fields in place of an item, and whose note has an item. -/
def delivery : Definition :=
  let row : Definition := .mk "list" none (some []) {}
  let stop : Definition :=
    .mk "object" none (some [("city", .mk "text" none none {}), ("rows", row)]) {}
  .mk "object" none (some [("stops", .mk "list" (some stop) none {}),
    ("note", .mk "text" (some row) none {})]) {}

theorem first_misfit_reported_delivery :
    delivery.IsFirstMisfit [.field "stops", .element, .field "rows"] .listWithFields ∧
    (Error.misfit [.field "stops", .element, .field "rows"] .listWithFields).message? =
      some "Invalid mapping: stops[].rows: a list cannot declare fields" ∧
    ∃ m, (bookings "int" "date").toMapping [] = .ok m ∧ (bookings "int" "date").HasShape m ∧
      ¬ ∃ n ∈ (bookings "int" "date").located, n.2.IllFormed := by
  obtain ⟨-, herror, htext, -⟩ := first_misfit_reported delivery
  obtain ⟨path, r, hfirst, heq⟩ := (herror _).mp rfl
  cases heq
  obtain ⟨hill, -, -, hshape⟩ := first_misfit_reported (bookings "int" "date")
  refine ⟨hfirst, htext _ _ hfirst, _, rfl, hshape _ rfl, fun h => ?_⟩
  obtain ⟨e, he⟩ := hill.mpr h
  cases he

end Definition

end FieldSchema.Document
