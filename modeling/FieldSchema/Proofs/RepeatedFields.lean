import FieldSchema.Proofs.Conversion

/-!
# Fields of one name

An object may have several fields of one name. Its properties are then collected field by field: a
property stands where its name came first and describes the field that came last, and the name is
required once for each field that must be present, also for one whose description was replaced.

* `Mapping.addField`: what one more field does. `Mapping.objectProperties_eq_foldlM` says that the
  properties of an object are collected in this way, with the same error.
* `Mapping.Collected`: what holds of the properties and the required names after some fields. One
  more field keeps it (`Mapping.Collected.addField`), so it holds after all
  (`Mapping.collected_of_foldlM`).
* `Mapping.properties_of_repeated_fields`: the properties and the required names of any fields.
-/

namespace FieldSchema.Mapping

variable {fields : List (String × Mapping)} {f : String × Mapping}
  {acc next : Entries Property × List String}

/-! ## Field by field -/

/-- What has been collected from fields, with one more field. -/
def addField (acc : Entries Property × List String) (f : String × Mapping) :
    Except SchemaError (Entries Property × List String) := do
  let p ← f.2.nestedProperty
  return (acc.1.insert f.1 p, if f.2.isRequired then acc.2 ++ [f.1] else acc.2)

theorem foldlM_addField (fields : List (String × Mapping))
    (acc : Entries Property × List String) :
    fields.foldlM addField acc = do
      let ps ← fieldProperties fields
      return (acc.1.insertAll ps, acc.2 ++ requiredNames fields) := by
  induction fields generalizing acc with
  | nil => rw [requiredNames, List.filter_nil, List.map_nil, List.append_nil]; rfl
  | cons f fields ih =>
    rw [List.foldlM_cons, fieldProperties, addField, nestedProperty]
    cases f.2.orPointer f.2.toProperty with
    | error e => rfl
    | ok p =>
      -- the names that follow are those of the other fields, whichever the first one adds
      have hnames : (if f.2.isRequired then acc.2 ++ [f.1] else acc.2) ++ requiredNames fields =
          acc.2 ++ requiredNames (f :: fields) := by
        rw [requiredNames, requiredNames, List.filter_cons]
        split
        · rw [List.append_assoc]; rfl
        · rfl
      refine (ih _).trans ?_
      rw [hnames]
      cases fieldProperties fields <;> rfl

/-- The properties of an object are collected field by field. -/
theorem objectProperties_eq_foldlM (fields : List (String × Mapping)) :
    objectProperties fields = fields.foldlM addField ([], []) := by
  rw [foldlM_addField]
  rfl

/-! ## What is collected -/

/-- The properties and the required names that are collected from fields. -/
structure Collected (fields : List (String × Mapping)) (acc : Entries Property × List String) :
    Prop where
  /-- Each name stands where it came first. -/
  keys_eq : acc.1.keys = (Entries.keys fields).eraseDups
  nodup : acc.1.keys.Nodup
  /-- Its property describes the field that came last. -/
  last : ∀ name, Option.Rel (fun m p => m.nestedProperty = .ok p)
    (Entries.find? fields.reverse name) (acc.1.find? name)
  /-- There is one required name for each field that must be present. -/
  required_eq : acc.2 = Entries.keys (fields.filter fun f => .required ∈ f.2.constraints)

theorem collected_nil : Collected [] ([], []) := ⟨rfl, List.nodup_nil, fun _ => .none, rfl⟩

/-- One more field. -/
theorem Collected.addField (h : Collected fields acc) (hf : addField acc f = .ok next) :
    Collected (fields ++ [f]) next := by
  obtain ⟨p, hp, hnext⟩ := bind_eq_ok.mp hf
  obtain rfl := pure_eq_ok.mp hnext
  have hkeys : Entries.keys (fields ++ [f]) = Entries.keys fields ++ [f.1] := List.map_append
  refine ⟨?_, Entries.keys_nodup_insert h.nodup, fun name => ?_, ?_⟩
  · rw [Entries.keys_insert, h.keys_eq, hkeys, Entries.eraseDups_append_singleton]
  · rw [List.reverse_concat, Entries.find?_cons, Entries.find?_insert]
    split
    · exact .some hp
    · exact h.last name
  · have hrequired : f.2.isRequired = decide (.required ∈ f.2.constraints) :=
      List.contains_eq_mem _ _
    rw [hrequired, h.required_eq, List.filter_append, List.filter_singleton]
    by_cases hmem : .required ∈ f.2.constraints
    · simp [hmem, Entries.keys]
    · simp [hmem]

/-- All fields, one after the other. -/
theorem collected_of_foldlM (h : fields.foldlM addField ([], []) = .ok acc) :
    Collected fields acc := by
  induction fields using List.reverseRecOn generalizing acc with
  | nil =>
    obtain rfl := pure_eq_ok.mp h
    exact collected_nil
  | append_singleton fields f ih =>
    rw [List.foldlM_append] at h
    obtain ⟨before, hbefore, hlast⟩ := bind_eq_ok.mp h
    rw [List.foldlM_cons] at hlast
    obtain ⟨after, hafter, hrest⟩ := bind_eq_ok.mp hlast
    obtain rfl := pure_eq_ok.mp hrest
    exact (ih hbefore).addField hafter

/-! ## Repeated names -/

/-- **The last field of a name is described, in the place of the first one.** The names of the
properties are the names of the fields, without repeats and in the order in which they first occur.
What stands under a name is the description of the last field of that name. The required names are
those of the fields that must be present, in order and one for each such field. -/
theorem properties_of_repeated_fields {ps : Entries Property} {names : List String}
    (h : objectProperties fields = .ok (ps, names)) :
    ps.keys = (Entries.keys fields).eraseDups ∧ ps.keys.Nodup ∧
    (∀ name p, ps.find? name = some p ↔
      ∃ before m after, fields = before ++ (name, m) :: after ∧ name ∉ Entries.keys after ∧
        m.nestedProperty = .ok p) ∧
    names = Entries.keys (fields.filter fun f => .required ∈ f.2.constraints) := by
  rw [objectProperties_eq_foldlM] at h
  obtain ⟨hkeys, hnodup, hlast, hrequired⟩ := collected_of_foldlM h
  refine ⟨hkeys, hnodup, fun name p => ?_, hrequired⟩
  rw [show Entries.find? ps name = some p ↔ _ from eq_some_iff_of_rel (hlast name)]
  simp only [Entries.find?_reverse_eq_some]
  constructor
  · rintro ⟨m, ⟨before, after, hfields, hafter⟩, hmp⟩
    exact ⟨before, m, after, hfields, hafter, hmp⟩
  · rintro ⟨before, m, after, hfields, hafter, hmp⟩
    exact ⟨m, ⟨before, after, hfields, hafter⟩, hmp⟩

/-- Fields in which two names come twice and one three times, first as a named value. -/
def revisedFields : List (String × Mapping) :=
  [("id", int.required), ("owner", text.required.withName "Owner"), ("tags", listOf text),
    ("id", long), ("owner", text), ("id", text.required.withName "Id")]

theorem properties_of_repeated_fields_revised :
    ∃ ps, objectProperties revisedFields = .ok (ps, ["id", "owner", "id"]) ∧
      ps.keys = ["id", "owner", "tags"] ∧
      ps.find? "id" = some (.ref (definitionRef "Id") true) ∧
      (ps.find? "owner").map Property.isRequired = some false := by
  have hcollected : objectProperties revisedFields = .ok (_, _) := rfl
  obtain ⟨hkeys, -, hlast, -⟩ := properties_of_repeated_fields hcollected
  have howner := (hlast "owner" _).mpr
    ⟨revisedFields.take 4, _, revisedFields.drop 5, rfl, by decide, rfl⟩
  refine ⟨_, hcollected, hkeys, ?_, ?_⟩
  · exact (hlast "id" _).mpr ⟨revisedFields.take 5, _, [], rfl, List.not_mem_nil, rfl⟩
  · rw [howner]
    rfl

end FieldSchema.Mapping
