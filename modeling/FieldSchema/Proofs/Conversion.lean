import FieldSchema.Schema.Definitions
import FieldSchema.Proofs.Entries
import FieldSchema.Proofs.Fallible
import FieldSchema.Proofs.Tree

/-!
# What the conversions return

* `Mapping.toProperty_scalar_eq_ok`, `Mapping.toProperty_list_eq_ok` and
  `Mapping.toProperty_object_eq_ok`: the inline description of a node, from the descriptions of the
  nodes right below it.
* `Mapping.toProperty_eq_map_toModel`: the inline description of a node is its model, read by
  `Model.inline`; the two conversions have the same errors.
* `Mapping.definitions_eq_ok`: the definitions of a tree are the models of its named nodes, in
  order.
-/

namespace FieldSchema

/-- The inline description of what a model describes. A single value gets an example and keywords,
which a model does not carry. -/
def Model.inline (required : Bool) (sample : Option String) (validation : Validation) :
    Model → Property
  | .object requiredNames properties description =>
    .object requiredNames properties description required
  | .array items description => .array items description required
  | .primitive type format description =>
    .scalar { type, format, description, sample, validation, required }

theorem Model.inline_injective {required : Bool} {sample : Option String} {validation : Validation}
    {a b : Model} (h : a.inline required sample validation = b.inline required sample validation) :
    a = b := by
  cases a <;> cases b <;> cases h <;> rfl

namespace Mapping

variable {m element : Mapping} {fields : List (String × Mapping)} {t : Traits} {p : Property}

/-! ## Properties -/

/-- A run over the values of entries keeps the names. -/
theorem mapM_values_eq_ok {α β : Type} {f : α → Except SchemaError β} {es : Entries α}
    {fs : Entries β} :
    (es.mapM fun e => do let b ← f e.2; return (e.1, b)) = .ok fs ↔
      Entries.Agree (fun a b => f a = .ok b) es fs := by
  have hpair (e : String × α) (d : String × β) :
      (do let b ← f e.2; return (e.1, b) : Except SchemaError (String × β)) = .ok d ↔
        e.1 = d.1 ∧ f e.2 = .ok d.2 := by
    simp only [bind_eq_ok, pure_eq_ok, Prod.ext_iff]
    constructor
    · rintro ⟨b, hb, hn, rfl⟩; exact ⟨hn, hb⟩
    · rintro ⟨hn, hb⟩; exact ⟨d.2, hb, hn, rfl⟩
  rw [mapM_eq_ok, Entries.Agree]
  simp only [hpair]

/-- In a nested place, a named node is described by a pointer and any other inline. -/
theorem nestedProperty_eq_ok :
    m.nestedProperty = .ok p ↔
      (∃ name, m.refName = some name ∧ p = .ref (definitionRef name) m.isRequired) ∨
      (m.refName = none ∧ m.toProperty = .ok p) := by
  cases hm : m.refName with
  | some name =>
    rw [nestedProperty_of_refName hm]
    simp [eq_comm]
  | none =>
    rw [nestedProperty_of_unnamed hm]
    simp

theorem fieldProperties_eq (fields : List (String × Mapping)) :
    fieldProperties fields =
      fields.mapM fun f => do let p ← f.2.nestedProperty; return (f.1, p) := by
  induction fields with
  | nil => rfl
  | cons f fields ih =>
    rw [fieldProperties, ih, List.mapM_cons, bind_assoc]
    simp only [pure_bind]
    rfl

theorem fieldProperties_eq_ok {ps : List (String × Property)} :
    fieldProperties fields = .ok ps ↔
      Entries.Agree (fun m p => m.nestedProperty = .ok p) fields ps := by
  rw [fieldProperties_eq, mapM_values_eq_ok]

theorem requiredNames_eq_of_agree {others : List (String × Mapping)}
    (h : Entries.Agree (fun m n => m.isRequired = n.isRequired) fields others) :
    requiredNames fields = requiredNames others := by
  unfold requiredNames
  induction h with
  | nil => rfl
  | @cons f g fields others hfg _ ih =>
    obtain ⟨hname, hrequired⟩ := hfg
    simp only [List.filter_cons, hrequired]
    split
    · rw [List.map_cons, List.map_cons, hname, ih]
    · exact ih

theorem fieldProperties_eq_of_agree {others : List (String × Mapping)}
    (h : Entries.Agree (fun m n => m.nestedProperty = n.nestedProperty) fields others) :
    fieldProperties fields = fieldProperties others := by
  rw [fieldProperties_eq, fieldProperties_eq]
  exact mapM_eq_of_forall₂ (h.imp fun f g hfg => by rw [hfg.1, hfg.2])

theorem toProperty_scalar_eq_ok {type : ScalarType} :
    (scalar type t).toProperty = .ok p ↔
      ∃ typeName format, type.typeName = .ok typeName ∧ (scalar type t).format = .ok format ∧
        p = .scalar {
          type := typeName
          format := format
          description := t.extras.description
          sample := t.extras.sample
          validation := .ofConstraints t.constraints
          required := t.isRequired } := by
  simp only [toProperty, scalarProperty, bind_eq_ok, pure_eq_ok]
  constructor
  · rintro ⟨_, ⟨typeName, htype, format, hformat, rfl⟩, rfl⟩
    exact ⟨typeName, format, htype, hformat, rfl⟩
  · rintro ⟨typeName, format, htype, hformat, rfl⟩
    exact ⟨_, ⟨typeName, htype, format, hformat, rfl⟩, rfl⟩

theorem toProperty_list_eq_ok :
    (list element t).toProperty = .ok p ↔
      ∃ items, element.nestedProperty = .ok items ∧
        p = .array items t.extras.description t.isRequired := by
  rw [toProperty, bind_eq_ok]
  simp only [pure_eq_ok, eq_comm (b := p)]
  rfl

theorem toProperty_object_eq_ok :
    (object fields t).toProperty = .ok p ↔
      ∃ ps, Entries.Agree (fun m p => m.nestedProperty = .ok p) fields ps ∧
        p = .object (requiredNames fields) (Entries.ofList ps) t.extras.description
          t.isRequired := by
  rw [toProperty, bind_eq_ok]
  simp only [pure_eq_ok, fieldProperties_eq_ok, eq_comm (b := p)]

/-! ## Models -/

/-- A node is described inline as it is on its own, with the same errors. -/
theorem toProperty_eq_map_toModel (m : Mapping) :
    m.toProperty = m.toModel.map (Model.inline m.isRequired m.extras.sample m.validation) := by
  cases m with
  | scalar type t =>
    rw [toProperty, toModel, scalarProperty]
    cases type.typeName with
    | error e => rfl
    | ok typeName => cases (scalar type t).format <;> rfl
  | list element t =>
    rw [toProperty, toModel, nestedProperty]
    cases element.orPointer element.toProperty <;> rfl
  | object fields t =>
    rw [toProperty, toModel, objectProperties]
    cases fieldProperties fields <;> rfl

theorem toModel_scalar_eq_ok {type : ScalarType} {model : Model} :
    (scalar type t).toModel = .ok model ↔
      ∃ typeName format, type.typeName = .ok typeName ∧ (scalar type t).format = .ok format ∧
        model = .primitive typeName format t.extras.description := by
  rw [toModel, bind_eq_ok]
  simp only [bind_eq_ok, pure_eq_ok, exists_and_left, eq_comm (b := model)]

/-- A node is described inline exactly when it is described on its own. -/
theorem exists_toProperty {model : Model} (h : m.toModel = .ok model) :
    m.toProperty = .ok (model.inline m.isRequired m.extras.sample m.validation) := by
  rw [toProperty_eq_map_toModel, h]
  rfl

/-! ## Definitions -/

/-- The definition of a node under a name. -/
def definition (e : String × Mapping) : Except SchemaError (String × Model) := do
  let model ← e.2.toModel
  return (e.1, model)

theorem ownDefinition_eq (m : Mapping) : m.ownDefinition = m.named.mapM definition := by
  cases h : m.refName with
  | none => rw [ownDefinition, h, named_of_unnamed h]; rfl
  | some name =>
    rw [ownDefinition, h, named_of_refName h, List.mapM_cons, definition]
    cases m.toModel <;> rfl

theorem fieldDefinitions_eq (h : ∀ f ∈ fields, f.2.definitions = f.2.namedNodes.mapM definition) :
    fieldDefinitions fields = (fields.flatMap fun f => f.2.namedNodes).mapM definition := by
  induction fields with
  | nil => rfl
  | cons f fields ih =>
    rw [fieldDefinitions, h f List.mem_cons_self, ih fun g hg => h g (List.mem_cons_of_mem _ hg),
      List.flatMap_cons, List.mapM_append]

/-- The definitions of a tree are those of its named nodes, in order. -/
theorem definitions_eq (m : Mapping) : m.definitions = m.namedNodes.mapM definition := by
  induction m with
  | scalar type t =>
    rw [definitions, ownDefinition_eq, namedNodes_eq, namedBelow_scalar, List.append_nil]
  | list element t ih =>
    rw [namedNodes_eq, namedBelow_list, List.mapM_append, definitions, ownDefinition_eq, ih]
  | object fields t ih =>
    rw [namedNodes_eq, namedBelow_object, List.mapM_append, definitions, ownDefinition_eq,
      fieldDefinitions_eq ih]

theorem definitions_eq_ok {ds : List (String × Model)} :
    m.definitions = .ok ds ↔
      Entries.Agree (fun n model => n.toModel = .ok model) m.namedNodes ds := by
  rw [definitions_eq]
  exact mapM_values_eq_ok

end Mapping

end FieldSchema
