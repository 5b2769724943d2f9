import FieldSchema.Proofs.Expansion
import FieldSchema.Proofs.Resolution

/-!
# Naming nodes does not change what is described

* `Mapping.withoutNames`: a tree without the names of its nodes.
* `Mapping.exists_unfolds`: without a conflict among the definitions of a tree, the description of
  each node unfolds to that of the node without names. The induction is on the node; a pointer is
  followed to the node it stands for, not into the definition it leads to, so nothing has to be
  known about circles among definitions.
* `Mapping.unfolded_same_withoutNames`: the model of a tree unfolds to the model of the tree without
  names.

A definition has neither keywords nor an example of a single value. So a named single value must not
have any (`Mapping.NamedScalarsArePlain`), or naming it would lose them.
-/

namespace FieldSchema

/-- The traits without a name. -/
def Traits.withoutName (t : Traits) : Traits :=
  { t with extras := { t.extras with refName := none } }

namespace Mapping

/-! ## Trees without names -/

mutual

/-- The tree without any name of a node. -/
def withoutNames : Mapping → Mapping
  | .scalar type t => .scalar type t.withoutName
  | .list element t => .list (withoutNames element) t.withoutName
  | .object fields t => .object (fieldsWithoutNames fields) t.withoutName

/-- Fields without any name of a node. -/
def fieldsWithoutNames : List (String × Mapping) → List (String × Mapping)
  | [] => []
  | (name, m) :: rest => (name, withoutNames m) :: fieldsWithoutNames rest

end

variable {m n : Mapping} {ds : List (String × Model)} {model : Model} {p : Property} {name : String}

theorem fieldsWithoutNames_eq (fields : List (String × Mapping)) :
    fieldsWithoutNames fields = fields.map fun f => (f.1, f.2.withoutNames) := by
  induction fields with
  | nil => rfl
  | cons f fields ih => rw [fieldsWithoutNames, ih, List.map_cons]

theorem traits_withoutNames (m : Mapping) : m.withoutNames.traits = m.traits.withoutName := by
  cases m <;> rw [withoutNames] <;> rfl

theorem refName_withoutNames (m : Mapping) : m.withoutNames.refName = none := by
  rw [refName, traits_withoutNames]
  rfl

theorem isRequired_withoutNames (m : Mapping) : m.withoutNames.isRequired = m.isRequired := by
  rw [isRequired, traits_withoutNames]
  rfl

theorem sample_withoutNames (m : Mapping) : m.withoutNames.extras.sample = m.extras.sample := by
  rw [extras, traits_withoutNames]
  rfl

theorem validation_withoutNames (m : Mapping) : m.withoutNames.validation = m.validation := by
  rw [validation, constraints, traits_withoutNames]
  rfl

theorem format_withoutName (type : ScalarType) (t : Traits) :
    (scalar type t.withoutName).format = (scalar type t).format := by
  cases type <;> rfl

theorem requiredNames_withoutNames (fields : List (String × Mapping)) :
    requiredNames (fieldsWithoutNames fields) = requiredNames fields := by
  rw [requiredNames, requiredNames, fieldsWithoutNames_eq, List.filter_map, List.map_map]
  simp only [Function.comp_def, isRequired_withoutNames]

/-- Without names, every node is described inline. -/
theorem nestedProperty_withoutNames (m : Mapping) :
    m.withoutNames.nestedProperty = m.withoutNames.toProperty :=
  nestedProperty_of_unnamed (refName_withoutNames m)

/-- No named single value has keywords or an example. -/
def NamedScalarsArePlain (m : Mapping) : Prop :=
  ∀ n ∈ m.nodes, n.refName ≠ none → n.isPrimitive false →
    n.validation = {} ∧ n.extras.sample = none

instance (m : Mapping) : Decidable m.NamedScalarsArePlain :=
  inferInstanceAs (Decidable (∀ n ∈ m.nodes, _))

/-- The definition of a named node says all that the inline description of the node says. -/
theorem inline_eq_of_named (hs : m.NamedScalarsArePlain) (hn : n ∈ m.nodes)
    (hname : n.refName = some name) (hmodel : n.toModel = .ok model) (required : Bool) :
    model.inline required n.extras.sample n.validation = model.inline required none {} := by
  cases n with
  | scalar type t =>
    have hnamed : (scalar type t).refName ≠ none := hname ▸ Option.some_ne_none name
    obtain ⟨hvalidation, hsample⟩ := hs _ hn hnamed rfl
    rw [hvalidation, hsample]
  | list element t =>
    obtain ⟨items, -, hmodel⟩ := bind_eq_ok.mp hmodel
    cases hmodel
    rfl
  | object fields t =>
    obtain ⟨properties, -, hmodel⟩ := bind_eq_ok.mp hmodel
    cases hmodel
    rfl

/-! ## Unfolding -/

/-- Merged definitions are the same as themselves. -/
theorem same_self_of_merged (hb : m.BoundsAreNumbers) (h : m.definitions = .ok ds) :
    ∀ e ∈ (Definitions.assemble ds).entries, e.2.same e.2 := by
  intro e he
  obtain ⟨n, hn, hmodel⟩ :=
    (definitions_eq_ok.mp h).exists_left (Definitions.mem_of_mem_assemble he)
  exact same_self_of_toModel (hb.of_mem (mem_namedNodes.mp hn).1) hmodel

/-- What is kept under the name of a node compares the same as the model of the node. -/
theorem exists_same_kept_of_named (hb : m.BoundsAreNumbers) (h : m.definitions = .ok ds)
    (hc : (Definitions.assemble ds).conflicts = 0) (hn : n ∈ m.nodes)
    (hname : n.refName = some name) :
    ∃ model kept, n.toModel = .ok model ∧
      (Definitions.assemble ds).entries.find? name = some kept ∧ kept.same model := by
  obtain ⟨model, kept, hmodel, hkept, hsame⟩ := exists_kept_of_named h hc hn hname
  refine ⟨model, kept, hmodel, hkept, ?_⟩
  rcases hsame with rfl | hsame
  · exact same_self_of_toModel (hb.of_mem hn) hmodel
  · exact hsame

/-- In a nested place, a named node takes one round more: from the pointer to the definition. -/
theorem exists_unfolds_nested (hb : m.BoundsAreNumbers) (hs : m.NamedScalarsArePlain)
    (h : m.definitions = .ok ds) (hc : (Definitions.assemble ds).conflicts = 0) (hn : n ∈ m.nodes)
    (ih : ∀ p, n.toProperty = .ok p → ∃ q rounds, n.withoutNames.toProperty = .ok q ∧
      p.Unfolds (Definitions.assemble ds) rounds q)
    (hp : n.nestedProperty = .ok p) :
    ∃ q, n.withoutNames.nestedProperty = .ok q ∧
      ∃ rounds, p.Unfolds (Definitions.assemble ds) rounds q := by
  rw [nestedProperty_withoutNames]
  rcases nestedProperty_eq_ok.mp hp with ⟨name, hname, rfl⟩ | ⟨-, hp⟩
  · obtain ⟨model, kept, hmodel, hkept, hsame⟩ := exists_same_kept_of_named hb h hc hn hname
    obtain ⟨q, rounds, hq, hunfolds⟩ := ih _ (exists_toProperty hmodel)
    refine ⟨q, hq, rounds + 1, .ref (by rw [simpleRef_definitionRef]; exact hkept) ?_⟩
    rw [inline_eq_of_named hs hn hname hmodel] at hunfolds
    -- the kept definition may be that of another node of the name, so it only compares the same
    refine .of_same (same_self_of_merged hb h) ?_ hunfolds
    rw [Model.same_inline n.isRequired none Validation.same_empty]
    exact hsame
  · obtain ⟨q, rounds, hq, hunfolds⟩ := ih p hp
    exact ⟨q, hq, rounds, hunfolds⟩

/-- The description of a node of a tree unfolds to that of the node without names. -/
theorem exists_unfolds (hb : m.BoundsAreNumbers) (hs : m.NamedScalarsArePlain)
    (h : m.definitions = .ok ds) (hc : (Definitions.assemble ds).conflicts = 0) (hn : n ∈ m.nodes)
    (hp : n.toProperty = .ok p) :
    ∃ q rounds, n.withoutNames.toProperty = .ok q ∧
      p.Unfolds (Definitions.assemble ds) rounds q := by
  induction n generalizing p with
  | scalar type t =>
    obtain ⟨typeName, format, htype, hformat, rfl⟩ := toProperty_scalar_eq_ok.mp hp
    rw [← format_withoutName] at hformat
    refine ⟨_, 0, toProperty_scalar_eq_ok.mpr ⟨typeName, format, htype, hformat, rfl⟩, rfl, ?_⟩
    exact same_self_of_toProperty (hb.of_mem hn) hp
  | list element t ih =>
    obtain ⟨items, hitems, rfl⟩ := toProperty_list_eq_ok.mp hp
    have hn' : element ∈ m.nodes := mem_nodes_trans (element_mem_nodes element t) hn
    obtain ⟨items', hitems', rounds, hunfolds⟩ :=
      exists_unfolds_nested hb hs h hc hn' (fun p => ih hn') hitems
    exact ⟨_, rounds, toProperty_list_eq_ok.mpr ⟨items', hitems', rfl⟩, .array hunfolds⟩
  | object fields t ih =>
    obtain ⟨ps, hps, rfl⟩ := toProperty_object_eq_ok.mp hp
    have hfield : ∀ key f p, (key, f) ∈ fields → f.nestedProperty = .ok p →
        ∃ q, f.withoutNames.nestedProperty = .ok q ∧
          ∃ rounds, p.Unfolds (Definitions.assemble ds) rounds q := by
      intro key f p hf hfp
      have hn' : f ∈ m.nodes := mem_nodes_trans (field_mem_nodes hf t) hn
      exact exists_unfolds_nested hb hs h hc hn' (fun p => ih _ hf hn') hfp
    -- field by field, before a repeated name is overwritten, which happens alike on both sides
    obtain ⟨qs, hqs, hpq⟩ := hps.exists_agree hfield
    obtain ⟨rounds, hunfolds⟩ := Property.Unfolds.exists_rounds hpq
    have hwithout : Entries.Agree (fun f q => f.nestedProperty = .ok q) (fieldsWithoutNames fields)
        qs := by
      rw [fieldsWithoutNames_eq]
      exact List.forall₂_map_left_iff.mpr hqs
    refine ⟨_, rounds, toProperty_object_eq_ok.mpr ⟨qs, hwithout, rfl⟩, ?_⟩
    rw [requiredNames_withoutNames]
    exact .object hunfolds.ofList (Entries.keys_nodup_ofList qs)

/-- **Naming nodes does not change what is described.** Take a tree without bounds that are no
numbers, whose named single values are plain, and whose definitions merge without a conflict. Then
the tree without names has a model. After some rounds, no pointer is left in the model of the tree,
and it compares the same as the model without names. -/
theorem unfolded_same_withoutNames (hb : m.BoundsAreNumbers) (hs : m.NamedScalarsArePlain)
    (hmodel : m.toModel = .ok model) (h : m.definitions = .ok ds)
    (hc : (Definitions.assemble ds).conflicts = 0) :
    ∃ plain unfolded, m.withoutNames.toModel = .ok plain ∧
      (∃ rounds, ∀ k ≥ rounds, (Model.expand (Definitions.assemble ds))^[k] model = unfolded) ∧
      unfolded.pointers = [] ∧ unfolded.same plain := by
  obtain ⟨q, rounds, hq, hunfolds⟩ :=
    exists_unfolds hb hs h hc (self_mem_nodes m) (exists_toProperty hmodel)
  rw [toProperty_eq_map_toModel, isRequired_withoutNames, sample_withoutNames,
    validation_withoutNames] at hq
  obtain ⟨plain, hplain, rfl⟩ := map_eq_ok.mp hq
  refine ⟨plain, (Model.expand (Definitions.assemble ds))^[rounds] model, hplain,
    ⟨rounds, fun k hk => ?_⟩, ?_, ?_⟩
  · have heq := Property.iterate_expand_of_le hunfolds.pointers_nil hk
    rw [Model.iterate_expand_inline, Model.iterate_expand_inline] at heq
    exact Model.inline_injective heq
  · have hnil := hunfolds.pointers_nil
    rwa [Model.iterate_expand_inline, Model.pointers_inline] at hnil
  · have hsame := hunfolds.same
    rwa [Model.iterate_expand_inline, Model.same_inline _ _ hb.validation_same] at hsame

theorem unfolded_same_withoutNames_order :
    ∃ model ds plain unfolded, order.toModel = .ok model ∧ order.definitions = .ok ds ∧
      model.pointers ≠ [] ∧ order.withoutNames.toModel = .ok plain ∧
      (∃ rounds, ∀ k ≥ rounds, (Model.expand (Definitions.assemble ds))^[k] model = unfolded) ∧
      unfolded.pointers = [] ∧ unfolded.same plain := by
  have hb : order.BoundsAreNumbers := by decide
  have hs : order.NamedScalarsArePlain := by decide
  obtain ⟨plain, unfolded, hunfolded⟩ := unfolded_same_withoutNames hb hs rfl rfl rfl
  exact ⟨_, _, plain, unfolded, rfl, rfl, List.cons_ne_nil _ _, hunfolded⟩

end Mapping

end FieldSchema
