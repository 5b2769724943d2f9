import FieldSchema.Proofs.Conversion

/-!
# Pointers in descriptions

* `Property.pointers`, `Model.pointers`: the pointers of a description at any depth, one for each
  occurrence.
* `Mapping.exists_cut_of_pointer`: a pointer in the description of a node leads to the name of a cut
  of that node, where the description ends. Where field names are distinct, the pointers are
  exactly those of the cuts (`Mapping.pointers_eq_cuts`).
* `Mapping.pointers_perm_names`: references are conserved. Together, the root and the definitions
  below it point to each name as often as a node below the root has it.
-/

namespace FieldSchema

/-! ## Pointers -/

namespace Property

mutual

/-- The pointers in a property. -/
def pointers : Property → List String
  | .ref pointer _ => [pointer]
  | .array items _ _ => pointers items
  | .object _ properties _ _ => entryPointers properties
  | .scalar _ => []

/-- The pointers in named properties. -/
def entryPointers : List (String × Property) → List String
  | [] => []
  | (_, p) :: rest => pointers p ++ entryPointers rest

end

theorem entryPointers_eq (es : List (String × Property)) :
    entryPointers es = es.flatMap fun e => e.2.pointers := by
  induction es with
  | nil => rfl
  | cons e es ih => rw [entryPointers, ih, List.flatMap_cons]

theorem mem_pointers_object {names : List String} {es : List (String × Property)}
    {description : Option String} {required : Bool} {pointer : String} :
    pointer ∈ (object names es description required).pointers ↔
      ∃ e ∈ es, pointer ∈ e.2.pointers := by
  rw [pointers, entryPointers_eq, List.mem_flatMap]

end Property

/-- The pointers in a model. -/
def Model.pointers : Model → List String
  | .object _ properties _ => Property.entryPointers properties
  | .array items _ => items.pointers
  | .primitive .. => []

theorem Model.pointers_inline (model : Model) (required : Bool) (sample : Option String)
    (validation : Validation) :
    (model.inline required sample validation).pointers = model.pointers := by
  cases model <;> rfl

namespace Mapping

variable {m : Mapping} {p : Property} {pointer : String}

/-! ## Pointers and cuts -/

theorem exists_nestedCut_of_pointer
    (ih : ∀ p, m.toProperty = .ok p → pointer ∈ p.pointers →
      ∃ c ∈ m.cuts, pointer = definitionRef c.1)
    (h : m.nestedProperty = .ok p) (hp : pointer ∈ p.pointers) :
    ∃ c ∈ m.nestedCuts, pointer = definitionRef c.1 := by
  rcases nestedProperty_eq_ok.mp h with ⟨name, hm, rfl⟩ | ⟨hm, h⟩
  · rw [nestedCuts_of_refName hm]
    exact ⟨(name, m), List.mem_singleton_self _, List.mem_singleton.mp hp⟩
  · rw [nestedCuts_of_unnamed hm]
    exact ih p h hp

/-- A pointer in the description of a node is that of a cut of the node. -/
theorem exists_cut_of_pointer (h : m.toProperty = .ok p) (hp : pointer ∈ p.pointers) :
    ∃ c ∈ m.cuts, pointer = definitionRef c.1 := by
  induction m generalizing p with
  | scalar type t =>
    obtain ⟨_, _, -, -, rfl⟩ := toProperty_scalar_eq_ok.mp h
    cases hp
  | list element t ih =>
    obtain ⟨items, hitems, rfl⟩ := toProperty_list_eq_ok.mp h
    rw [cuts_list]
    exact exists_nestedCut_of_pointer (fun p hp' => ih hp') hitems hp
  | object fields t ih =>
    obtain ⟨ps, hps, rfl⟩ := toProperty_object_eq_ok.mp h
    obtain ⟨e, he, hpe⟩ := Property.mem_pointers_object.mp hp
    obtain ⟨n, hn, hne⟩ := hps.exists_left (Entries.mem_of_mem_ofList he)
    obtain ⟨c, hc, hpc⟩ := exists_nestedCut_of_pointer (fun p hp' => ih _ hn hp') hne hpe
    rw [cuts_object]
    exact ⟨c, List.mem_flatMap.mpr ⟨_, hn, hc⟩, hpc⟩

/-- The names of the fields of each object of a tree are distinct. -/
def DistinctFields (m : Mapping) : Prop :=
  ∀ n ∈ m.nodes, ∀ fields ∈ n.fields?, (Entries.keys fields).Nodup

instance (m : Mapping) : Decidable m.DistinctFields :=
  inferInstanceAs (Decidable (∀ n ∈ m.nodes, _))

theorem DistinctFields.of_mem {n : Mapping} (h : m.DistinctFields) (hn : n ∈ m.nodes) :
    n.DistinctFields :=
  fun k hk => h k (mem_nodes_trans hk hn)

theorem pointers_eq_nestedCuts
    (ih : ∀ p, m.toProperty = .ok p → p.pointers = m.cuts.map fun c => definitionRef c.1)
    (h : m.nestedProperty = .ok p) : p.pointers = m.nestedCuts.map fun c => definitionRef c.1 := by
  rcases nestedProperty_eq_ok.mp h with ⟨name, hm, rfl⟩ | ⟨hm, h⟩
  · rw [nestedCuts_of_refName hm]
    rfl
  · rw [nestedCuts_of_unnamed hm]
    exact ih p h

/-- Where field names are distinct no description is overwritten, so each cut has its pointer. -/
theorem pointers_eq_cuts (hd : m.DistinctFields) (h : m.toProperty = .ok p) :
    p.pointers = m.cuts.map fun c => definitionRef c.1 := by
  induction m generalizing p with
  | scalar type t =>
    obtain ⟨_, _, -, -, rfl⟩ := toProperty_scalar_eq_ok.mp h
    rfl
  | list element t ih =>
    obtain ⟨items, hitems, rfl⟩ := toProperty_list_eq_ok.mp h
    have hd' := hd.of_mem (element_mem_nodes element t)
    rw [Property.pointers, cuts_list]
    exact pointers_eq_nestedCuts (fun p hp => ih hd' hp) hitems
  | object fields t ih =>
    obtain ⟨ps, hps, rfl⟩ := toProperty_object_eq_ok.mp h
    have hnodup : (Entries.keys ps).Nodup :=
      hps.keys_eq ▸ hd _ (self_mem_nodes _) fields rfl
    rw [Entries.ofList_of_nodup hnodup, Property.pointers, Property.entryPointers_eq, cuts_object,
      List.map_flatMap]
    symm
    refine hps.flatMap_eq (f := fun n => n.nestedCuts.map fun c => definitionRef c.1)
      fun name n q hn hq => ?_
    have hd' := hd.of_mem (field_mem_nodes hn t)
    exact (pointers_eq_nestedCuts (fun p hp => ih _ hn hd' hp) hq).symm

theorem exists_cut_of_model_pointer {model : Model} (h : m.toModel = .ok model)
    (hp : pointer ∈ model.pointers) : ∃ c ∈ m.cuts, pointer = definitionRef c.1 := by
  apply exists_cut_of_pointer (exists_toProperty h)
  rwa [Model.pointers_inline]

theorem model_pointers_eq_cuts {model : Model} (hd : m.DistinctFields) (h : m.toModel = .ok model) :
    model.pointers = m.cuts.map fun c => definitionRef c.1 := by
  rw [← pointers_eq_cuts hd (exists_toProperty h), Model.pointers_inline]

/-! ## References are conserved -/

/-- The models of named nodes point to the cuts of these nodes. -/
theorem flatMap_pointers_eq {ns : List (String × Mapping)} {ds : List (String × Model)}
    (hd : ∀ e ∈ ns, e.2.DistinctFields)
    (h : Entries.Agree (fun n model => n.toModel = .ok model) ns ds) :
    (ds.flatMap fun e => e.2.pointers) =
      (ns.flatMap fun e => e.2.cuts).map fun c => definitionRef c.1 := by
  rw [List.map_flatMap]
  symm
  refine h.flatMap_eq (f := fun n => n.cuts.map fun c => definitionRef c.1)
    fun name n model hn hmodel => ?_
  exact (model_pointers_eq_cuts (hd _ hn) hmodel).symm

/-- The definitions of a tree are that of its root, if it is named, and those of the named nodes
below. -/
theorem exists_definitions_below {model : Model} {ds : List (String × Model)}
    (hmodel : m.toModel = .ok model) (h : m.definitions = .ok ds) :
    ∃ below, ds = m.refName.toList.map (·, model) ++ below ∧
      Entries.Agree (fun n model => n.toModel = .ok model) m.namedBelow below := by
  rw [definitions_eq, namedNodes_eq, List.mapM_append] at h
  simp only [bind_eq_ok, pure_eq_ok] at h
  obtain ⟨own, hown, below, hbelow, rfl⟩ := h
  refine ⟨below, ?_, mapM_values_eq_ok.mp hbelow⟩
  rw [← ownDefinition_eq, ownDefinition] at hown
  cases hm : m.refName with
  | some name => rw [hm, hmodel] at hown; cases hown; rfl
  | none => rw [hm] at hown; cases hown; rfl

/-- **References are conserved.** Where field names are distinct, the root and the definitions below
it together point to each name exactly as often as it names a definition below the root. -/
theorem pointers_perm_names {model : Model} {ds : List (String × Model)} (hd : m.DistinctFields)
    (hmodel : m.toModel = .ok model) (h : m.definitions = .ok ds) :
    ∃ below, ds = m.refName.toList.map (·, model) ++ below ∧
      ((model.pointers ++ below.flatMap fun e => e.2.pointers).map simpleRef).Perm
        (Entries.keys below) := by
  obtain ⟨below, hds, hbelow⟩ := exists_definitions_below hmodel h
  refine ⟨below, hds, ?_⟩
  have hdistinct : ∀ e ∈ m.namedBelow, e.2.DistinctFields := fun e he =>
    hd.of_mem (mem_nodes_of_nodesBelow (mem_namedBelow.mp he).1)
  have hnames (cs : List (String × Mapping)) :
      (cs.map fun c => definitionRef c.1).map simpleRef = Entries.keys cs := by
    rw [List.map_map]
    exact List.map_congr_left fun c _ => simpleRef_definitionRef c.1
  rw [model_pointers_eq_cuts hd hmodel, flatMap_pointers_eq hdistinct hbelow, ← List.map_append,
    hnames, ← hbelow.keys_eq]
  exact (cuts_perm m).map Prod.fst

theorem pointers_perm_names_order :
    ∃ model ds below, order.toModel = .ok model ∧ order.definitions = .ok ds ∧
      ds = [("Order", model)] ++ below ∧
      ((model.pointers ++ below.flatMap fun e => e.2.pointers).map simpleRef).Perm
        (Entries.keys below) := by
  have hd : order.DistinctFields := by decide
  obtain ⟨below, hds, hperm⟩ := pointers_perm_names hd rfl rfl
  exact ⟨_, _, below, rfl, rfl, hds, hperm⟩

end Mapping

end FieldSchema
