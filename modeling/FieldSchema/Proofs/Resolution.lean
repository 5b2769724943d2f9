import FieldSchema.Proofs.Merging
import FieldSchema.Proofs.Parameters
import FieldSchema.Proofs.Pointers

/-!
# Pointers lead to merged definitions

* `Parameter.pointers`: the pointers of a parameter at any depth.
* `Mapping.exists_node_of_parameter`, `Mapping.exists_description_of_parameter`: what stands in a
  parameter is the description of a node of its tree.
* `Mapping.exists_kept_of_named`: without a conflict, what is kept under the name of a node
  describes the node.
* `Mapping.merged_resolves`: no pointer dangles. The merged definitions of a tree have a definition
  for every pointer in them and in any other description of the tree.
-/

namespace FieldSchema

/-- The pointers in a parameter: those of its items, or of its schema. -/
def Parameter.pointers : Parameter → List String
  | .plain _ _ p =>
    match p.items with
    | some items => items.pointers
    | none => []
  | .body p => p.schema.pointers

/-- There is a definition for each of the pointers. -/
def Definitions.Resolves (d : Definitions) (pointers : List String) : Prop :=
  ∀ pointer ∈ pointers, simpleRef pointer ∈ d.entries.keys

namespace Mapping

variable {m : Mapping} {p : Property} {pointer : String}

/-! ## Parameters -/

/-- A parameter of a tree is that of one of its nodes. -/
theorem exists_node_of_parameter {settings : Settings} {name : String} {ps : List Parameter}
    {q : Parameter} (h : m.toParameters settings name = .ok ps) (hq : q ∈ ps) :
    ∃ n ∈ m.nodes, ∃ own, n.toParameter settings own = .ok q := by
  rw [toParameters_eq] at h
  obtain ⟨e, he, heq⟩ := exists_of_mem_mapM h hq
  exact ⟨e.2, mem_nodes_of_parameterNodes he, e.1, heq⟩

/-- The items of a parameter are the inline description of the element. -/
theorem items_of_toPlainParameter {settings : Settings} {name : String} {location : Location}
    {q : PlainParameter} {items : Property}
    (h : m.toPlainParameter settings name location = .ok q) (hitems : q.items = some items) :
    ∃ element t, m = .list element t ∧ element.toProperty = .ok items := by
  obtain ⟨-, items', _, _, hitems', -, -, rfl⟩ := toPlainParameter_eq_ok.mp h
  cases hitems
  rcases itemsProperty_eq_ok.mp hitems' with ⟨element, t, p, hm, hp, heq⟩ | ⟨-, heq⟩
  · cases heq
    exact ⟨element, t, hm, hp⟩
  · cases heq

/-- A pointer in a parameter is one in the description of a node of its tree. -/
theorem exists_description_of_parameter {settings : Settings} {name : String} {q : Parameter}
    (h : m.toParameter settings name = .ok q) (hp : pointer ∈ q.pointers) :
    ∃ n ∈ m.nodes, ∃ p, n.toProperty = .ok p ∧ pointer ∈ p.pointers := by
  rcases toParameter_eq_ok.mp h with ⟨-, model, hmodel, rfl⟩ | ⟨_, _, -, plain, hplain, rfl⟩
  · refine ⟨m, self_mem_nodes m, _, exists_toProperty hmodel, ?_⟩
    rwa [Model.pointers_inline]
  · rw [Parameter.pointers] at hp
    split at hp
    · rename_i items hitems
      obtain ⟨element, t, rfl, helement⟩ := items_of_toPlainParameter hplain hitems
      exact ⟨element, element_mem_nodes element t, items, helement, hp⟩
    · cases hp

/-! ## Resolution -/

/-- What is kept under the name of a node is the model of the node, or compares the same. -/
theorem exists_kept_of_named {n : Mapping} {name : String} {ds : List (String × Model)}
    (h : m.definitions = .ok ds) (hc : (Definitions.assemble ds).conflicts = 0) (hn : n ∈ m.nodes)
    (hname : n.refName = some name) :
    ∃ model kept, n.toModel = .ok model ∧
      (Definitions.assemble ds).entries.find? name = some kept ∧
      (kept = model ∨ kept.same model) := by
  have hnamed : (name, n) ∈ m.namedNodes := mem_namedNodes.mpr ⟨hn, hname⟩
  obtain ⟨model, hmem, hmodel⟩ := (definitions_eq_ok.mp h).exists_right hnamed
  obtain ⟨kept, hkept, hsame⟩ := Definitions.exists_kept hc hmem
  exact ⟨model, kept, hmodel, hkept, hsame⟩

/-- The merged definitions of a tree resolve the pointers in the description of each node. -/
theorem merged_resolves_node {n : Mapping} {ds : List (String × Model)} (h : m.definitions = .ok ds)
    (hn : n ∈ m.nodes) (hp : n.toProperty = .ok p) :
    (Definitions.assemble ds).Resolves p.pointers := by
  intro pointer hpointer
  obtain ⟨c, hc, rfl⟩ := exists_cut_of_pointer hp hpointer
  obtain ⟨hbelow, hname⟩ := mem_namedBelow.mp (mem_namedBelow_of_mem_cuts hc)
  have hmem : c ∈ m.namedNodes :=
    mem_namedNodes.mpr ⟨mem_nodes_trans (mem_nodes_of_nodesBelow hbelow) hn, hname⟩
  rw [simpleRef_definitionRef, Definitions.mem_keys_assemble, ← (definitions_eq_ok.mp h).keys_eq]
  exact Entries.mem_keys_of_mem hmem

theorem merged_resolves_model {n : Mapping} {ds : List (String × Model)} {model : Model}
    (h : m.definitions = .ok ds) (hn : n ∈ m.nodes) (hmodel : n.toModel = .ok model) :
    (Definitions.assemble ds).Resolves model.pointers := by
  rw [← Model.pointers_inline model n.isRequired n.extras.sample n.validation]
  exact merged_resolves_node h hn (exists_toProperty hmodel)

/-- **No pointer dangles.** If the definitions of a tree can be made, the merged ones have a
definition for every pointer, at any depth, in one of them, in the description of the tree, inline
or on its own, and in a parameter made from it. -/
theorem merged_resolves {ds : List (String × Model)} (h : m.definitions = .ok ds) :
    (∀ e ∈ (Definitions.assemble ds).entries, (Definitions.assemble ds).Resolves e.2.pointers) ∧
    (∀ p, m.toProperty = .ok p → (Definitions.assemble ds).Resolves p.pointers) ∧
    (∀ model, m.toModel = .ok model → (Definitions.assemble ds).Resolves model.pointers) ∧
    ∀ settings name ps, m.toParameters settings name = .ok ps →
      ∀ q ∈ ps, (Definitions.assemble ds).Resolves q.pointers := by
  refine ⟨fun e he => ?_, fun p hp => merged_resolves_node h (self_mem_nodes m) hp,
    fun model hmodel => merged_resolves_model h (self_mem_nodes m) hmodel,
    fun settings name ps hps q hq pointer hpointer => ?_⟩
  · obtain ⟨n, hn, hmodel⟩ :=
      (definitions_eq_ok.mp h).exists_left (Definitions.mem_of_mem_assemble he)
    exact merged_resolves_model h (mem_namedNodes.mp hn).1 hmodel
  · obtain ⟨n, hn, own, hown⟩ := exists_node_of_parameter hps hq
    obtain ⟨k, hk, p, hp, hpk⟩ := exists_description_of_parameter hown hpointer
    exact merged_resolves_node h (mem_nodes_trans hk hn) hp pointer hpk

theorem merged_resolves_order :
    ∃ ds model, order.definitions = .ok ds ∧ order.toModel = .ok model ∧
      model.pointers = [definitionRef "Person", definitionRef "Person", definitionRef "Address"] ∧
      (Definitions.assemble ds).Resolves model.pointers := by
  obtain ⟨-, -, hmodel, -⟩ := merged_resolves (m := order) rfl
  exact ⟨_, _, rfl, rfl, rfl, hmodel _ rfl⟩

end Mapping

end FieldSchema
