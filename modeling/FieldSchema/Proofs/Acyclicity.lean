import FieldSchema.Proofs.Comparison
import FieldSchema.Proofs.Resolution
import Mathlib.Logic.Relation

/-!
# Consistent names make no circles

Without a conflict, every node of a name has the pointers of the definition kept under that name
(`Mapping.exists_node_of_pointsTo`). So where the definition of a name points to another, each node
of the first name has a node of the second strictly below it, and a circle of definitions would
put a smaller and smaller node of one name below each node of that name
(`Mapping.not_named_of_circle`).

The main result is `Mapping.merged_acyclic`. A name may stand below itself all the same: see
`Mapping.merged_acyclic_nested`.
-/

namespace FieldSchema

open Relation (TransGen)

/-- The definition kept under one name points to the other, at any depth. -/
def Definitions.PointsTo (d : Definitions) (a b : String) : Prop :=
  ∃ model, d.entries.find? a = some model ∧ ∃ pointer ∈ model.pointers, simpleRef pointer = b

namespace Mapping

variable {m n : Mapping} {ds : List (String × Model)} {a b : String}

/-- A step between definitions goes down in the tree, from each node of the first name. -/
theorem exists_node_of_pointsTo (h : m.definitions = .ok ds)
    (hc : (Definitions.assemble ds).conflicts = 0) (hab : (Definitions.assemble ds).PointsTo a b)
    (hn : n ∈ m.nodes) (ha : n.refName = some a) : ∃ k ∈ n.nodesBelow, k.refName = some b := by
  obtain ⟨kept, hkept, pointer, hpointer, rfl⟩ := hab
  obtain ⟨model, kept', hmodel, hkept', hsame⟩ := exists_kept_of_named h hc hn ha
  cases Option.some.inj (hkept.symm.trans hkept')
  have hmem : pointer ∈ model.pointers := by
    rcases hsame with rfl | hsame
    · exact hpointer
    · exact Model.pointers_subset hsame hpointer
  obtain ⟨c, hcut, rfl⟩ := exists_cut_of_model_pointer hmodel hmem
  obtain ⟨hbelow, hname⟩ := mem_namedBelow.mp (mem_namedBelow_of_mem_cuts hcut)
  exact ⟨c.2, hbelow, by rw [simpleRef_definitionRef]; exact hname⟩

/-- So does a path. -/
theorem exists_node_of_path (h : m.definitions = .ok ds)
    (hc : (Definitions.assemble ds).conflicts = 0)
    (hab : TransGen (Definitions.assemble ds).PointsTo a b) (hn : n ∈ m.nodes)
    (ha : n.refName = some a) : ∃ k ∈ n.nodesBelow, k.refName = some b := by
  induction hab with
  | single hab => exact exists_node_of_pointsTo h hc hab hn ha
  | tail _ hstep ih =>
    obtain ⟨k, hk, hkname⟩ := ih
    have hkm : k ∈ m.nodes := mem_nodes_trans (mem_nodes_of_nodesBelow hk) hn
    obtain ⟨l, hl, hlname⟩ := exists_node_of_pointsTo h hc hstep hkm hkname
    exact ⟨l, mem_nodesBelow_trans hl hk, hlname⟩

/-- No node has a name on a circle: the least such node would have a smaller one below. -/
theorem not_named_of_circle (h : m.definitions = .ok ds)
    (hc : (Definitions.assemble ds).conflicts = 0)
    (haa : TransGen (Definitions.assemble ds).PointsTo a a) (hn : n ∈ m.nodes) :
    n.refName ≠ some a := by
  intro ha
  -- on the size of the tree of the node: once around the circle leads to a smaller one
  induction hsize : n.nodes.length using Nat.strongRecOn generalizing n with
  | ind size ih =>
    obtain ⟨k, hk, hkname⟩ := exists_node_of_path h hc haa hn ha
    have hkm : k ∈ m.nodes := mem_nodes_trans (mem_nodes_of_nodesBelow hk) hn
    exact ih _ (hsize ▸ length_nodes_lt hk) hkm hkname rfl

/-- A definition that points somewhere is that of a node. -/
theorem exists_node_of_kept (h : m.definitions = .ok ds)
    (hab : (Definitions.assemble ds).PointsTo a b) : ∃ n ∈ m.nodes, n.refName = some a := by
  obtain ⟨model, hmodel, -⟩ := hab
  rw [Definitions.find?_assemble] at hmodel
  obtain ⟨n, hn, -⟩ := (definitions_eq_ok.mp h).exists_left (Entries.mem_of_find? hmodel)
  exact ⟨n, mem_namedNodes.mp hn⟩

/-- **Consistent names make no circles.** If merging the definitions of a tree meets no conflict, no
merged definition leads back to itself, over however many pointers. -/
theorem merged_acyclic (h : m.definitions = .ok ds) (hc : (Definitions.assemble ds).conflicts = 0)
    (name : String) : ¬ TransGen (Definitions.assemble ds).PointsTo name name := by
  intro hcircle
  obtain ⟨_, hstep, -⟩ := Relation.TransGen.head'_iff.mp hcircle
  obtain ⟨n, hn, hname⟩ := exists_node_of_kept h hstep
  exact not_named_of_circle h hc hcircle hn hname

/-- A tag below a tag, which the field that follows it overwrites. -/
def nestedTag : Mapping :=
  let tag := (objectOf [("id", int)]).withName "Tag"
  let outer := (objectOf [("id", tag), ("id", int)]).withName "Tag"
  (objectOf [("tags", listOf outer)]).withName "Holder"

theorem merged_acyclic_nested :
    ∃ ds, nestedTag.definitions = .ok ds ∧ Entries.keys ds = ["Holder", "Tag", "Tag"] ∧
      (Definitions.assemble ds).PointsTo "Holder" "Tag" ∧
      ¬ TransGen (Definitions.assemble ds).PointsTo "Tag" "Tag" := by
  have hacyclic := merged_acyclic (m := nestedTag) rfl rfl "Tag"
  refine ⟨_, rfl, rfl, ⟨_, rfl, definitionRef "Tag", ?_, simpleRef_definitionRef "Tag"⟩, hacyclic⟩
  exact List.mem_singleton_self _

end Mapping

end FieldSchema
