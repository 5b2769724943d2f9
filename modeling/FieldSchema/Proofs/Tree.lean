import FieldSchema.Mapping.Basic
import Mathlib.Data.List.Perm.Basic

/-!
# Nodes and named nodes of a tree

* `Mapping.ind`: induction on a tree; the hypothesis for an object holds for each of its fields.
  `Mapping.decideEq`: equality of trees is decidable.
* `Mapping.nodesBelow`: the nodes strictly below a node. `Mapping.length_nodes_lt` says that a node
  below another has a smaller tree.
* `Mapping.namedNodes`, `Mapping.namedBelow`: the named nodes of a tree, with their names.
* `Mapping.cuts`: the named nodes at which the description of a node ends, because no named node
  stands between. `Mapping.cuts_perm` says that each named node below the root is cut out exactly
  once, by the nearest named node above it or by the root.
* `Mapping.order`: a tree to try statements about names on.
-/

namespace FieldSchema

namespace Mapping

/-- Induction on trees. -/
@[elab_as_elim, induction_eliminator]
theorem ind {motive : Mapping → Prop} (scalar : ∀ type t, motive (.scalar type t))
    (list : ∀ element t, motive element → motive (.list element t))
    (object : ∀ fields t, (∀ f ∈ fields, motive f.2) → motive (.object fields t)) :
    ∀ m, motive m
  | .scalar type t => scalar type t
  | .list element t => list element t (ind scalar list object element)
  | .object fields t => object fields t fun f _ => ind scalar list object f.2
termination_by m => m
decreasing_by
  · simp only [Mapping.list.sizeOf_spec]
    omega
  · rename_i hf
    have hlt := List.sizeOf_lt_of_mem hf
    obtain ⟨name, m⟩ := f
    simp only [Prod.mk.sizeOf_spec, Mapping.object.sizeOf_spec] at hlt ⊢
    omega

mutual

/-- Whether two trees are equal, shape by shape. -/
def decideEq : (a b : Mapping) → Decidable (a = b)
  | .scalar a t, .scalar b u => decidable_of_iff (a = b ∧ t = u) (by rw [scalar.injEq])
  | .list a t, .list b u =>
    have := decideEq a b
    decidable_of_iff (a = b ∧ t = u) (by rw [list.injEq])
  | .object fs t, .object gs u =>
    have := decideFieldsEq fs gs
    decidable_of_iff (fs = gs ∧ t = u) (by rw [object.injEq])
  | .scalar .., .list .. | .scalar .., .object .. | .list .., .scalar .. | .list .., .object ..
  | .object .., .scalar .. | .object .., .list .. => isFalse nofun

/-- Whether two lists of fields are equal. -/
def decideFieldsEq : (fs gs : List (String × Mapping)) → Decidable (fs = gs)
  | [], [] => isTrue rfl
  | (name, a) :: fs, (other, b) :: gs =>
    have := decideEq a b
    have := decideFieldsEq fs gs
    decidable_of_iff ((name = other ∧ a = b) ∧ fs = gs) (by rw [List.cons.injEq, Prod.mk.injEq])
  | [], _ :: _ | _ :: _, [] => isFalse nofun

end

instance : DecidableEq Mapping := decideEq

/-! ## Nodes -/

/-- The nodes strictly below a node, in the order of `nodes`. -/
def nodesBelow : Mapping → List Mapping
  | .scalar .. => []
  | .list element _ => element.nodes
  | .object fields _ => fields.flatMap fun f => f.2.nodes

theorem fieldNodes_eq (fields : List (String × Mapping)) :
    fieldNodes fields = fields.flatMap fun f => f.2.nodes := by
  induction fields with
  | nil => rfl
  | cons f fields ih => rw [fieldNodes, ih, List.flatMap_cons]

theorem nodes_eq (m : Mapping) : m.nodes = m :: m.nodesBelow := by
  cases m with
  | scalar type t => rfl
  | list element t => rfl
  | object fields t => rw [nodes, fieldNodes_eq, nodesBelow]

theorem mem_nodes {n m : Mapping} : n ∈ m.nodes ↔ n = m ∨ n ∈ m.nodesBelow := by
  rw [nodes_eq, List.mem_cons]

theorem self_mem_nodes (m : Mapping) : m ∈ m.nodes := mem_nodes.mpr (.inl rfl)

theorem mem_nodes_of_nodesBelow {n m : Mapping} (h : n ∈ m.nodesBelow) : n ∈ m.nodes :=
  mem_nodes.mpr (.inr h)

theorem mem_nodesBelow_object {n : Mapping} {fields : List (String × Mapping)} {t : Traits} :
    n ∈ (object fields t).nodesBelow ↔ ∃ f ∈ fields, n ∈ f.2.nodes :=
  List.mem_flatMap

/-- A node below a field is a node of the object. -/
theorem mem_nodes_of_field {n : Mapping} {fields : List (String × Mapping)} {t : Traits}
    {f : String × Mapping} (hf : f ∈ fields) (h : n ∈ f.2.nodes) : n ∈ (object fields t).nodes :=
  mem_nodes_of_nodesBelow (mem_nodesBelow_object.mpr ⟨f, hf, h⟩)

theorem mem_nodes_of_element {n element : Mapping} {t : Traits} (h : n ∈ element.nodes) :
    n ∈ (list element t).nodes :=
  mem_nodes_of_nodesBelow h

theorem element_mem_nodes (element : Mapping) (t : Traits) : element ∈ (list element t).nodes :=
  mem_nodes_of_element (self_mem_nodes element)

theorem field_mem_nodes {fields : List (String × Mapping)} {f : String × Mapping}
    (hf : f ∈ fields) (t : Traits) : f.2 ∈ (object fields t).nodes :=
  mem_nodes_of_field hf (self_mem_nodes f.2)

/-- The nodes of a node of a tree are nodes of the tree. -/
theorem mem_nodes_trans {a b c : Mapping} (hab : a ∈ b.nodes) (hbc : b ∈ c.nodes) :
    a ∈ c.nodes := by
  induction c with
  | scalar type t => rw [mem_nodes.mp hbc |>.resolve_right List.not_mem_nil] at hab; exact hab
  | list element t ih =>
    rcases mem_nodes.mp hbc with rfl | hb
    · exact hab
    · exact mem_nodes_of_element (ih hb)
  | object fields t ih =>
    rcases mem_nodes.mp hbc with rfl | hb
    · exact hab
    · obtain ⟨f, hf, hb⟩ := mem_nodesBelow_object.mp hb
      exact mem_nodes_of_field hf (ih f hf hb)

theorem mem_nodesBelow_trans {a b c : Mapping} (hab : a ∈ b.nodesBelow) (hbc : b ∈ c.nodesBelow) :
    a ∈ c.nodesBelow := by
  cases c with
  | scalar type t => cases hbc
  | list element t => exact mem_nodes_trans (mem_nodes_of_nodesBelow hab) hbc
  | object fields t =>
    obtain ⟨f, hf, hb⟩ := mem_nodesBelow_object.mp hbc
    exact mem_nodesBelow_object.mpr ⟨f, hf, mem_nodes_trans (mem_nodes_of_nodesBelow hab) hb⟩

/-- A node strictly below another has a smaller tree. -/
theorem length_nodes_lt {n m : Mapping} (h : n ∈ m.nodesBelow) :
    n.nodes.length < m.nodes.length := by
  induction m with
  | scalar type t => cases h
  | list element t ih =>
    rw [nodes_eq (list element t), List.length_cons]
    rcases mem_nodes.mp h with rfl | h
    · exact Nat.lt_succ_self _
    · exact Nat.lt_succ_of_lt (ih h)
  | object fields t ih =>
    obtain ⟨f, hf, h⟩ := mem_nodesBelow_object.mp h
    have hmem : f.2.nodes ∈ fields.map fun f => f.2.nodes := List.mem_map.mpr ⟨f, hf, rfl⟩
    have hle : f.2.nodes.length ≤ (object fields t).nodesBelow.length := by
      rw [nodesBelow, List.flatMap_def]
      exact (List.sublist_flatten_of_mem hmem).length_le
    rw [nodes_eq (object fields t), List.length_cons]
    rcases mem_nodes.mp h with rfl | h
    · omega
    · have := ih f hf h
      omega

/-! ## Named nodes -/

/-- A node under its name, if it has one. -/
def named (m : Mapping) : List (String × Mapping) :=
  match m.refName with
  | some name => [(name, m)]
  | none => []

/-- The named nodes of a tree in the order of `nodes`. -/
def namedNodes (m : Mapping) : List (String × Mapping) := m.nodes.flatMap named

/-- The named nodes strictly below a node. -/
def namedBelow (m : Mapping) : List (String × Mapping) := m.nodesBelow.flatMap named

theorem named_of_refName {m : Mapping} {name : String} (h : m.refName = some name) :
    m.named = [(name, m)] := by
  rw [named, h]

theorem named_of_unnamed {m : Mapping} (h : m.refName = none) : m.named = [] := by
  rw [named, h]

theorem mem_named {m : Mapping} {e : String × Mapping} :
    e ∈ m.named ↔ m.refName = some e.1 ∧ e.2 = m := by
  obtain ⟨name, n⟩ := e
  rw [named]
  split
  · rename_i own h
    rw [h, List.mem_singleton, Prod.mk.injEq, Option.some.injEq, eq_comm]
  · rename_i h
    simp [h]

theorem mem_flatMap_named {ns : List Mapping} {e : String × Mapping} :
    e ∈ ns.flatMap named ↔ e.2 ∈ ns ∧ e.2.refName = some e.1 := by
  simp only [List.mem_flatMap, mem_named]
  constructor
  · rintro ⟨n, hn, h, rfl⟩; exact ⟨hn, h⟩
  · rintro ⟨hn, h⟩; exact ⟨e.2, hn, h, rfl⟩

theorem mem_namedNodes {m : Mapping} {e : String × Mapping} :
    e ∈ m.namedNodes ↔ e.2 ∈ m.nodes ∧ e.2.refName = some e.1 :=
  mem_flatMap_named

theorem mem_namedBelow {m : Mapping} {e : String × Mapping} :
    e ∈ m.namedBelow ↔ e.2 ∈ m.nodesBelow ∧ e.2.refName = some e.1 :=
  mem_flatMap_named

theorem namedNodes_eq (m : Mapping) : m.namedNodes = m.named ++ m.namedBelow := by
  rw [namedNodes, nodes_eq, List.flatMap_cons, namedBelow]

theorem namedBelow_scalar (type : ScalarType) (t : Traits) : (scalar type t).namedBelow = [] := rfl

theorem namedBelow_list (element : Mapping) (t : Traits) :
    (list element t).namedBelow = element.namedNodes := rfl

theorem namedBelow_object (fields : List (String × Mapping)) (t : Traits) :
    (object fields t).namedBelow = fields.flatMap fun f => f.2.namedNodes :=
  List.flatMap_assoc

/-! ## Cuts -/

mutual

/-- The named nodes at which the description of a node ends in a pointer. -/
def cuts : Mapping → List (String × Mapping)
  | .scalar .. => []
  | .list element _ =>
    match element.refName with
    | some name => [(name, element)]
    | none => cuts element
  | .object fields _ => fieldCuts fields

/-- The named nodes at which the descriptions of fields end. -/
def fieldCuts : List (String × Mapping) → List (String × Mapping)
  | [] => []
  | (_, m) :: rest =>
    (match m.refName with
      | some name => [(name, m)]
      | none => cuts m) ++ fieldCuts rest

end

/-- The named nodes at which the description of a node in a nested place ends: the node itself if it
is named. -/
def nestedCuts (m : Mapping) : List (String × Mapping) :=
  match m.refName with
  | some name => [(name, m)]
  | none => m.cuts

theorem nestedCuts_of_refName {m : Mapping} {name : String} (h : m.refName = some name) :
    m.nestedCuts = [(name, m)] := by
  rw [nestedCuts, h]

theorem nestedCuts_of_unnamed {m : Mapping} (h : m.refName = none) : m.nestedCuts = m.cuts := by
  rw [nestedCuts, h]

theorem cuts_list (element : Mapping) (t : Traits) :
    (list element t).cuts = element.nestedCuts := rfl

theorem cuts_object (fields : List (String × Mapping)) (t : Traits) :
    (object fields t).cuts = fields.flatMap fun f => f.2.nestedCuts := by
  rw [cuts]
  induction fields with
  | nil => rfl
  | cons f fields ih => rw [fieldCuts, ih, List.flatMap_cons]; rfl

/-- What `cuts_perm` says of a node, for that node in a nested place. -/
theorem nestedCuts_perm {m : Mapping}
    (h : (m.cuts ++ m.namedBelow.flatMap fun e => e.2.cuts).Perm m.namedBelow) :
    (m.nestedCuts ++ m.namedNodes.flatMap fun e => e.2.cuts).Perm m.namedNodes := by
  rw [namedNodes_eq]
  cases hm : m.refName with
  | some name =>
    rw [nestedCuts_of_refName hm, named_of_refName hm]
    exact h.cons _
  | none =>
    rw [nestedCuts_of_unnamed hm, named_of_unnamed hm]
    exact h

/-- Each named node below the root is cut out exactly once. -/
theorem cuts_perm (m : Mapping) :
    (m.cuts ++ m.namedBelow.flatMap fun e => e.2.cuts).Perm m.namedBelow := by
  induction m with
  | scalar type t => exact .nil
  | list element t ih => exact nestedCuts_perm ih
  | object fields t ih =>
    rw [cuts_object, namedBelow_object, List.flatMap_assoc]
    exact (List.flatMap_append_perm fields _ _).trans
      (List.Perm.flatMap_left fields fun f hf => nestedCuts_perm (ih f hf))

/-- A cut is a named node below. -/
theorem mem_namedBelow_of_mem_cuts {m : Mapping} {e : String × Mapping} (h : e ∈ m.cuts) :
    e ∈ m.namedBelow :=
  (cuts_perm m).subset (List.mem_append_left _ h)

/-! ## A tree with names -/

/-- The node under a name. -/
def withName (m : Mapping) (name : String) : Mapping :=
  m.withExtras { m.extras with refName := some name }

/-- An order, with names that repeat, also for single values and below one another. -/
def order : Mapping :=
  let label := text.withName "Label"
  let address := (objectOf [("street", text.required), ("label", label)]).withName "Address"
  let person := (objectOf [("name", text.required), ("home", address)]).withName "Person"
  let price := (ofType .double).constrained (.minimum (.zero true))
  (objectOf [("buyer", person.required), ("receiver", person),
    ("parcel", objectOf [("stops", listOf (listOf address)), ("price", price)])]).withName "Order"

end Mapping

end FieldSchema
