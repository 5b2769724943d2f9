import FieldSchema.Proofs.Paths

/-!
# The order of definitions

The definitions of a tree stand in the order of its named nodes, one for each, so a node stands
before the named nodes below it (`Mapping.beforeBelow_namedNodes`). A pointer in a definition was
put in the place of such a node. So it points forward, to the definition of that very node
(`Mapping.definitions_point_forward`), although others may have the same name.
-/

namespace FieldSchema

namespace Mapping

variable {m : Mapping} {ns ks : List (String × Mapping)}

/-! ## Nodes before the nodes below them -/

/-- Wherever a node is listed, all named nodes below it are listed after it. -/
def BeforeBelow (ns : List (String × Mapping)) : Prop :=
  ∀ before e after, ns = before ++ e :: after → e.2.namedBelow ⊆ after

theorem BeforeBelow.nil : BeforeBelow [] := by
  intro before e after heq
  cases before <;> cases heq

theorem BeforeBelow.append (hn : BeforeBelow ns) (hk : BeforeBelow ks) :
    BeforeBelow (ns ++ ks) := by
  intro before e after h
  rcases List.append_eq_append_iff.mp h with ⟨middle, -, hks⟩ | ⟨middle, hns, hafter⟩
  · exact hk middle e after hks
  · cases middle with
    | nil => exact hk [] e after hafter.symm
    | cons d middle =>
      -- the node is listed in the first part, and the second part is listed after it
      obtain ⟨rfl, rfl⟩ := List.cons.inj hafter
      exact List.Subset.trans (hn before _ middle hns) (List.subset_append_left _ _)

theorem BeforeBelow.flatMap {α : Type} {f : α → List (String × Mapping)} {xs : List α}
    (h : ∀ x ∈ xs, BeforeBelow (f x)) : BeforeBelow (xs.flatMap f) := by
  induction xs with
  | nil => exact .nil
  | cons x xs ih =>
    rw [List.flatMap_cons]
    exact (h x List.mem_cons_self).append (ih fun y hy => h y (List.mem_cons_of_mem _ hy))

theorem beforeBelow_named_append (h : BeforeBelow m.namedBelow) :
    BeforeBelow (m.named ++ m.namedBelow) := by
  intro before e after heq
  cases hm : m.refName with
  | none =>
    rw [named_of_unnamed hm] at heq
    exact h before e after heq
  | some name =>
    rw [named_of_refName hm] at heq
    cases before with
    | nil =>
      cases heq
      exact List.Subset.refl _
    | cons d before => exact h before e after (List.cons.inj heq).2

/-- A named node of a tree is listed before all named nodes below it. -/
theorem beforeBelow_namedNodes (m : Mapping) : BeforeBelow m.namedNodes := by
  induction m with
  | scalar type t =>
    rw [namedNodes_eq]
    exact beforeBelow_named_append .nil
  | list element t ih =>
    rw [namedNodes_eq]
    exact beforeBelow_named_append ih
  | object fields t ih =>
    rw [namedNodes_eq]
    apply beforeBelow_named_append
    rw [namedBelow_object]
    exact .flatMap ih

/-- A named node below the node in some place is listed in a later place. -/
theorem BeforeBelow.exists_later {i : Nat} {e d : String × Mapping} (h : BeforeBelow ns)
    (he : ns[i]? = some e) (hd : d ∈ e.2.namedBelow) : ∃ j, i < j ∧ ns[j]? = some d := by
  obtain ⟨hi, rfl⟩ := List.getElem?_eq_some_iff.mp he
  have hsplit : ns = ns.take i ++ ns[i] :: ns.drop (i + 1) := by
    rw [← List.drop_eq_getElem_cons hi, List.take_append_drop]
  obtain ⟨k, hk⟩ := List.mem_iff_getElem?.mp (h _ _ _ hsplit hd)
  rw [List.getElem?_drop] at hk
  exact ⟨i + 1 + k, by omega, hk⟩

/-! ## Pointers -/

/-- A pointer in the model of a node stands in the place of a named node below. -/
theorem exists_named_of_pointer {model : Model} {path : Path} {pointer : String} {required : Bool}
    (h : m.toModel = .ok model) (hp : model.HasAt path (.ref pointer required)) :
    ∃ n, m.at? path = some n ∧ (simpleRef pointer, n) ∈ m.namedBelow := by
  cases path with
  | nil => cases hp
  | cons step path =>
    obtain ⟨n, hn, hnested⟩ := exists_node_of_model_hasAt h hp
    have hbelow : n ∈ m.nodesBelow := mem_nodesBelow_of_at? hn
    refine ⟨n, hn, mem_namedBelow.mpr ⟨hbelow, ?_⟩⟩
    rcases nestedProperty_eq_ok.mp hnested with ⟨name, hname, heq⟩ | ⟨-, hinline⟩
    · cases heq
      rw [simpleRef_definitionRef]
      exact hname
    · -- a node that is described inline is not described by a pointer
      rw [toProperty_eq_map_toModel] at hinline
      obtain ⟨own, -, heq⟩ := map_eq_ok.mp hinline
      cases own <;> cases heq

/-- **Definitions point forward.** The definitions of a tree are those of its named nodes, one for
each node, in order. Where a pointer stands in a definition, the node at that place has a definition
later in the list, under the name the pointer leads to. -/
theorem definitions_point_forward {ds : List (String × Model)} (h : m.definitions = .ok ds) :
    Entries.Agree (fun n model => n.toModel = .ok model) m.namedNodes ds ∧
    ∀ (i : Nat) (e : String × Mapping) (d : String × Model),
      m.namedNodes[i]? = some e → ds[i]? = some d →
      ∀ path pointer required, d.2.HasAt path (.ref pointer required) →
        ∃ (j : Nat) (n : Mapping) (model : Model), i < j ∧ e.2.at? path = some n ∧
          m.namedNodes[j]? = some (simpleRef pointer, n) ∧
          n.toModel = .ok model ∧ ds[j]? = some (simpleRef pointer, model) := by
  have hagree := definitions_eq_ok.mp h
  refine ⟨hagree, fun i e d he hd path pointer required hp => ?_⟩
  obtain ⟨own, hown, hmodel⟩ := hagree.exists_getElem? he
  cases Option.some.inj (hd.symm.trans hown)
  obtain ⟨n, hn, hbelow⟩ := exists_named_of_pointer hmodel hp
  obtain ⟨j, hij, hj⟩ := (beforeBelow_namedNodes m).exists_later he hbelow
  obtain ⟨model, hdj, hnj⟩ := hagree.exists_getElem? hj
  exact ⟨j, n, model, hij, hn, hj, hnj, hdj⟩

theorem definitions_point_forward_order :
    ∃ ds, order.definitions = .ok ds ∧
      Entries.keys ds =
        ["Order", "Person", "Address", "Label", "Person", "Address", "Label", "Address", "Label"] ∧
      ∃ j n model, 4 < j ∧ order.at? [.field "receiver", .field "home"] = some n ∧
        n.toModel = .ok model ∧ ds[j]? = some ("Address", model) := by
  obtain ⟨-, hforward⟩ := definitions_point_forward (m := order) rfl
  obtain ⟨j, n, model, hj, hn, -, hmodel, hdj⟩ :=
    hforward 4 _ _ rfl rfl [.field "home"] (definitionRef "Address") false
      (.field (.tail _ (.head _)) (.here _))
  rw [simpleRef_definitionRef] at hdj
  exact ⟨_, rfl, rfl, j, n, model, hj, hn, hmodel, hdj⟩

end Mapping

end FieldSchema
