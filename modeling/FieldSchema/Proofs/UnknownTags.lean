import FieldSchema.Proofs.Conversion

/-!
# Tags of no known type

A single value whose tag names no known type has no description, and nothing else stands in the way
of describing a tree. Whether such a tag is met, and which one first, depends on the names: the
description of a node ends at the named nodes below it.

* `Mapping.inlined`: the nodes that the description of a node takes in. `Mapping.inlined_perm` says
  that each node of a tree is taken in exactly once, by the root or by a named node below it.
* `Mapping.failure?_toProperty`, `Mapping.failure?_toModel`: the error of a description is the first
  unknown tag that it takes in.
* `Mapping.definitions_error_iff`: when the definitions of a tree fail, and with which error. Tags
  are not met in the order of the tree, because a node behind a name comes after all that its parent
  takes in.
-/

namespace FieldSchema

namespace Mapping

variable {m n : Mapping} {e : SchemaError}

/-! ## What a description takes in -/

mutual

/-- The nodes that the description of a node takes in, in the order of `nodes`: the node itself, and
those below it that no named node hides. -/
def inlined : Mapping → List Mapping
  | .scalar type t => [.scalar type t]
  | .list element t =>
    .list element t ::
      (match element.refName with
        | some _ => []
        | none => inlined element)
  | .object fields t => .object fields t :: inlinedFields fields

/-- The nodes that the descriptions of fields take in. -/
def inlinedFields : List (String × Mapping) → List Mapping
  | [] => []
  | (_, m) :: rest =>
    (match m.refName with
      | some _ => []
      | none => inlined m) ++ inlinedFields rest

end

/-- The nodes that the description of a node in a nested place takes in: none if it is named. -/
def nestedInlined (m : Mapping) : List Mapping :=
  match m.refName with
  | some _ => []
  | none => m.inlined

theorem nestedInlined_of_refName {name : String} (h : m.refName = some name) :
    m.nestedInlined = [] := by
  rw [nestedInlined, h]

theorem nestedInlined_of_unnamed (h : m.refName = none) : m.nestedInlined = m.inlined := by
  rw [nestedInlined, h]

theorem inlined_list (element : Mapping) (t : Traits) :
    (list element t).inlined = .list element t :: element.nestedInlined := rfl

theorem inlined_object (fields : List (String × Mapping)) (t : Traits) :
    (object fields t).inlined = .object fields t :: fields.flatMap fun f => f.2.nestedInlined := by
  have hfields (fields : List (String × Mapping)) :
      inlinedFields fields = fields.flatMap fun f => f.2.nestedInlined := by
    induction fields with
    | nil => rfl
    | cons f fields ih => rw [inlinedFields, ih, List.flatMap_cons]; rfl
  rw [inlined, hfields]

/-- What `inlined_perm` says of a node, for that node in a nested place. -/
theorem nestedInlined_perm
    (h : (m.inlined ++ m.namedBelow.flatMap fun d => d.2.inlined).Perm m.nodes) :
    (m.nestedInlined ++ m.namedNodes.flatMap fun d => d.2.inlined).Perm m.nodes := by
  rw [namedNodes_eq, List.flatMap_append]
  cases hm : m.refName with
  | some name =>
    rw [nestedInlined_of_refName hm, named_of_refName hm, List.flatMap_singleton, List.nil_append]
    exact h
  | none =>
    rw [nestedInlined_of_unnamed hm, named_of_unnamed hm, List.flatMap_nil, List.nil_append]
    exact h

/-- Each node of a tree is taken in exactly once: by the root or by a named node below it. -/
theorem inlined_perm (m : Mapping) :
    (m.inlined ++ m.namedBelow.flatMap fun d => d.2.inlined).Perm m.nodes := by
  induction m with
  | scalar type t => exact .refl _
  | list element t ih => exact (nestedInlined_perm ih).cons _
  | object fields t ih =>
    rw [inlined_object, namedBelow_object, List.flatMap_assoc, nodes_eq]
    exact ((List.flatMap_append_perm fields _ _).trans
      (List.Perm.flatMap_left fields fun f hf => nestedInlined_perm (ih f hf))).cons _

/-- A node of a tree is taken in by the root or by a named node below it. -/
theorem mem_nodes_iff_inlined :
    n ∈ m.nodes ↔ n ∈ m.inlined ∨ ∃ d ∈ m.namedBelow, n ∈ d.2.inlined := by
  rw [← (inlined_perm m).mem_iff, List.mem_append, List.mem_flatMap]

/-! ## Unknown tags -/

/-- The tag of a single value of no known type. -/
def unknownTag? : Mapping → Option String
  | .scalar (.custom tag) _ => some tag
  | _ => none

/-- The first unknown tag among nodes, as the error it causes. -/
def firstError? (ns : List Mapping) : Option SchemaError :=
  (ns.findSome? unknownTag?).map .unsupportedType

theorem firstError?_append (ns ks : List Mapping) :
    firstError? (ns ++ ks) = (firstError? ns).or (firstError? ks) := by
  rw [firstError?, List.findSome?_append, Option.map_or]
  rfl

theorem firstError?_cons_of_none {ns : List Mapping} (h : n.unknownTag? = none) :
    firstError? (n :: ns) = firstError? ns := by
  rw [firstError?, List.findSome?_cons, h]
  rfl

theorem firstError?_eq_none {ns : List Mapping} :
    firstError? ns = none ↔ ∀ n ∈ ns, n.unknownTag? = none := by
  rw [firstError?, Option.map_eq_none_iff, List.findSome?_eq_none_iff]

/-! ## Errors of descriptions -/

/-- A single value of a known type has a type name, and then a format. -/
theorem failure?_scalarProperty (type : ScalarType) (t : Traits) :
    failure? (scalarProperty type t) = firstError? [.scalar type t] := by
  rw [scalarProperty, failure?_bind_bind_pure]
  unfold Mapping.format
  cases (scalar type t).extras.format.filter (· ≠ "") <;> cases type <;> rfl

theorem failure?_nestedProperty (h : failure? m.toProperty = firstError? m.inlined) :
    failure? m.nestedProperty = firstError? m.nestedInlined := by
  cases hm : m.refName with
  | some name =>
    rw [nestedProperty_of_refName hm, nestedInlined_of_refName hm]
    rfl
  | none =>
    rw [nestedProperty_of_unnamed hm, nestedInlined_of_unnamed hm]
    exact h

theorem failure?_fieldProperties {fields : List (String × Mapping)}
    (h : ∀ f ∈ fields, failure? f.2.nestedProperty = firstError? f.2.nestedInlined) :
    failure? (fieldProperties fields) =
      firstError? (fields.flatMap fun f => f.2.nestedInlined) := by
  induction fields with
  | nil => rfl
  | cons f fields ih =>
    have hrest := ih fun g hg => h g (List.mem_cons_of_mem _ hg)
    rw [fieldProperties, failure?_bind_bind_pure, List.flatMap_cons, firstError?_append, hrest,
      ← h f List.mem_cons_self]
    rfl

/-- The error of a description is the first unknown tag that it takes in. -/
theorem failure?_toProperty (m : Mapping) : failure? m.toProperty = firstError? m.inlined := by
  induction m with
  | scalar type t =>
    rw [toProperty, failure?_bind_pure]
    exact failure?_scalarProperty type t
  | list element t ih =>
    rw [toProperty, failure?_bind_pure, inlined_list, firstError?_cons_of_none rfl]
    exact failure?_nestedProperty ih
  | object fields t ih =>
    rw [toProperty, failure?_bind_pure, inlined_object, firstError?_cons_of_none rfl]
    exact failure?_fieldProperties fun f hf => failure?_nestedProperty (ih f hf)

theorem failure?_toModel (m : Mapping) : failure? m.toModel = firstError? m.inlined := by
  rw [← failure?_toProperty, toProperty_eq_map_toModel, failure?_map]

/-- The error of the definitions of a tree is that of the first named node with an error. -/
theorem failure?_definitions (m : Mapping) :
    failure? m.definitions = m.namedNodes.findSome? fun d => firstError? d.2.inlined := by
  have hdefinition (d : String × Mapping) : failure? (definition d) = firstError? d.2.inlined := by
    rw [definition, failure?_bind_pure, failure?_toModel]
  rw [definitions_eq, failure?_mapM]
  simp only [hdefinition]

/-- Definitions fail if and only if there is an unknown tag at or below a named node. -/
theorem failure?_definitions_ne_none :
    failure? m.definitions ≠ none ↔
      ∃ d ∈ m.nodes, d.refName ≠ none ∧ ∃ n ∈ d.nodes, n.unknownTag? ≠ none := by
  rw [failure?_definitions, ne_eq, List.findSome?_eq_none_iff]
  simp only [firstError?_eq_none, not_forall, exists_prop]
  constructor
  · rintro ⟨d, hd, n, hn, htag⟩
    obtain ⟨hdm, hname⟩ := mem_namedNodes.mp hd
    exact ⟨d.2, hdm, hname ▸ Option.some_ne_none _, n, mem_nodes_iff_inlined.mpr (.inl hn), htag⟩
  · rintro ⟨d, hd, hname, n, hn, htag⟩
    obtain ⟨name, hname⟩ := Option.ne_none_iff_exists'.mp hname
    rcases mem_nodes_iff_inlined.mp hn with hn | ⟨k, hk, hn⟩
    · exact ⟨(name, d), mem_namedNodes.mpr ⟨hd, hname⟩, n, hn, htag⟩
    · obtain ⟨hkd, hkname⟩ := mem_namedBelow.mp hk
      have hkm : k.2 ∈ m.nodes := mem_nodes_trans (mem_nodes_of_nodesBelow hkd) hd
      exact ⟨k, mem_namedNodes.mpr ⟨hkm, hkname⟩, n, hn, htag⟩

/-- A tree has a model and definitions if and only if it has no unknown tag. -/
theorem failure?_eq_none_iff_unknownTag? :
    failure? m.toModel = none ∧ failure? m.definitions = none ↔
      ∀ n ∈ m.nodes, n.unknownTag? = none := by
  rw [failure?_toModel, failure?_definitions, firstError?_eq_none, List.findSome?_eq_none_iff]
  simp only [firstError?_eq_none]
  constructor
  · rintro ⟨hroot, hnamed⟩ n hn
    rcases mem_nodes_iff_inlined.mp hn with hn | ⟨d, hd, hn⟩
    · exact hroot n hn
    · exact hnamed d (namedNodes_eq m ▸ List.mem_append_right _ hd) n hn
  · intro h
    refine ⟨fun n hn => h n (mem_nodes_iff_inlined.mpr (.inl hn)), fun d hd n hn => ?_⟩
    have hdm : d.2 ∈ m.nodes := (mem_namedNodes.mp hd).1
    exact h n (mem_nodes_trans (mem_nodes_iff_inlined.mpr (.inl hn)) hdm)

/-- Then every node of the tree has a model. -/
theorem exists_toModel_of_mem {model : Model} {ds : List (String × Model)}
    (hmodel : m.toModel = .ok model) (h : m.definitions = .ok ds) (hn : n ∈ m.nodes) :
    ∃ own, n.toModel = .ok own := by
  have hknown := failure?_eq_none_iff_unknownTag?.mp
    ⟨failure?_eq_none.mpr ⟨model, hmodel⟩, failure?_eq_none.mpr ⟨ds, h⟩⟩
  rw [← failure?_eq_none, failure?_toModel, firstError?_eq_none]
  exact fun k hk => hknown k (mem_nodes_trans (mem_nodes_iff_inlined.mpr (.inl hk)) hn)

/-- **When definitions fail.** The definitions of a tree fail if and only if a node of no known type
is named or stands below a named node. The error is the first unknown tag when the named nodes are
taken in order, each with the nodes that its description takes in, in order. So a tree has a model
and definitions if and only if it has no unknown tag at all. -/
theorem definitions_error_iff (m : Mapping) :
    ((∃ e, m.definitions = .error e) ↔
      ∃ d ∈ m.nodes, d.refName ≠ none ∧ ∃ n ∈ d.nodes, n.unknownTag? ≠ none) ∧
    (∀ e, m.definitions = .error e ↔
      ∃ tag, (m.namedNodes.findSome? fun d => d.2.inlined.findSome? unknownTag?) = some tag ∧
        e = .unsupportedType tag) ∧
    ((∃ model, m.toModel = .ok model) ∧ (∃ ds, m.definitions = .ok ds) ↔
      ∀ n ∈ m.nodes, n.unknownTag? = none) := by
  refine ⟨?_, fun e => ?_, ?_⟩
  · rw [← failure?_ne_none, failure?_definitions_ne_none]
  · have hmap : failure? m.definitions =
        (m.namedNodes.findSome? fun d => d.2.inlined.findSome? unknownTag?).map
          .unsupportedType := by
      rw [failure?_definitions, List.map_findSome?]
      rfl
    rw [← failure?_eq_some, hmap, Option.map_eq_some_iff]
    simp only [eq_comm]
  · rw [← failure?_eq_none, ← failure?_eq_none, failure?_eq_none_iff_unknownTag?]

/-- The tag met first is not the first of the tree: it stands behind a name. -/
example :
    let unit := (objectOf [("unit", ofType (.custom "gram"))]).withName "Unit"
    let item := (objectOf [("unit", unit), ("price", ofType (.custom "money"))]).withName "Item"
    item.definitions = .error (.unsupportedType "money") := rfl

end Mapping

end FieldSchema
