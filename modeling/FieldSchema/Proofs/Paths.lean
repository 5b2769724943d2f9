import FieldSchema.Proofs.Conversion

/-!
# Paths

A path leads down, from a list to its element and from an object to one of its fields.

* `Mapping.at?`: the node at a path. Of several fields of one name the last one is meant, because
  its description is the one that stays.
* `Property.HasAt`, `Model.HasAt`: what stands at a path in a description. Every part of a
  description stands at some path.
* `Mapping.exists_node_of_hasAt`: what stands at a path in the description of a node is the
  description of the node at that path; `Mapping.exists_node_of_model_hasAt` says so for models.
* `Mapping.distinctNames_of_toProperty`: no object in a description has two properties of one name.
-/

namespace FieldSchema

/-- One step down. -/
inductive Step where
  /-- To the element of a list. -/
  | element
  /-- To the field of an object. -/
  | field (name : String)
  deriving DecidableEq

/-- Steps down, the first one first. -/
abbrev Path := List Step

/-! ## Paths in trees -/

namespace Mapping

variable {m n : Mapping} {step : Step} {path : Path}

/-- The node one step down. -/
def child? : Mapping → Step → Option Mapping
  | .list element _, .element => some element
  | .object fields _, .field name => Entries.find? fields.reverse name
  | _, _ => none

/-- The node at a path. -/
def at? : Mapping → Path → Option Mapping
  | m, [] => some m
  | m, step :: path => (m.child? step).bind fun n => n.at? path

theorem mem_nodesBelow_of_child? (h : m.child? step = some n) : n ∈ m.nodesBelow := by
  unfold child? at h
  split at h
  · cases h
    exact self_mem_nodes n
  · rename_i fields t name
    have hmem : (name, n) ∈ fields := List.mem_reverse.mp (Entries.mem_of_find? h)
    exact mem_nodesBelow_object.mpr ⟨(name, n), hmem, self_mem_nodes n⟩
  · cases h

theorem mem_nodes_of_at? (h : m.at? path = some n) : n ∈ m.nodes := by
  induction path generalizing m with
  | nil => cases h; exact self_mem_nodes n
  | cons step path ih =>
    obtain ⟨k, hk, hn⟩ := Option.bind_eq_some_iff.mp h
    exact mem_nodes_trans (ih hn) (mem_nodes_of_nodesBelow (mem_nodesBelow_of_child? hk))

/-- The node at a path that is not empty stands below. -/
theorem mem_nodesBelow_of_at? (h : m.at? (step :: path) = some n) : n ∈ m.nodesBelow := by
  obtain ⟨k, hk, hn⟩ := Option.bind_eq_some_iff.mp h
  have hkm := mem_nodesBelow_of_child? hk
  rcases mem_nodes.mp (mem_nodes_of_at? hn) with rfl | hnk
  · exact hkm
  · exact mem_nodesBelow_trans hnk hkm

end Mapping

/-! ## Paths in descriptions -/

/-- What stands at a path in a property. -/
inductive Property.HasAt : Property → Path → Property → Prop
  | here (p : Property) : HasAt p [] p
  | element {items q : Property} {description : Option String} {required : Bool} {path : Path}
      (h : HasAt items path q) : HasAt (.array items description required) (.element :: path) q
  | field {names : List String} {properties : List (String × Property)} {p q : Property}
      {description : Option String} {required : Bool} {name : String} {path : Path}
      (hp : (name, p) ∈ properties) (h : HasAt p path q) :
      HasAt (.object names properties description required) (.field name :: path) q

theorem Property.hasAt_nil_iff {p q : Property} : p.HasAt [] q ↔ q = p :=
  ⟨fun h => by cases h; rfl, fun h => h ▸ .here _⟩

/-- What stands at a path in a model, below the model itself. -/
inductive Model.HasAt : Model → Path → Property → Prop
  | element {items q : Property} {description : Option String} {path : Path}
      (h : items.HasAt path q) : HasAt (.array items description) (.element :: path) q
  | field {names : List String} {properties : Entries Property} {p q : Property}
      {description : Option String} {name : String} {path : Path}
      (hp : (name, p) ∈ properties) (h : p.HasAt path q) :
      HasAt (.object names properties description) (.field name :: path) q

/-- Below the root, a model holds what its inline description does. -/
theorem Model.hasAt_inline_iff {model : Model} {required : Bool} {sample : Option String}
    {validation : Validation} {step : Step} {path : Path} {q : Property} :
    (model.inline required sample validation).HasAt (step :: path) q ↔
      model.HasAt (step :: path) q := by
  constructor
  · intro h
    cases model with
    | object names ps description =>
      cases h with
      | field hp h => exact .field hp h
    | array items description =>
      cases h with
      | element h => exact .element h
    | primitive type format description => cases h
  · intro h
    cases h with
    | element h => exact .element h
    | field hp h => exact .field hp h

/-- No object in a property has two properties of one name. -/
def Property.DistinctNames (p : Property) : Prop :=
  ∀ path names properties description required,
    p.HasAt path (.object names properties description required) →
      (Entries.keys properties).Nodup

namespace Property.DistinctNames

variable {items : Property} {ps : List (String × Property)} {names : List String}
  {description : Option String} {required : Bool}

theorem of_array (h : (array items description required).DistinctNames) : items.DistinctNames :=
  fun path _ _ _ _ hobject => h (.element :: path) _ _ _ _ (.element hobject)

theorem of_object (h : (object names ps description required).DistinctNames)
    {e : String × Property} (he : e ∈ ps) : e.2.DistinctNames :=
  fun path _ _ _ _ hobject => h (.field e.1 :: path) _ _ _ _ (.field he hobject)

theorem keys_nodup (h : (object names ps description required).DistinctNames) :
    (Entries.keys ps).Nodup :=
  h [] _ _ _ _ (.here _)

end Property.DistinctNames

/-! ## Descriptions of nodes -/

namespace Mapping

variable {m : Mapping} {p q items : Property} {ps : List (String × Property)} {names : List String}
  {description : Option String} {required : Bool} {name : String} {step : Step} {path : Path}

/-- The items of a list describe its element. -/
theorem exists_child_of_array (h : m.toProperty = .ok (.array items description required)) :
    ∃ n, m.child? .element = some n ∧ n.nestedProperty = .ok items := by
  cases m with
  | scalar type t =>
    obtain ⟨_, _, -, -, heq⟩ := toProperty_scalar_eq_ok.mp h
    cases heq
  | list element t =>
    obtain ⟨items', hitems, heq⟩ := toProperty_list_eq_ok.mp h
    cases heq
    exact ⟨element, rfl, hitems⟩
  | object fields t =>
    obtain ⟨_, -, heq⟩ := toProperty_object_eq_ok.mp h
    cases heq

theorem exists_agree_of_object (h : m.toProperty = .ok (.object names ps description required)) :
    ∃ fields t qs, m = .object fields t ∧ ps = Entries.ofList qs ∧
      Entries.Agree (fun n p => n.nestedProperty = .ok p) fields qs := by
  cases m with
  | scalar type t =>
    obtain ⟨_, _, -, -, heq⟩ := toProperty_scalar_eq_ok.mp h
    cases heq
  | list element t =>
    obtain ⟨_, -, heq⟩ := toProperty_list_eq_ok.mp h
    cases heq
  | object fields t =>
    obtain ⟨qs, hqs, heq⟩ := toProperty_object_eq_ok.mp h
    cases heq
    exact ⟨fields, t, qs, rfl, rfl, hqs⟩

theorem keys_nodup_of_object (h : m.toProperty = .ok (.object names ps description required)) :
    (Entries.keys ps).Nodup := by
  obtain ⟨_, _, qs, -, rfl, -⟩ := exists_agree_of_object h
  exact Entries.keys_nodup_ofList qs

/-- A property of an object describes the last field of its name. -/
theorem exists_child_of_object (h : m.toProperty = .ok (.object names ps description required))
    (hp : (name, p) ∈ ps) : ∃ n, m.child? (.field name) = some n ∧ n.nestedProperty = .ok p := by
  have hfind : Entries.find? ps name = some p := Entries.find?_of_mem (keys_nodup_of_object h) hp
  obtain ⟨fields, t, qs, rfl, rfl, hqs⟩ := exists_agree_of_object h
  rw [Entries.find?_ofList] at hfind
  exact hqs.reverse.exists_find? hfind

/-- In a nested place: what stands at a path in the description of a node is the description of the
node at that path. -/
theorem exists_node_of_nested_hasAt (h : m.nestedProperty = .ok p) (hp : p.HasAt path q) :
    ∃ n, m.at? path = some n ∧ n.nestedProperty = .ok q := by
  induction hp generalizing m with
  | here p => exact ⟨m, rfl, h⟩
  | element _ ih =>
    rcases nestedProperty_eq_ok.mp h with ⟨_, -, heq⟩ | ⟨-, h⟩
    · cases heq
    · obtain ⟨k, hk, hitems⟩ := exists_child_of_array h
      obtain ⟨n, hn, hq⟩ := ih hitems
      exact ⟨n, by rw [at?, hk]; exact hn, hq⟩
  | field hmem _ ih =>
    rcases nestedProperty_eq_ok.mp h with ⟨_, -, heq⟩ | ⟨-, h⟩
    · cases heq
    · obtain ⟨k, hk, hkp⟩ := exists_child_of_object h hmem
      obtain ⟨n, hn, hq⟩ := ih hkp
      exact ⟨n, by rw [at?, hk]; exact hn, hq⟩

/-- What stands below the root in the description of a node is the description of the node at that
path, in its nested place. -/
theorem exists_node_of_hasAt (h : m.toProperty = .ok p) (hp : p.HasAt (step :: path) q) :
    ∃ n, m.at? (step :: path) = some n ∧ n.nestedProperty = .ok q := by
  cases hp with
  | element hq =>
    obtain ⟨k, hk, hitems⟩ := exists_child_of_array h
    obtain ⟨n, hn, hnq⟩ := exists_node_of_nested_hasAt hitems hq
    exact ⟨n, by rw [at?, hk]; exact hn, hnq⟩
  | field hmem hq =>
    obtain ⟨k, hk, hkp⟩ := exists_child_of_object h hmem
    obtain ⟨n, hn, hnq⟩ := exists_node_of_nested_hasAt hkp hq
    exact ⟨n, by rw [at?, hk]; exact hn, hnq⟩

theorem exists_node_of_model_hasAt {model : Model} (h : m.toModel = .ok model)
    (hq : model.HasAt (step :: path) q) :
    ∃ n, m.at? (step :: path) = some n ∧ n.nestedProperty = .ok q :=
  exists_node_of_hasAt (exists_toProperty h) (Model.hasAt_inline_iff.mpr hq)

/-- The description of a node has no two properties of one name in an object. -/
theorem distinctNames_of_toProperty (h : m.toProperty = .ok p) : p.DistinctNames := by
  intro path names properties description required hobject
  cases path with
  | nil =>
    cases hobject
    exact keys_nodup_of_object h
  | cons step path =>
    obtain ⟨n, -, hn⟩ := exists_node_of_hasAt h hobject
    rcases nestedProperty_eq_ok.mp hn with ⟨_, -, heq⟩ | ⟨-, hn⟩
    · cases heq
    · exact keys_nodup_of_object hn

end Mapping

end FieldSchema
