import FieldSchema.Proofs.DocumentNames
import FieldSchema.Proofs.Resolution

/-!
# Required names

An object lists the names of its properties that must be present, and each property says the same of
itself. The list is made of the fields and the properties are collected from them, so the two agree
where no field name comes twice, as in every mapping that a document holds.

* `RequiredNamesFit`: the list of an object fits its properties.
* `Property.ObjectsFit`, `Model.ObjectsFit`: the lists of all objects in a description do.
* `Mapping.objectsFit_of_toProperty`: descriptions of trees with distinct field names are so.
* `Document.Loaded.required_names_fit`: all descriptions made from documents are so.
-/

namespace FieldSchema

/-- The names an object requires are those of its properties that must be present. -/
structure RequiredNamesFit (names : List String) (ps : Entries Property) : Prop where
  nodup : names.Nodup
  /-- The names stand in the order of the properties. -/
  sublist : names.Sublist (Entries.keys ps)
  mem_iff : ∀ name, name ∈ names ↔ ∃ p, Entries.find? ps name = some p ∧ p.isRequired

/-- Every object in a property requires the names of its properties that must be present. -/
def Property.ObjectsFit (p : Property) : Prop :=
  ∀ path names ps description required,
    p.HasAt path (.object names ps description required) → RequiredNamesFit names ps

/-- A model, and every object in it, requires the names of its properties that must be present. -/
structure Model.ObjectsFit (model : Model) : Prop where
  root : ∀ names ps description, model = .object names ps description → RequiredNamesFit names ps
  below : ∀ path names ps description required,
    model.HasAt path (.object names ps description required) → RequiredNamesFit names ps

/-- The names of the properties that must be present, in order, fit if no name comes twice. -/
theorem RequiredNamesFit.of_filter {ps : Entries Property} (h : (Entries.keys ps).Nodup) :
    RequiredNamesFit (Entries.keys (ps.filter fun e => e.2.isRequired)) ps := by
  have hsublist : (Entries.keys (ps.filter fun e => e.2.isRequired)).Sublist (Entries.keys ps) :=
    List.filter_sublist.map Prod.fst
  refine ⟨h.sublist hsublist, hsublist, fun name => ?_⟩
  simp only [Entries.keys, List.mem_map, List.mem_filter]
  constructor
  · rintro ⟨e, ⟨he, hrequired⟩, rfl⟩
    exact ⟨e.2, Entries.find?_of_mem h he, hrequired⟩
  · rintro ⟨p, hp, hrequired⟩
    exact ⟨(name, p), ⟨Entries.mem_of_find? hp, hrequired⟩, rfl⟩

namespace Mapping

variable {m : Mapping} {p : Property} {fields : List (String × Mapping)} {ps : Entries Property}
  {names : List String} {description : Option String} {required : Bool}

/-- A description says of its value whether it must be present as the node does, also if it is a
pointer. -/
theorem isRequired_of_nestedProperty (h : m.nestedProperty = .ok p) :
    p.isRequired = m.isRequired := by
  rcases nestedProperty_eq_ok.mp h with ⟨_, -, rfl⟩ | ⟨-, h⟩
  · rfl
  · cases m with
    | scalar type t =>
      obtain ⟨_, _, -, -, rfl⟩ := toProperty_scalar_eq_ok.mp h
      rfl
    | list element t =>
      obtain ⟨_, -, rfl⟩ := toProperty_list_eq_ok.mp h
      rfl
    | object fields t =>
      obtain ⟨_, -, rfl⟩ := toProperty_object_eq_ok.mp h
      rfl

/-- The required fields are those whose descriptions say so. -/
theorem requiredNames_eq_keys_filter
    (h : Entries.Agree (fun m p => m.nestedProperty = .ok p) fields ps) :
    requiredNames fields = Entries.keys (ps.filter fun e => e.2.isRequired) := by
  rw [requiredNames]
  induction h with
  | nil => rfl
  | @cons f e fields ps hfe _ ih =>
    have hrequired := isRequired_of_nestedProperty hfe.2
    simp only [List.filter_cons, hrequired]
    split
    · rw [List.map_cons, Entries.keys_cons, ih, hfe.1]
    · exact ih

theorem requiredNamesFit_of_toProperty (hd : m.DistinctFields)
    (h : m.toProperty = .ok (.object names ps description required)) :
    RequiredNamesFit names ps := by
  cases m with
  | scalar type t =>
    obtain ⟨_, _, -, -, heq⟩ := toProperty_scalar_eq_ok.mp h
    cases heq
  | list element t =>
    obtain ⟨_, -, heq⟩ := toProperty_list_eq_ok.mp h
    cases heq
  | object fields t =>
    obtain ⟨qs, hqs, heq⟩ := toProperty_object_eq_ok.mp h
    have hnodup : (Entries.keys qs).Nodup :=
      hqs.keys_eq ▸ hd _ (self_mem_nodes _) fields rfl
    rw [Entries.ofList_of_nodup hnodup, requiredNames_eq_keys_filter hqs] at heq
    cases heq
    exact .of_filter hnodup

/-- Every object in the description of a tree with distinct field names requires the names of its
properties that must be present. -/
theorem objectsFit_of_toProperty (hd : m.DistinctFields) (h : m.toProperty = .ok p) :
    p.ObjectsFit := by
  intro path names ps description required hobject
  cases path with
  | nil =>
    cases hobject
    exact requiredNamesFit_of_toProperty hd h
  | cons step path =>
    obtain ⟨n, hn, hnested⟩ := exists_node_of_hasAt h hobject
    rcases nestedProperty_eq_ok.mp hnested with ⟨_, -, heq⟩ | ⟨-, hproperty⟩
    · cases heq
    · exact requiredNamesFit_of_toProperty (hd.of_mem (mem_nodes_of_at? hn)) hproperty

theorem objectsFit_of_toModel {model : Model} (hd : m.DistinctFields)
    (h : m.toModel = .ok model) : model.ObjectsFit := by
  have hinline := objectsFit_of_toProperty hd (exists_toProperty h)
  refine ⟨?_, ?_⟩
  · rintro names ps description rfl
    exact hinline [] _ _ _ _ (.here _)
  · intro path names ps description required hobject
    cases path with
    | nil => cases hobject
    | cons step path => exact hinline _ _ _ _ _ (Model.hasAt_inline_iff.mpr hobject)

end Mapping

/-! ## Descriptions of documents -/

namespace Document.Loaded

variable {m : Mapping}

/-- **Required names fit.** In every property, model, definition and schema of a body that is made
from a mapping that a document holds, each object requires exactly the names of its properties that
must be present, once and in the order of the properties. -/
theorem required_names_fit (h : Loaded m) :
    (∀ n ∈ m.nodes, ∀ p, n.toProperty = .ok p → p.ObjectsFit) ∧
    (∀ n ∈ m.nodes, ∀ model, n.toModel = .ok model → model.ObjectsFit) ∧
    (∀ ds, m.definitions = .ok ds → ∀ d ∈ ds, d.2.ObjectsFit) ∧
    ∀ settings name qs, m.toParameters settings name = .ok qs →
      ∀ body, .body body ∈ qs → body.schema.ObjectsFit := by
  have hd (n : Mapping) (hn : n ∈ m.nodes) : n.DistinctFields := h.distinctFields.of_mem hn
  refine ⟨fun n hn p hp => ?_, fun n hn model hmodel => ?_, fun ds hds d hmem => ?_, ?_⟩
  · exact Mapping.objectsFit_of_toProperty (hd n hn) hp
  · exact Mapping.objectsFit_of_toModel (hd n hn) hmodel
  · obtain ⟨n, hn, hmodel⟩ := (Mapping.definitions_eq_ok.mp hds).exists_left hmem
    exact Mapping.objectsFit_of_toModel (hd n (Mapping.mem_namedNodes.mp hn).1) hmodel
  · intro settings name qs hqs body hbody
    obtain ⟨n, hn, own, hown⟩ := Mapping.exists_node_of_parameter hqs hbody
    rcases Mapping.toParameter_eq_ok.mp hown with ⟨-, schema, hschema, heq⟩ | ⟨_, _, -, _, -, heq⟩
    · cases heq
      exact Mapping.objectsFit_of_toModel (hd n hn) hschema
    · cases heq

/-- A document whose first field comes twice: first it must be present, later it need not. -/
def contactText : String :=
  "\x7b\"type\":\"object\",\"in\":\"body\",\"fields\":\x7b" ++
    "\"id\":\x7b\"type\":\"int\",\"required\":true\x7d," ++
    "\"name\":\x7b\"type\":\"text\",\"required\":true\x7d," ++
    "\"id\":\x7b\"type\":\"long\"\x7d\x7d\x7d"

/-- The mapping of the document. -/
def contact : Mapping :=
  (Mapping.objectOf [("id", .long), ("name", Mapping.text.required)]).carriedIn .body

theorem required_names_fit_contact :
    mappingOfText .json contactText = .ok contact ∧
    ∃ p model body, contact.toProperty = .ok p ∧ contact.toModel = .ok model ∧
      contact.toParameters {} "contact" = .ok [.body body] ∧
      p.ObjectsFit ∧ model.ObjectsFit ∧ body.schema.ObjectsFit := by
  have htext : mappingOfText .json contactText = .ok contact := by decide +kernel
  obtain ⟨hproperty, hmodel, -, hbody⟩ := required_names_fit (.text htext)
  refine ⟨htext, _, _, _, rfl, rfl, rfl, ?_, ?_, ?_⟩
  · exact hproperty contact (Mapping.self_mem_nodes _) _ rfl
  · exact hmodel contact (Mapping.self_mem_nodes _) _ rfl
  · exact hbody {} "contact" _ rfl _ List.mem_cons_self

end Document.Loaded

end FieldSchema
