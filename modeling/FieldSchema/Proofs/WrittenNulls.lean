import FieldSchema.Proofs.ArtifactTexts
import FieldSchema.Proofs.Metadata
import FieldSchema.Proofs.RecordBounds

/-!
# Nulls in artifacts

JSON has no word for the numbers without digits, which are the infinities and the one that is no
number. They are written as `null`, and nothing else in an artifact is. A mapping in YAML may
declare them as bounds, and no step from the document to the text looks at that.

* `Json.Value.nulls`: the values with the text `null` in a value, at any depth.
* `PropertyFragment.nulls_toJson`, `ModelFragment.nulls_toJson`, `ParameterFragment.nulls_toJson`: in
  a written fragment these are the bounds without digits. `Property.allBounds`, `Model.allBounds`,
  `Parameter.allBounds` are the bounds in descriptions, for which the same holds.
* `Artifact`: what the conversions make of a mapping. `Mapping.Makes.exists_declares`: each bound in
  it is declared by a node.
* `Document.nulls_of_makes`: so an artifact has a null for each bound without digits in it, and one
  of a JSON document has none. That of a YAML document may (`Document.nullMaximum_written`).
-/

namespace FieldSchema

open Json (Value optionalEntry stringsEntry)

/-! ## Nulls in JSON values -/

namespace Json

namespace Value

mutual

/-- A value and all values in it. -/
def parts : Value → List Value
  | .null => [.null]
  | .bool b => [.bool b]
  | .number n => [.number n]
  | .string s => [.string s]
  | .array items => .array items :: itemParts items
  | .object entries => .object entries :: entryParts entries

/-- The items of an array and all values in them. -/
def itemParts : List Value → List Value
  | [] => []
  | v :: rest => parts v ++ itemParts rest

/-- The values of entries and all values in them. -/
def entryParts : List (String × Value) → List Value
  | [] => []
  | (_, v) :: rest => parts v ++ entryParts rest

end

/-- The values among these whose text is `null`. -/
def onlyNulls (vs : List Value) : List Value := vs.filter fun v => v.chars = nullText

/-- The values with the text `null` in a value, at any depth. -/
def nulls (v : Value) : List Value := onlyNulls v.parts

/-- The values with the text `null` in the values of entries. -/
def entryNulls (es : Entries Value) : List Value := onlyNulls (entryParts es)

/-- The numbers among these that have no digits, as values. -/
def withoutDigits (xs : List Binary64) : List Value := (xs.filter fun x => !x.isFinite).map float

section Laws

variable {α : Type} {name : String} {write : α → Value} {a : Option α} {values : List String}
  {v : Value} {xs : List Binary64}

theorem onlyNulls_append (vs ws : List Value) :
    onlyNulls (vs ++ ws) = onlyNulls vs ++ onlyNulls ws :=
  List.filter_append vs ws

theorem onlyNulls_cons_of_ne {vs : List Value} (h : v.chars ≠ nullText) :
    onlyNulls (v :: vs) = onlyNulls vs := by
  rw [onlyNulls, List.filter_cons_of_neg (by simpa using h), onlyNulls]

@[simp] theorem nulls_bool (b : Bool) : (bool b).nulls = [] := by
  cases b <;> exact onlyNulls_cons_of_ne (by decide)

@[simp] theorem nulls_string (s : String) : (string s).nulls = [] := by
  refine onlyNulls_cons_of_ne fun h => ?_
  exact absurd (List.cons.inj h).1 (by decide)

/-- A number is a null if and only if it has no digits. -/
theorem chars_number_eq_nullText_iff {n : Number} :
    (number n).chars = nullText ↔ ¬ n.Legible := by
  show n.chars = nullText ↔ _
  constructor
  · intro hnull hlegible
    obtain ⟨l, hread, -⟩ := Number.exists_literal hlegible
    rw [hnull] at hread
    cases hread
  · intro h
    cases n with
    | integer n => exact absurd trivial h
    | float x =>
      cases x with
      | nan => rfl
      | infinity negative => cases negative <;> rfl
      | finite negative rank hrank => exact absurd rfl h

@[simp] theorem nulls_nat (n : Nat) : (nat n).nulls = [] := by
  refine onlyNulls_cons_of_ne fun h => ?_
  exact chars_number_eq_nullText_iff.mp h trivial

@[simp] theorem nulls_float (x : Binary64) : (float x).nulls = withoutDigits [x] := by
  have htext : (float x).chars = nullText ↔ ¬ x.isFinite := chars_number_eq_nullText_iff
  have hparts : (float x).parts = [float x] := by rw [float, parts]
  rw [nulls, onlyNulls, hparts, withoutDigits]
  cases hx : x.isFinite with
  | true => simp [htext, hx]
  | false => simp [htext, hx]

theorem nulls_array (items : List Value) : (array items).nulls = items.flatMap nulls := by
  have hitems : onlyNulls (itemParts items) = items.flatMap nulls := by
    induction items with
    | nil => rfl
    | cons v items ih => rw [itemParts, onlyNulls_append, ih, List.flatMap_cons, nulls]
  rw [nulls, parts, onlyNulls_cons_of_ne, hitems]
  exact fun h => absurd (List.cons.inj h).1 (by decide)

@[simp] theorem nulls_object (es : List (String × Value)) : (object es).nulls = entryNulls es := by
  refine onlyNulls_cons_of_ne fun h => ?_
  exact absurd (List.cons.inj h).1 (by decide)

@[simp] theorem entryNulls_nil : entryNulls [] = [] := rfl

@[simp] theorem entryNulls_cons (e : String × Value) (es : Entries Value) :
    entryNulls (e :: es) = e.2.nulls ++ entryNulls es :=
  onlyNulls_append e.2.parts (entryParts es)

@[simp] theorem entryNulls_append (es fs : Entries Value) :
    entryNulls (es ++ fs) = entryNulls es ++ entryNulls fs := by
  induction es with
  | nil => rfl
  | cons e es ih => rw [List.cons_append, entryNulls_cons, entryNulls_cons, ih, List.append_assoc]

theorem entryNulls_eq (es : Entries Value) : entryNulls es = es.flatMap fun e => e.2.nulls := by
  induction es with
  | nil => rfl
  | cons e es ih => rw [entryNulls_cons, ih, List.flatMap_cons]

@[simp] theorem entryNulls_optionalEntry :
    entryNulls (optionalEntry name write a) = a.toList.flatMap fun x => (write x).nulls := by
  cases a <;> simp [optionalEntry]

@[simp] theorem entryNulls_stringsEntry : entryNulls (stringsEntry name values) = [] := by
  unfold stringsEntry
  split
  · rfl
  · simp [strings, nulls_array, List.flatMap_map]

@[simp] theorem flatMap_nil_right (bs : List α) : (bs.flatMap fun _ => ([] : List Value)) = [] :=
  List.flatMap_eq_nil_iff.mpr fun _ _ => rfl

@[simp] theorem withoutDigits_nil : withoutDigits [] = [] := rfl

theorem withoutDigits_append (xs ys : List Binary64) :
    withoutDigits (xs ++ ys) = withoutDigits xs ++ withoutDigits ys := by
  rw [withoutDigits, List.filter_append, List.map_append]
  rfl

theorem withoutDigits_flatMap {β : Type} (bounds : β → List Binary64) (bs : List β) :
    withoutDigits (bs.flatMap bounds) = bs.flatMap fun b => withoutDigits (bounds b) := by
  induction bs with
  | nil => rfl
  | cons b bs ih => rw [List.flatMap_cons, withoutDigits_append, ih, List.flatMap_cons]

theorem withoutDigits_eq_nil (h : ∀ x ∈ xs, x.isFinite) : withoutDigits xs = [] := by
  rw [withoutDigits, List.map_eq_nil_iff, List.filter_eq_nil_iff]
  intro x hx
  rw [h x hx]
  exact Bool.false_ne_true

end Laws

end Value

end Json

open Json.Value (withoutDigits withoutDigits_append withoutDigits_flatMap nulls_array entryNulls
  entryNulls_eq)

/-! ## Nulls in written descriptions -/

theorem Validation.entryNulls_toEntries (v : Validation) :
    entryNulls v.toEntries = withoutDigits v.bounds := by
  have hbound (x : Option Binary64) :
      (x.toList.flatMap fun b => withoutDigits [b]) = withoutDigits x.toList := by
    cases x with
    | none => rfl
    | some b => exact List.flatMap_singleton _ b
  simp [toEntries, Json.lengthEntry, bounds, withoutDigits_append, hbound]

theorem PropertyFragment.nulls_toJson (p : PropertyFragment) :
    p.toJson.nulls = withoutDigits p.allBounds := by
  induction p with
  | ref pointer required => simp [toJson, allBounds]
  | array type items description required ih => simp [toJson, allBounds, ih]
  | object type names ps description required ih =>
    have hproperties : entryNulls (entriesToJson ps) = withoutDigits (entriesBounds ps) := by
      rw [entriesToJson_eq, entryNulls_eq, List.flatMap_map, entriesBounds_eq,
        withoutDigits_flatMap]
      exact List.flatMap_congr ih
    simp [toJson, allBounds, hproperties]
  | scalar s => simp [toJson, ScalarFragment.toJson, allBounds, s.validation.entryNulls_toEntries]

theorem ModelFragment.nulls_toJson (a : ModelFragment) :
    a.toJson.nulls = withoutDigits a.allBounds := by
  rw [← toJson_inline a false, PropertyFragment.nulls_toJson, allBounds_inline]

theorem ParameterFragment.nulls_toJson (q : ParameterFragment) :
    q.toJson.nulls = withoutDigits q.allBounds := by
  cases q with
  | plain location outside a =>
    have hitems : (a.items.toList.flatMap fun p => p.toJson.nulls) =
        withoutDigits (a.items.toList.flatMap PropertyFragment.allBounds) := by
      rw [withoutDigits_flatMap]
      exact List.flatMap_congr fun p _ => p.nulls_toJson
    simp [toJson, allBounds, withoutDigits_append, hitems, a.validation.entryNulls_toEntries]
  | body a => simp [toJson, allBounds, a.schema.nulls_toJson]

/-! ## Bounds in descriptions -/

namespace Property

/-- The bounds in a property. -/
def allBounds (p : Property) : List Binary64 := p.fragment.allBounds

theorem allBounds_object {names : List String} {ps : List (String × Property)}
    {description : Option String} {required : Bool} :
    (object names ps description required).allBounds = ps.flatMap fun e => e.2.allBounds := by
  rw [allBounds, fragment, PropertyFragment.allBounds, entryFragments_eq,
    PropertyFragment.entriesBounds_eq, List.flatMap_map]
  rfl

theorem nulls_toJson (p : Property) : p.toJson.nulls = withoutDigits p.allBounds :=
  p.fragment.nulls_toJson

end Property

/-- The bounds in a model. -/
def Model.allBounds (model : Model) : List Binary64 := model.fragment.allBounds

theorem Model.nulls_toJson (model : Model) :
    model.toJson.nulls = withoutDigits model.allBounds :=
  model.fragment.nulls_toJson

/-- The bounds in a parameter. -/
def Parameter.allBounds (q : Parameter) : List Binary64 := q.fragment.allBounds

theorem Parameter.allBounds_plain {location : Location} {outside : location ≠ .body}
    {a : PlainParameter} :
    (plain location outside a).allBounds =
      a.items.toList.flatMap Property.allBounds ++ a.validation.bounds := by
  show (a.items.map Property.fragment).toList.flatMap _ ++ _ = _
  rw [Option.toList_map, List.flatMap_map]
  rfl

theorem Parameter.nulls_toJson (q : Parameter) : q.toJson.nulls = withoutDigits q.allBounds :=
  q.fragment.nulls_toJson

/-! ## Artifacts -/

/-- What the conversions make of a mapping. -/
inductive Artifact where
  | property (p : Property)
  | model (model : Model)
  | parameter (q : Parameter)
  /-- The document of merged definitions. -/
  | definitions (d : Definitions)
  /-- The document of a list of parameters. -/
  | parameters (qs : List Parameter)

namespace Artifact

/-- An artifact, written. -/
def toJson : Artifact → Value
  | .property p => p.toJson
  | .model a => a.toJson
  | .parameter q => q.toJson
  | .definitions d => d.document
  | .parameters qs => Parameter.document qs

/-- The bounds in an artifact. -/
def allBounds : Artifact → List Binary64
  | .property p => p.allBounds
  | .model a => a.allBounds
  | .parameter q => q.allBounds
  | .definitions d => d.entries.flatMap fun e => e.2.allBounds
  | .parameters qs => qs.flatMap Parameter.allBounds

/-- The nulls in a written artifact are its bounds without digits. -/
theorem nulls_toJson (a : Artifact) : a.toJson.nulls = withoutDigits a.allBounds := by
  cases a with
  | property p => exact p.nulls_toJson
  | model model => exact model.nulls_toJson
  | parameter q => exact q.nulls_toJson
  | definitions d =>
    have hentries : entryNulls (d.entries.map fun e => (e.1, e.2.toJson)) =
        withoutDigits (d.entries.flatMap fun e => e.2.allBounds) := by
      rw [entryNulls_eq, List.flatMap_map, withoutDigits_flatMap]
      exact List.flatMap_congr fun e _ => e.2.nulls_toJson
    simpa [toJson, Definitions.document, allBounds] using hentries
  | parameters qs =>
    have hitems : (Value.array (qs.map Parameter.toJson)).nulls =
        withoutDigits (qs.flatMap Parameter.allBounds) := by
      rw [nulls_array, List.flatMap_map, withoutDigits_flatMap]
      exact List.flatMap_congr fun q _ => q.nulls_toJson
    simpa [toJson, Parameter.document, allBounds] using hitems

end Artifact

/-- A conversion of the mapping makes the artifact. -/
inductive Mapping.Makes (m : Mapping) : Artifact → Prop
  | property {p : Property} (h : m.toProperty = .ok p) : Makes m (.property p)
  | model {model : Model} (h : m.toModel = .ok model) : Makes m (.model model)
  | definition {ds : List (String × Model)} {e : String × Model} (h : m.definitions = .ok ds)
      (he : e ∈ ds) : Makes m (.model e.2)
  | definitions {ds : List (String × Model)} (h : m.definitions = .ok ds) :
      Makes m (.definitions (.assemble ds))
  | parameter {settings : Settings} {name : String} {qs : List Parameter} {q : Parameter}
      (h : m.toParameters settings name = .ok qs) (hq : q ∈ qs) : Makes m (.parameter q)
  | parameters {settings : Settings} {name : String} {qs : List Parameter}
      (h : m.toParameters settings name = .ok qs) : Makes m (.parameters qs)

/-! ## Bounds in artifacts are declared -/

/-- Keywords have the bounds that are declared last. -/
theorem Validation.mem_bounds_ofConstraints {cs : List Constraint} {x : Binary64}
    (h : x ∈ (ofConstraints cs).bounds) : .minimum x ∈ cs ∨ .maximum x ∈ cs := by
  have hmem {c : Constraint} (hc : (ofConstraints cs).States c) : c ∈ cs :=
    List.mem_reverse.mp (List.mem_of_find?_eq_some (states_ofConstraints_iff.mp hc).2)
  rw [bounds, List.mem_append, Option.mem_toList, Option.mem_toList] at h
  exact h.imp hmem hmem

namespace Mapping

variable {m : Mapping} {x : Binary64}

/-- A bound in the inline description of a node is declared by a node of its tree. -/
theorem exists_declares_of_toProperty {p : Property} (h : m.toProperty = .ok p)
    (hx : x ∈ p.allBounds) : ∃ n ∈ m.nodes, n.DeclaresBound x := by
  have hnested {k : Mapping} {q : Property} (hq : k.nestedProperty = .ok q) (hx : x ∈ q.allBounds)
      (ih : ∀ {q}, k.toProperty = .ok q → x ∈ q.allBounds → ∃ n ∈ k.nodes, n.DeclaresBound x) :
      ∃ n ∈ k.nodes, n.DeclaresBound x := by
    obtain ⟨_, -, rfl⟩ | ⟨-, hq⟩ := nestedProperty_eq_ok.mp hq
    · cases hx
    · exact ih hq hx
  induction m generalizing p with
  | scalar type t =>
    obtain ⟨_, _, -, -, rfl⟩ := toProperty_scalar_eq_ok.mp h
    exact ⟨_, self_mem_nodes _, Validation.mem_bounds_ofConstraints hx⟩
  | list element t ih =>
    obtain ⟨items, hitems, rfl⟩ := toProperty_list_eq_ok.mp h
    obtain ⟨n, hn, hdeclares⟩ := hnested hitems hx ih
    exact ⟨n, mem_nodes_of_element hn, hdeclares⟩
  | object fields t ih =>
    obtain ⟨ps, hps, rfl⟩ := toProperty_object_eq_ok.mp h
    rw [Property.allBounds_object, List.mem_flatMap] at hx
    obtain ⟨e, he, hx⟩ := hx
    obtain ⟨k, hk, hq⟩ := hps.exists_left (Entries.mem_of_mem_ofList he)
    obtain ⟨n, hn, hdeclares⟩ := hnested hq hx (ih _ hk)
    exact ⟨n, mem_nodes_of_field hk hn, hdeclares⟩

theorem exists_declares_of_toModel {model : Model} (h : m.toModel = .ok model)
    (hx : x ∈ model.allBounds) : ∃ n ∈ m.nodes, n.DeclaresBound x := by
  refine exists_declares_of_toProperty (exists_toProperty h) ?_
  cases model with
  | primitive type format description => cases hx
  | object names ps description => exact hx
  | array items description => exact hx

theorem exists_declares_of_definition {ds : List (String × Model)} {e : String × Model}
    (h : m.definitions = .ok ds) (he : e ∈ ds) (hx : x ∈ e.2.allBounds) :
    ∃ n ∈ m.nodes, n.DeclaresBound x := by
  obtain ⟨d, hd, hmodel⟩ := (definitions_eq_ok.mp h).exists_left he
  obtain ⟨n, hn, hdeclares⟩ := exists_declares_of_toModel hmodel hx
  exact ⟨n, mem_nodes_trans hn (mem_namedNodes.mp hd).1, hdeclares⟩

theorem exists_declares_of_parameter {settings : Settings} {name : String} {qs : List Parameter}
    {q : Parameter} (h : m.toParameters settings name = .ok qs) (hq : q ∈ qs)
    (hx : x ∈ q.allBounds) : ∃ n ∈ m.nodes, n.DeclaresBound x := by
  obtain ⟨k, hk, own, hown⟩ := exists_node_of_parameter h hq
  suffices hbelow : ∃ n ∈ k.nodes, n.DeclaresBound x by
    obtain ⟨n, hn, hdeclares⟩ := hbelow
    exact ⟨n, mem_nodes_trans hn hk, hdeclares⟩
  obtain ⟨-, schema, hschema, rfl⟩ | ⟨_, _, -, plain, hplain, rfl⟩ := toParameter_eq_ok.mp hown
  · exact exists_declares_of_toModel hschema hx
  · rw [Parameter.allBounds_plain, List.mem_append, List.mem_flatMap] at hx
    obtain ⟨items, hitems, hx⟩ | hx := hx
    · obtain ⟨element, t, rfl, helement⟩ :=
        items_of_toPlainParameter hplain (Option.mem_toList.mp hitems)
      obtain ⟨n, hn, hdeclares⟩ := exists_declares_of_toProperty helement hx
      exact ⟨n, mem_nodes_of_element hn, hdeclares⟩
    · obtain ⟨-, _, _, _, -, -, -, rfl⟩ := toPlainParameter_eq_ok.mp hplain
      exact ⟨k, self_mem_nodes k, Validation.mem_bounds_ofConstraints hx⟩

/-- A bound in an artifact is declared by a node. -/
theorem Makes.exists_declares {a : Artifact} (h : m.Makes a) (hx : x ∈ a.allBounds) :
    ∃ n ∈ m.nodes, n.DeclaresBound x := by
  cases h with
  | property h => exact exists_declares_of_toProperty h hx
  | model h => exact exists_declares_of_toModel h hx
  | definition h he => exact exists_declares_of_definition h he hx
  | definitions h =>
    obtain ⟨e, he, hx⟩ := List.mem_flatMap.mp hx
    exact exists_declares_of_definition h (Definitions.mem_of_mem_assemble he) hx
  | parameter h hq => exact exists_declares_of_parameter h hq hx
  | parameters h =>
    obtain ⟨q, hq, hx⟩ := List.mem_flatMap.mp hx
    exact exists_declares_of_parameter h hq hx

end Mapping

/-! ## Artifacts of documents -/

namespace Document

/-- **Nulls in artifacts.** The nulls in what is written of a mapping that a document holds are the
bounds without digits in it, each of which a node of the mapping declares. So there are none if the
document declares bounds with digits only, and a document in JSON does. -/
theorem nulls_of_makes {format : Format} {text : String} {m : Mapping} {a : Artifact}
    (h : mappingOfText format text = .ok m) (ha : m.Makes a) :
    a.toJson.nulls = withoutDigits a.allBounds ∧
      (∀ x ∈ a.allBounds, ∃ n ∈ m.nodes, n.DeclaresBound x) ∧
      (m.BoundsFinite → a.toJson.nulls = []) ∧
      (format = .json → m.BoundsFinite) := by
  refine ⟨a.nulls_toJson, fun x hx => ha.exists_declares hx, fun hfinite => ?_, ?_⟩
  · rw [a.nulls_toJson]
    refine Json.Value.withoutDigits_eq_nil fun x hx => ?_
    obtain ⟨n, hn, hdeclares⟩ := ha.exists_declares hx
    exact hfinite n hn x hdeclares
  · rintro rfl
    exact boundsFinite_of_json h

/-- A number with no greatest value but an infinite one. -/
def unlimited : Mapping := (Mapping.ofType .double).constrained (.maximum (.infinity false))

/-- A document in YAML that holds it. -/
def unlimitedText : String := "type: double\nmaximum: .inf"

theorem mappingOfText_unlimited : mappingOfText .yaml unlimitedText = .ok unlimited := by
  decide +kernel

/-- A number with a greatest value, in JSON. -/
def limitedText : String := "\x7b\"type\":\"double\",\"maximum\":1e3\x7d"

theorem nulls_of_makes_limited :
    ∃ m p q, mappingOfText .json limitedText = .ok m ∧ m.toProperty = .ok p ∧
      (Artifact.property p).toJson.nulls = [] ∧ mappingOfText .yaml unlimitedText = .ok unlimited ∧
      unlimited.toProperty = .ok q ∧
      (Artifact.property q).toJson.nulls = withoutDigits (Artifact.property q).allBounds := by
  have htext : mappingOfText .json limitedText =
      .ok ((Mapping.ofType .double).constrained (.maximum (.ofNat 1000))) := by decide +kernel
  obtain ⟨-, -, hfinite, hjson⟩ := nulls_of_makes htext (.property rfl)
  obtain ⟨hnulls, -⟩ := nulls_of_makes mappingOfText_unlimited (.property rfl)
  exact ⟨_, _, _, htext, rfl, hfinite (hjson rfl), mappingOfText_unlimited, rfl, hnulls⟩

/-- The greatest value is written as `null`. -/
theorem nullMaximum_written :
    ∃ p, mappingOfText .yaml unlimitedText = .ok unlimited ∧ unlimited.toProperty = .ok p ∧
      p.toJson.compact = "\x7b\"type\":\"number\",\"format\":\"double\",\"maximum\":null\x7d" ∧
      p.toJson.nulls ≠ [] := by
  refine ⟨_, mappingOfText_unlimited, rfl, by decide, ?_⟩
  rw [Property.nulls_toJson]
  exact List.cons_ne_nil _ _

end Document

end FieldSchema
