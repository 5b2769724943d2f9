import FieldSchema.Schema.Parameter
import FieldSchema.Proofs.Paths

/-!
# Parameters of a tree

* `Mapping.parameterNodes`: the nodes that become parameters, each under the name of its parameter.
  `Mapping.toParameters_eq_ok` says that the parameters are those of these nodes, in order.
* `Mapping.toParameter_eq_ok`, `Mapping.toPlainParameter_eq_ok`: what it takes for a node to be a
  parameter, and which parameter it is.
* `Mapping.typeName?_ne_object_of_isPrimitive`: a node that needs no object is described without
  one, at any depth.
* `Mapping.parameters_wellFormed`: every parameter of a tree fits the node it was made from, as
  `Parameter.WellFormed` says.
-/

namespace FieldSchema

namespace Mapping

variable {m element : Mapping} {t : Traits} {settings : Settings} {name : String}
  {location : Location} {lists : Bool} {p : Property} {path : Path}

/-! ## The parameter of a node -/

theorem toPlainParameter_eq_ok {q : PlainParameter} :
    m.toPlainParameter settings name location = .ok q ↔
      m.isPrimitive settings.primitiveListParams ∧
      ∃ items type format, m.itemsProperty = .ok items ∧ m.typeName = .ok type ∧
        m.format = .ok format ∧ q = {
          name := name
          description := m.extras.description
          required := location == .path || m.isRequired
          type := type
          format := format
          items := items
          collectionFormat := items.bind fun _ => settings.collectionFormat
          validation := m.validation } := by
  rw [toPlainParameter]
  by_cases hm : m.isPrimitive settings.primitiveListParams
  · simp only [hm, Bool.not_true, Bool.false_eq_true, if_false, bind_eq_ok, pure_eq_ok, true_and]
    constructor
    · rintro ⟨items, hitems, type, htype, format, hformat, rfl⟩
      exact ⟨items, type, format, hitems, htype, hformat, rfl⟩
    · rintro ⟨items, type, format, hitems, htype, hformat, rfl⟩
      exact ⟨items, hitems, type, htype, format, hformat, rfl⟩
  · simp only [hm, Bool.not_false, if_true]
    exact iff_of_false nofun fun h => nomatch h.1

theorem toParameter_eq_ok {q : Parameter} :
    m.toParameter settings name = .ok q ↔
      (m.extras.location = some .body ∧ ∃ schema, m.toModel = .ok schema ∧ q = .body {
        name := name
        description := m.extras.description
        required := m.isRequired
        schema := schema }) ∨
      ∃ location, ∃ h : location ≠ .body, m.extras.location = some location ∧
        ∃ p, m.toPlainParameter settings name location = .ok p ∧ q = .plain location h p := by
  rw [toParameter]
  cases hm : m.extras.location with
  | none => simp
  | some location =>
    by_cases hbody : location = .body
    · simp only [hbody, dite_true, bind_eq_ok, pure_eq_ok]
      constructor
      · rintro ⟨schema, hschema, rfl⟩
        exact .inl ⟨trivial, schema, hschema, rfl⟩
      · rintro (⟨-, schema, hschema, rfl⟩ | ⟨_, hne, heq, -⟩)
        · exact ⟨schema, hschema, rfl⟩
        · exact absurd (Option.some.inj heq).symm hne
    · simp only [hbody, dite_false, bind_eq_ok, pure_eq_ok]
      constructor
      · rintro ⟨p, hp, rfl⟩
        exact .inr ⟨location, hbody, rfl, p, hp, rfl⟩
      · rintro (⟨heq, -⟩ | ⟨_, _, heq, p, hp, rfl⟩)
        · exact absurd (Option.some.inj heq) hbody
        · cases heq
          exact ⟨p, hp, rfl⟩

theorem itemsProperty_eq_ok {items : Option Property} :
    m.itemsProperty = .ok items ↔
      (∃ element t p, m = .list element t ∧ element.toProperty = .ok p ∧ items = some p) ∨
      ((∀ element t, m ≠ .list element t) ∧ items = none) := by
  cases m with
  | scalar type t => simp [itemsProperty, eq_comm]
  | list element t =>
    rw [itemsProperty, bind_eq_ok]
    simp only [pure_eq_ok]
    constructor
    · rintro ⟨p, hp, rfl⟩
      exact .inl ⟨element, t, p, rfl, hp, rfl⟩
    · rintro (⟨_, _, p, heq, hp, rfl⟩ | ⟨hne, -⟩)
      · cases heq
        exact ⟨p, hp, rfl⟩
      · exact absurd rfl (hne element t)
  | object fields t => simp [itemsProperty, eq_comm]

/-! ## The parameters of a tree -/

/-- The nodes that become parameters, under the names of the parameters: the fields of a group, or
otherwise the node itself. -/
def parameterNodes (name : String) (m : Mapping) : List (String × Mapping) :=
  match m, m.extras.location with
  | .object fields _, none => fields
  | _, _ => [(name, m)]

theorem parameterNodes_group {fields : List (String × Mapping)}
    (h : (object fields t).extras.location = none) :
    (object fields t).parameterNodes name = fields := by
  unfold parameterNodes
  rw [h]

theorem parameterNodes_of_location (h : m.extras.location = some location) :
    m.parameterNodes name = [(name, m)] := by
  unfold parameterNodes
  rw [h]
  cases m <;> rfl

theorem toParameters_eq (settings : Settings) (name : String) (m : Mapping) :
    m.toParameters settings name =
      (m.parameterNodes name).mapM fun e => e.2.toParameter settings e.1 := by
  have hsingle : (do let q ← m.toParameter settings name; return [q]) =
      [(name, m)].mapM fun e => e.2.toParameter settings e.1 := by
    rw [List.mapM_cons, List.mapM_nil]
    rfl
  cases m with
  | scalar type t => exact hsingle
  | list element t => exact hsingle
  | object fields t =>
    unfold toParameters parameterNodes
    cases (object fields t).extras.location with
    | none => rfl
    | some location => exact hsingle

/-- A node with a location is one parameter, also if it is an object. -/
theorem toParameters_of_location (h : m.extras.location = some location) :
    m.toParameters settings name = (do let q ← m.toParameter settings name; return [q]) := by
  rw [toParameters_eq, parameterNodes_of_location h, List.mapM_cons, List.mapM_nil]
  rfl

theorem toParameters_eq_ok {qs : List Parameter} :
    m.toParameters settings name = .ok qs ↔
      List.Forall₂ (fun e q => e.2.toParameter settings e.1 = .ok q) (m.parameterNodes name)
        qs := by
  rw [toParameters_eq, mapM_eq_ok]

theorem mem_nodes_of_parameterNodes {e : String × Mapping} (h : e ∈ m.parameterNodes name) :
    e.2 ∈ m.nodes := by
  unfold parameterNodes at h
  split at h
  · exact field_mem_nodes h _
  · rw [List.mem_singleton.mp h]
    exact self_mem_nodes _

/-! ## Nodes that need no object -/

theorem isPrimitive_element (h : (list element t).isPrimitive lists) :
    element.isPrimitive lists := by
  rw [isPrimitive, Bool.and_eq_true] at h
  exact h.2

/-- The type of a single value is that of a single value. -/
theorem typeName_scalar {type : ScalarType} {typeName : TypeName}
    (h : type.typeName = .ok typeName) :
    typeName ∈ [TypeName.integer, .number, .boolean, .string] := by
  cases type <;> cases h <;> decide

/-- Exactly the parameter of a list has items. -/
theorem isSome_items_iff {items : Option Property} {type : TypeName} {lists : Bool}
    (hm : m.isPrimitive lists) (hitems : m.itemsProperty = .ok items)
    (htype : m.typeName = .ok type) : items.isSome ↔ type = .array := by
  cases m with
  | scalar scalarType t =>
    cases hitems
    have hmem := typeName_scalar htype
    exact iff_of_false nofun (by rintro rfl; simp at hmem)
  | list element t =>
    obtain ⟨p, -, heq⟩ := bind_eq_ok.mp hitems
    cases heq
    cases htype
    exact iff_of_true rfl rfl
  | object fields t => cases hm

/-- No object stands in the description of a node that needs none. -/
theorem typeName?_ne_object_of_isPrimitive {q : Property} (hm : m.isPrimitive lists)
    (h : m.toProperty = .ok p) (hq : p.HasAt path q) : q.typeName? ≠ some .object := by
  induction m generalizing p path with
  | scalar type t =>
    obtain ⟨typeName, _, htype, -, rfl⟩ := toProperty_scalar_eq_ok.mp h
    cases hq
    have hmem := typeName_scalar htype
    intro hobject
    cases hobject
    simp at hmem
  | list element t ih =>
    obtain ⟨items, hitems, rfl⟩ := toProperty_list_eq_ok.mp h
    cases hq with
    | here => exact nofun
    | element hq =>
      rcases nestedProperty_eq_ok.mp hitems with ⟨_, -, rfl⟩ | ⟨-, hitems⟩
      · cases hq
        exact nofun
      · exact ih (isPrimitive_element hm) hitems hq
  | object fields t => cases hm

end Mapping

/-! ## Well-formed parameters -/

/-- A parameter outside the body fits the node it was made from. -/
structure PlainParameter.WellFormed (settings : Settings) (n : Mapping) (p : PlainParameter) :
    Prop where
  type_mem : p.type ∈ [TypeName.integer, .number, .boolean, .string, .array]
  items_iff_array : p.items.isSome ↔ p.type = .array
  items_iff_list : p.items.isSome ↔ ∃ element t, n = .list element t
  lists_allowed : p.type = .array → settings.primitiveListParams
  /-- The format of a list is stated exactly for a list, and as the settings have it. -/
  collectionFormat_iff :
    ∀ f, p.collectionFormat = some f ↔ p.items.isSome ∧ settings.collectionFormat = some f
  /-- No object stands at any depth of the items. -/
  no_object : ∀ items, p.items = some items →
    ∀ path q, items.HasAt path q → q.typeName? ≠ some .object

/-- A parameter fits the node it was made from. -/
structure Parameter.WellFormed (settings : Settings) (n : Mapping) (q : Parameter) : Prop where
  location_eq : n.extras.location = some q.location
  /-- A part of the path must always be given. -/
  isRequired_iff : q.isRequired ↔ q.location = .path ∨ n.isRequired
  schema_eq : ∀ b, q = .body b → n.toModel = .ok b.schema
  plain : ∀ location h p, q = .plain location h p → p.WellFormed settings n

namespace Mapping

variable {m n : Mapping} {settings : Settings} {name : String} {location : Location}

theorem plainParameter_wellFormed {p : PlainParameter}
    (h : n.toPlainParameter settings name location = .ok p) : p.WellFormed settings n := by
  obtain ⟨hprimitive, items, type, format, hitems, htype, -, rfl⟩ := toPlainParameter_eq_ok.mp h
  have harray := isSome_items_iff hprimitive hitems htype
  cases n with
  | scalar scalarType t =>
    cases hitems
    have hne : type ≠ .array := fun h => Bool.false_ne_true (harray.mpr h)
    exact {
      type_mem := List.mem_append_left [TypeName.array] (typeName_scalar htype)
      items_iff_array := harray
      items_iff_list := iff_of_false nofun nofun
      lists_allowed := fun harray => absurd harray hne
      collectionFormat_iff := fun f => iff_of_false nofun nofun
      no_object := nofun }
  | list element t =>
    obtain ⟨p, hp, heq⟩ := bind_eq_ok.mp hitems
    cases heq
    cases htype
    rw [isPrimitive, Bool.and_eq_true] at hprimitive
    exact {
      type_mem := by simp
      items_iff_array := harray
      items_iff_list := iff_of_true rfl ⟨element, t, rfl⟩
      lists_allowed := fun _ => hprimitive.1
      collectionFormat_iff := fun f => by simp
      no_object := by
        rintro items heq path q hq
        cases heq
        exact typeName?_ne_object_of_isPrimitive hprimitive.2 hp hq }
  | object fields t => cases hprimitive

theorem parameter_wellFormed {q : Parameter} (h : n.toParameter settings name = .ok q) :
    q.WellFormed settings n := by
  rcases toParameter_eq_ok.mp h with
    ⟨hlocation, schema, hschema, rfl⟩ | ⟨location, hbody, hlocation, p, hp, rfl⟩
  · exact {
      location_eq := hlocation
      isRequired_iff := by simp [Parameter.isRequired, Parameter.location]
      schema_eq := by
        rintro b heq
        cases heq
        exact hschema
      plain := by
        rintro _ _ _ heq
        cases heq }
  · exact {
      location_eq := hlocation
      isRequired_iff := by
        obtain ⟨-, _, _, _, -, -, -, rfl⟩ := toPlainParameter_eq_ok.mp hp
        simp [Parameter.isRequired, Parameter.location]
      schema_eq := nofun
      plain := by
        rintro _ _ _ heq
        cases heq
        exact plainParameter_wellFormed hp }

/-- **Parameters are well-formed.** The parameters of a tree are those of its fields, if it is a
group, and otherwise that of the tree itself. Each of them fits the node it was made from. -/
theorem parameters_wellFormed {qs : List Parameter}
    (h : m.toParameters settings name = .ok qs) :
    List.Forall₂ (fun e q => Parameter.WellFormed settings e.2 q) (m.parameterNodes name) qs :=
  (toParameters_eq_ok.mp h).imp fun _ _ => parameter_wellFormed

/-- The node, carried in this place of a request. -/
def carriedIn (m : Mapping) (location : Location) : Mapping :=
  m.withExtras { location := some location }

/-- A request for a pet: a number in the path, a list in the query, and an object as the body. -/
def petRequest : Mapping :=
  objectOf [("id", int.carriedIn .path), ("tags", (listOf text).carriedIn .query),
    ("data", (objectOf [("name", text.required)]).carriedIn .body)]

theorem parameters_wellFormed_petRequest :
    ∃ id tags data, petRequest.toParameters { collectionFormat := some .csv } "" =
        .ok [id, tags, data] ∧
      [id.location, tags.location, data.location] = [.path, .query, .body] ∧
      [id.isRequired, tags.isRequired, data.isRequired] = [true, false, false] ∧
      List.Forall₂ (fun e q => Parameter.WellFormed { collectionFormat := some .csv } e.2 q)
        (petRequest.parameterNodes "") [id, tags, data] :=
  ⟨_, _, _, rfl, rfl, rfl, parameters_wellFormed rfl⟩

end Mapping

end FieldSchema
