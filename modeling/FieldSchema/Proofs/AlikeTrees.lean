import FieldSchema.Proofs.Parameters

/-!
# Trees that are described alike

What a description takes from a node, and how far down it looks.

* `Mapping.Alike`: two trees of one shape, with related traits from the root down to the pairs of
  nodes at which the comparison stops. `Mapping.SameShape` is the case in which it stops nowhere.
* `Traits.DescribedAlike`: a description takes the same from the traits of both nodes.
* `Mapping.toProperty_eq_of_alike`, `Mapping.toModel_eq_of_alike`: such trees have the same
  description or the same error, if the comparison stops only at names (`Mapping.SamePointer`).
* `Mapping.definitions_eq_of_sameShape`, `Mapping.toParameters_eq_of_sameShape`: definitions and
  parameters look further down, so there the whole trees have to be alike.
* `Mapping.described_same_behind_names`: what stands behind a name may change in any way.
-/

namespace FieldSchema

/-! ## Alike traits -/

/-- A description takes the same from both. Of the extras it takes all but the location, and of the
constraints whether there is one of presence, whether there is one of being an email address, and
the keywords of the others. -/
structure Traits.DescribedAlike (t u : Traits) : Prop where
  isRequired_eq : t.isRequired = u.isRequired
  isEmail_eq : t.isEmail = u.isEmail
  refName_eq : t.refName = u.refName
  description_eq : t.extras.description = u.extras.description
  format_eq : t.extras.format = u.extras.format
  sample_eq : t.extras.sample = u.extras.sample
  validation_eq : Validation.ofConstraints t.constraints = .ofConstraints u.constraints

theorem Traits.DescribedAlike.of_eq {t u : Traits} (h : t = u) : t.DescribedAlike u := by
  subst h
  exact ⟨rfl, rfl, rfl, rfl, rfl, rfl, rfl⟩

namespace Mapping

/-! ## Alike trees -/

/-- In a nested place, both nodes are described by the same pointer. -/
def SamePointer (m n : Mapping) : Prop :=
  ∃ name, m.refName = some name ∧ n.refName = some name ∧ m.isRequired = n.isRequired

mutual

/-- Two trees of one shape, with related traits at each pair of nodes that is reached from the root
without passing a pair at which the comparison stops. -/
inductive Alike (R : Traits → Traits → Prop) (stop : Mapping → Mapping → Prop) :
    Mapping → Mapping → Prop
  | scalar {type : ScalarType} {t u : Traits} (h : R t u) :
      Alike R stop (.scalar type t) (.scalar type u)
  | list {element other : Mapping} {t u : Traits} (he : NestedAlike R stop element other)
      (h : R t u) : Alike R stop (.list element t) (.list other u)
  | object {fields others : List (String × Mapping)} {t u : Traits}
      (hf : List.Forall₂ (FieldAlike R stop) fields others) (h : R t u) :
      Alike R stop (.object fields t) (.object others u)

/-- What this means for two nodes in a nested place. -/
inductive NestedAlike (R : Traits → Traits → Prop) (stop : Mapping → Mapping → Prop) :
    Mapping → Mapping → Prop
  | stopped {m n : Mapping} (h : stop m n) : NestedAlike R stop m n
  | further {m n : Mapping} (h : Alike R stop m n) : NestedAlike R stop m n

/-- What this means for two fields. -/
inductive FieldAlike (R : Traits → Traits → Prop) (stop : Mapping → Mapping → Prop) :
    String × Mapping → String × Mapping → Prop
  | named {name : String} {m n : Mapping} (h : NestedAlike R stop m n) :
      FieldAlike R stop (name, m) (name, n)

end

/-- Two trees of one shape, with related traits at every pair of nodes. -/
def SameShape (R : Traits → Traits → Prop) : Mapping → Mapping → Prop := Alike R fun _ _ => False

variable {m n : Mapping} {fields others : List (String × Mapping)} {t u : Traits}
  {R S : Traits → Traits → Prop} {stop stop' : Mapping → Mapping → Prop} {settings : Settings}
  {name : String} {location : Location}

theorem agree_of_fieldAlike (h : List.Forall₂ (FieldAlike R stop) fields others) :
    Entries.Agree (NestedAlike R stop) fields others :=
  h.imp fun _ _ hf => by cases hf with | named hf => exact ⟨rfl, hf⟩

theorem fieldAlike_of_agree (h : Entries.Agree (NestedAlike R stop) fields others) :
    List.Forall₂ (FieldAlike R stop) fields others := by
  refine h.imp fun f g hf => ?_
  obtain ⟨name, m⟩ := f
  obtain ⟨_, n⟩ := g
  obtain ⟨rfl, hf⟩ := hf
  exact .named hf

theorem Alike.traits (h : m.Alike R stop n) : R m.traits n.traits := by
  cases h <;> assumption

theorem Alike.mono (hR : ∀ t u, R t u → S t u) (hstop : ∀ m n, stop m n → stop' m n)
    (h : m.Alike R stop n) : m.Alike S stop' n := by
  have hnested {m n : Mapping} (ih : ∀ n, m.Alike R stop n → m.Alike S stop' n)
      (h : m.NestedAlike R stop n) : m.NestedAlike S stop' n := by
    cases h with
    | stopped h => exact .stopped (hstop _ _ h)
    | further h => exact .further (ih _ h)
  induction m generalizing n with
  | scalar type t => cases h with | scalar h => exact .scalar (hR _ _ h)
  | list element t ih =>
    cases h with | list he h => exact .list (hnested (fun _ => ih) he) (hR _ _ h)
  | object fields t ih =>
    cases h with
    | object hf h =>
      refine .object (fieldAlike_of_agree ?_) (hR _ _ h)
      exact (agree_of_fieldAlike hf).imp_of_mem fun _ f g hf => hnested fun _ => ih _ hf

/-! ## Descriptions -/

theorem typeName_eq_of_alike (h : m.Alike R stop n) : m.typeName = n.typeName := by
  cases h <;> rfl

theorem format_eq_of_alike (h : m.Alike Traits.DescribedAlike stop n) : m.format = n.format := by
  have hformat : m.extras.format = n.extras.format := h.traits.format_eq
  unfold format
  rw [hformat]
  cases h with
  | @scalar type t u h => cases type <;> simp only [h.isEmail_eq]
  | list he h => rfl
  | object hf h => rfl

/-- In a nested place, a pair is described alike if its comparison stops at a pointer. -/
theorem nestedProperty_eq_of_alike
    (ih : ∀ n, m.Alike Traits.DescribedAlike SamePointer n → m.toProperty = n.toProperty)
    (h : m.NestedAlike Traits.DescribedAlike SamePointer n) :
    m.nestedProperty = n.nestedProperty := by
  cases h with
  | stopped h =>
    obtain ⟨name, hm, hn, hrequired⟩ := h
    rw [nestedProperty_of_refName hm, nestedProperty_of_refName hn, hrequired]
  | further h =>
    have hname : m.refName = n.refName := h.traits.refName_eq
    have hrequired : m.isRequired = n.isRequired := h.traits.isRequired_eq
    rw [nestedProperty, nestedProperty, orPointer, orPointer, hname, hrequired, ih n h]

theorem isRequired_eq_of_nestedAlike (h : m.NestedAlike Traits.DescribedAlike SamePointer n) :
    m.isRequired = n.isRequired := by
  cases h with
  | stopped h =>
    obtain ⟨_, -, -, hrequired⟩ := h
    exact hrequired
  | further h => exact h.traits.isRequired_eq

/-- Trees that are alike down to their pointers have the same inline description. -/
theorem toProperty_eq_of_alike (h : m.Alike Traits.DescribedAlike SamePointer n) :
    m.toProperty = n.toProperty := by
  induction m generalizing n with
  | scalar type t =>
    have hformat := format_eq_of_alike h
    cases h with
    | scalar h =>
      rw [toProperty, toProperty, scalarProperty, scalarProperty, hformat, h.isRequired_eq,
        h.description_eq, h.sample_eq, h.validation_eq]
  | list element t ih =>
    cases h with
    | @list _ other _ u he h =>
      have hitems : element.nestedProperty = other.nestedProperty :=
        nestedProperty_eq_of_alike (fun _ => ih) he
      rw [nestedProperty, nestedProperty] at hitems
      rw [toProperty, toProperty, hitems, h.description_eq, h.isRequired_eq]
  | object fields t ih =>
    cases h with
    | object hf h =>
      have hagree := agree_of_fieldAlike hf
      have hproperties := fieldProperties_eq_of_agree (hagree.imp_of_mem fun _ _ _ hmem =>
        nestedProperty_eq_of_alike fun _ => ih _ hmem)
      have hnames := requiredNames_eq_of_agree (hagree.imp_of_mem fun _ _ _ _ =>
        isRequired_eq_of_nestedAlike)
      rw [toProperty, toProperty, hproperties, hnames, h.description_eq, h.isRequired_eq]

/-- They have the same model. -/
theorem toModel_eq_of_alike (h : m.Alike Traits.DescribedAlike SamePointer n) :
    m.toModel = n.toModel := by
  have hrequired : m.isRequired = n.isRequired := h.traits.isRequired_eq
  have hsample : m.extras.sample = n.extras.sample := h.traits.sample_eq
  have hvalidation : m.validation = n.validation := h.traits.validation_eq
  have hproperty := toProperty_eq_of_alike h
  rw [toProperty_eq_map_toModel, toProperty_eq_map_toModel, hrequired, hsample, hvalidation]
    at hproperty
  exact map_injective (fun _ _ => Model.inline_injective) hproperty

/-- They make the same body parameter. Any other parameter looks behind the names, as `hplain`
says. -/
theorem toParameter_eq_of_alike (h : m.Alike Traits.DescribedAlike SamePointer n)
    (hlocation : m.extras.location = n.extras.location)
    (hplain : ∀ location ≠ .body, m.extras.location = some location →
      m.toPlainParameter settings name location = n.toPlainParameter settings name location) :
    m.toParameter settings name = n.toParameter settings name := by
  have hdescription : m.extras.description = n.extras.description := h.traits.description_eq
  have hrequired : m.isRequired = n.isRequired := h.traits.isRequired_eq
  rw [toParameter, toParameter, ← hlocation]
  cases hm : m.extras.location with
  | none => rfl
  | some location =>
    by_cases hbody : location = .body
    · simp only [hbody, dite_true]
      rw [toModel_eq_of_alike h, hdescription, hrequired]
    · simp only [hbody, dite_false]
      rw [hplain location hbody hm]

/-! ## Trees of one shape -/

namespace SameShape

theorem of_nestedAlike (h : m.NestedAlike R (fun _ _ => False) n) : m.SameShape R n := by
  cases h with
  | stopped h => exact h.elim
  | further h => exact h

theorem agree_fields (h : (object fields t).SameShape R (object others u)) :
    Entries.Agree (SameShape R) fields others := by
  cases h with
  | object hf h => exact (agree_of_fieldAlike hf).imp fun _ _ hf => ⟨hf.1, of_nestedAlike hf.2⟩

theorem mono (hR : ∀ t u, R t u → S t u) (h : m.SameShape R n) : m.SameShape S n :=
  Alike.mono hR (fun _ _ => False.elim) h

/-- The pairs of nodes, in the order of `nodes`. -/
theorem forall₂_nodes (h : m.SameShape R n) : List.Forall₂ (SameShape R) m.nodes n.nodes := by
  induction m generalizing n with
  | scalar type t =>
    cases h with
    | scalar h => exact .cons (.scalar h) .nil
  | list element t ih =>
    have hroot := h
    cases h with
    | list he h => exact .cons hroot (ih (of_nestedAlike he))
  | object fields t ih =>
    have hroot := h
    cases h with
    | @object _ others _ u hf h =>
      have hnodes : Entries.Agree (fun f g => List.Forall₂ (SameShape R) f.nodes g.nodes) fields
          others :=
        hroot.agree_fields.imp_of_mem fun _ _ _ hmem => ih _ hmem
      rw [nodes_eq, nodes_eq]
      exact .cons hroot (List.rel_flatMap hnodes fun _ _ hfg => hfg.2)

/-- The pairs of named nodes, where related traits have the same name. -/
theorem agree_namedNodes (hR : ∀ t u, R t u → t.refName = u.refName) (h : m.SameShape R n) :
    Entries.Agree (SameShape R) m.namedNodes n.namedNodes := by
  refine List.rel_flatMap h.forall₂_nodes fun m n hmn => ?_
  have hname : m.refName = n.refName := hR _ _ (Alike.traits hmn)
  rw [named, named, hname]
  split
  · exact .cons ⟨rfl, hmn⟩ .nil
  · exact .nil

theorem isPrimitive_eq (h : m.SameShape R n) (lists : Bool) :
    m.isPrimitive lists = n.isPrimitive lists := by
  induction m generalizing n with
  | scalar type t => cases h; rfl
  | list element t ih =>
    cases h with
    | list he h => rw [isPrimitive, isPrimitive, ih (of_nestedAlike he)]
  | object fields t ih => cases h; rfl

/-- The pairs of nodes that become parameters, where the roots have the same location. -/
theorem agree_parameterNodes (h : m.SameShape R n)
    (hlocation : m.extras.location = n.extras.location) (name : String) :
    Entries.Agree (SameShape R) (m.parameterNodes name) (n.parameterNodes name) := by
  cases hm : m.extras.location with
  | some location =>
    rw [parameterNodes_of_location hm, parameterNodes_of_location (hlocation ▸ hm)]
    exact .cons ⟨rfl, h⟩ .nil
  | none =>
    have hroot := h
    cases h with
    | scalar _ => exact .cons ⟨rfl, hroot⟩ .nil
    | list _ _ => exact .cons ⟨rfl, hroot⟩ .nil
    | object _ _ =>
      rw [parameterNodes_group hm, parameterNodes_group (hlocation ▸ hm)]
      exact hroot.agree_fields

end SameShape

/-- Trees of one shape that are described alike are alike down to their pointers. -/
theorem alike_of_sameShape (h : m.SameShape Traits.DescribedAlike n) :
    m.Alike Traits.DescribedAlike SamePointer n :=
  Alike.mono (fun _ _ => id) (fun _ _ => False.elim) h

/-- They have the same definitions. -/
theorem definitions_eq_of_sameShape (h : m.SameShape Traits.DescribedAlike n) :
    m.definitions = n.definitions := by
  have hnamed := h.agree_namedNodes fun _ _ hR => hR.refName_eq
  rw [definitions_eq, definitions_eq]
  refine mapM_eq_of_forall₂ (hnamed.imp fun d e hde => ?_)
  rw [definition, definition, hde.1, toModel_eq_of_alike (alike_of_sameShape hde.2)]

theorem itemsProperty_eq_of_sameShape (h : m.SameShape Traits.DescribedAlike n) :
    m.itemsProperty = n.itemsProperty := by
  cases h with
  | scalar h => rfl
  | list he h =>
    have he := alike_of_sameShape (.of_nestedAlike he)
    rw [itemsProperty, itemsProperty, toProperty_eq_of_alike he]
  | object hf h => rfl

theorem toPlainParameter_eq_of_sameShape (h : m.SameShape Traits.DescribedAlike n) :
    m.toPlainParameter settings name location = n.toPlainParameter settings name location := by
  have hdescription : m.extras.description = n.extras.description := h.traits.description_eq
  have hrequired : m.isRequired = n.isRequired := h.traits.isRequired_eq
  have hvalidation : m.validation = n.validation := h.traits.validation_eq
  rw [toPlainParameter, toPlainParameter, h.isPrimitive_eq, itemsProperty_eq_of_sameShape h,
    typeName_eq_of_alike h, format_eq_of_alike h, hdescription, hrequired, hvalidation]

/-- They have the same parameters, if they have the same locations at the root and at the nodes that
become parameters. -/
theorem toParameters_eq_of_sameShape (h : m.SameShape Traits.DescribedAlike n)
    (hlocation : m.extras.location = n.extras.location)
    (hlocations : List.Forall₂ (fun e f => e.2.extras.location = f.2.extras.location)
      (m.parameterNodes name) (n.parameterNodes name)) :
    m.toParameters settings name = n.toParameters settings name := by
  rw [toParameters_eq, toParameters_eq]
  refine mapM_eq_of_forall₂ (List.Forall₂.mp ?_ (h.agree_parameterNodes hlocation name) hlocations)
  intro e f hef hlocation
  rw [hef.1]
  exact toParameter_eq_of_alike (alike_of_sameShape hef.2) hlocation fun _ _ _ =>
    toPlainParameter_eq_of_sameShape hef.2

/-! ## Behind names -/

/-- **What stands behind a name is not described.** Take two trees that are equal except at named
nodes below the root and below these, where the nodes of a pair have the same name and both must be
present or neither. They have the same inline description, the same model and, carried in the body,
the same parameters, or the same errors. -/
theorem described_same_behind_names (h : m.Alike Eq SamePointer n) :
    m.toProperty = n.toProperty ∧ m.toModel = n.toModel ∧
    ∀ settings name, m.extras.location = some .body →
      m.toParameters settings name = n.toParameters settings name := by
  have hdescribed : m.Alike Traits.DescribedAlike SamePointer n :=
    h.mono (fun _ _ => .of_eq) fun _ _ => id
  refine ⟨toProperty_eq_of_alike hdescribed, toModel_eq_of_alike hdescribed,
    fun settings name hbody => ?_⟩
  have hlocation : m.extras.location = n.extras.location := congrArg (·.extras.location) h.traits
  have hplain : ∀ location ≠ .body, m.extras.location = some location →
      m.toPlainParameter settings name location = n.toPlainParameter settings name location :=
    fun location hne hm => absurd (Option.some.inj (hm.symm.trans hbody)) hne
  rw [toParameters_of_location hbody, toParameters_of_location (hlocation ▸ hbody),
    toParameter_eq_of_alike hdescribed hlocation hplain]

/-- The body of a request to deliver something, with these nodes behind the names in it. -/
def delivery (person address : Mapping) : Mapping :=
  (objectOf [("buyer", person.withName "Person"),
    ("route", objectOf [("stops", listOf (address.withName "Address"))])]).carriedIn .body

/-- A person becomes a single value of no known type and an address a list, and only the definitions
notice it. -/
theorem described_same_behind_names_delivery :
    let earlier := delivery (objectOf [("name", text)]) (objectOf [("street", text)])
    let later := delivery (ofType (.custom "human")) (listOf text)
    ∃ p model body, earlier.toProperty = .ok p ∧ later.toProperty = .ok p ∧
      earlier.toModel = .ok model ∧ later.toModel = .ok model ∧
      earlier.toParameters {} "delivery" = .ok [body] ∧
      later.toParameters {} "delivery" = .ok [body] ∧
      later.definitions = .error (.unsupportedType "human") := by
  intro earlier later
  have halike : later.Alike Eq SamePointer earlier :=
    .object (.cons (.named (.stopped ⟨"Person", rfl, rfl, rfl⟩))
      (.cons (.named (.further (.object (.cons (.named (.further
        (.list (.stopped ⟨"Address", rfl, rfl, rfl⟩) rfl))) .nil) rfl))) .nil)) rfl
  obtain ⟨hproperty, hmodel, hbody⟩ := described_same_behind_names halike
  exact ⟨_, _, _, rfl, hproperty, rfl, hmodel, rfl, hbody {} "delivery" rfl, rfl⟩

end Mapping

end FieldSchema
