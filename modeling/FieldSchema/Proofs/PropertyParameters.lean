import FieldSchema.Proofs.Acceptance
import FieldSchema.Proofs.Unfolding

/-!
# Parameters and properties of a node

A node outside the body is described by a parameter, and within a body by a property. The two are
built apart from each other, but say the same of a single value. Of a list they say the same as
well, except that a parameter does not look at the name of the element.

* `Mapping.withoutName`: a node without its own name. `Mapping.toProperty_withoutName` says that the
  name makes no difference to the description of the node, and `Mapping.toProperty_list_withoutName`
  what difference it makes one step above.
* `PlainParameter.AgreesWith`: a parameter and a property say the same of a single value.
* `Mapping.parameters_agree_with_properties`: they do, and the items of a parameter are those of the
  list whose element is not named.
-/

namespace FieldSchema

/-- A parameter says of a single value what a property says. -/
structure PlainParameter.AgreesWith (q : PlainParameter) (s : ScalarProperty) : Prop where
  type_eq : q.type = s.type
  format_eq : q.format = s.format
  description_eq : q.description = s.description
  validation_eq : q.validation = s.validation

namespace Mapping

variable {m element : Mapping} {type : ScalarType} {t : Traits} {settings : Settings}
  {name : String} {location : Location} {q : PlainParameter}

/-! ## The name of a node -/

/-- The node without its own name. -/
def withoutName (m : Mapping) : Mapping := m.withTraits m.traits.withoutName

theorem refName_withoutName (m : Mapping) : m.withoutName.refName = none := by
  rw [refName, withoutName, traits_withTraits]
  rfl

/-- A node is described without a look at its own name. -/
theorem toProperty_withoutName (m : Mapping) : m.withoutName.toProperty = m.toProperty := by
  cases m with
  | scalar type t =>
    show (scalar type t.withoutName).toProperty = (scalar type t).toProperty
    rw [toProperty, toProperty, scalarProperty, scalarProperty, format_withoutName]
    rfl
  | list element t => rfl
  | object fields t => rfl

/-- The items of a list are the description of its element, if that one has no name. -/
theorem toProperty_list_withoutName (element : Mapping) (t : Traits) :
    (list element.withoutName t).toProperty =
      element.toProperty.map fun items => .array items t.extras.description t.isRequired := by
  have hitems : element.withoutName.nestedProperty = element.toProperty := by
    rw [nestedProperty_of_unnamed (refName_withoutName element), toProperty_withoutName]
  rw [toProperty, ← nestedProperty, hitems]
  cases element.toProperty <;> rfl

/-! ## Parameters of single values and of lists -/

/-- The parameter of a single value agrees with its property. -/
theorem exists_agreesWith (h : (scalar type t).toPlainParameter settings name location = .ok q) :
    ∃ s, (scalar type t).toProperty = .ok (.scalar s) ∧ q.AgreesWith s := by
  obtain ⟨-, _, typeName, format, -, htype, hformat, rfl⟩ := toPlainParameter_eq_ok.mp h
  exact ⟨_, toProperty_scalar_eq_ok.mpr ⟨typeName, format, htype, hformat, rfl⟩, rfl, rfl, rfl, rfl⟩

/-- The items of the parameter of a list are those of the list, were its element not named. -/
theorem exists_items (h : (list element t).toPlainParameter settings name location = .ok q) :
    q.type = .array ∧ q.description = t.extras.description ∧
      q.validation = .ofConstraints t.constraints ∧
      ∃ items, (list element.withoutName t).toProperty =
          .ok (.array items t.extras.description t.isRequired) ∧ q.items = some items := by
  obtain ⟨-, items, typeName, format, hitems, htype, -, rfl⟩ := toPlainParameter_eq_ok.mp h
  obtain ⟨p, hp, heq⟩ := bind_eq_ok.mp hitems
  cases heq
  cases htype
  refine ⟨rfl, rfl, rfl, p, ?_, rfl⟩
  rw [toProperty_list_withoutName, hp]
  rfl

/-- **Parameters agree with properties.** A node with a place outside the body, if it is accepted
under a name and settings, is one parameter there. If the node is a single value, it has a property
too, and the two have the same type, format, description and keywords. If it is a list, the type is
that of a list, the description and the keywords are its own, and the items are those of the
property that the list has when its element is not named. -/
theorem parameters_agree_with_properties {qs : List Parameter}
    (h : m.extras.location = some location) (hbody : location ≠ .body)
    (hqs : m.toParameters settings name = .ok qs) :
    ∃ q, qs = [.plain location hbody q] ∧
      (∀ type t, m = .scalar type t →
        ∃ s, m.toProperty = .ok (.scalar s) ∧ q.AgreesWith s) ∧
      ∀ element t, m = .list element t →
        q.type = .array ∧ q.description = m.extras.description ∧ q.validation = m.validation ∧
        ∃ items, (list element.withoutName t).toProperty =
            .ok (.array items m.extras.description m.isRequired) ∧ q.items = some items := by
  rw [toParameters_of_plain h hbody] at hqs
  obtain ⟨q, hq, rfl⟩ := map_eq_ok.mp hqs
  refine ⟨q, rfl, ?_, ?_⟩
  · rintro type t rfl
    exact exists_agreesWith hq
  · rintro element t rfl
    exact exists_items hq

/-- The least amount that is searched for, in a format of its own. -/
def leastAmount : Mapping :=
  ((ofType .double).constrained (.minimum (.zero false))).withExtras
    { location := some .header, description := some "least amount", format := some "money" }

/-- Rows of tags that are searched for. The rows have a name, and so have the tags. -/
def searchedRows : Mapping :=
  ((listOf ((listOf (text.withName "Tag")).withName "Row")).constrained (.maxLength 5)).withExtras
    { location := some .query, description := some "rows of tags" }

/-- The amount is described alike. The items of the rows are described where the property has a
pointer to them, down to the tags. -/
theorem parameters_agree_with_properties_search :
    ∃ amount rows s items hheader hquery,
      leastAmount.toParameters {} "amount" = .ok [.plain .header hheader amount] ∧
      leastAmount.toProperty = .ok (.scalar s) ∧ amount.AgreesWith s ∧
      s.format = some "money" ∧ s.validation = { minimum := some (.zero false) } ∧
      searchedRows.toParameters {} "rows" = .ok [.plain .query hquery rows] ∧
      rows.type = .array ∧ rows.validation = { maxLength := some 5 } ∧ rows.items = some items ∧
      searchedRows.toProperty =
        .ok (.array (.ref (definitionRef "Row") false) (some "rows of tags") false) ∧
      items = .array (.ref (definitionRef "Tag") false) none false := by
  have hamount : leastAmount.toParameters {} "amount" = .ok [_] := rfl
  have hrows : searchedRows.toParameters {} "rows" = .ok [_] := rfl
  obtain ⟨amount, ha, hsingle, -⟩ :=
    parameters_agree_with_properties rfl (by decide : Location.header ≠ .body) hamount
  obtain ⟨rows, hr, -, hlist⟩ :=
    parameters_agree_with_properties rfl (by decide : Location.query ≠ .body) hrows
  obtain ⟨s, hs, hagrees⟩ := hsingle _ _ rfl
  obtain ⟨htype, -, hvalidation, items, hproperty, hitems⟩ := hlist _ _ rfl
  rw [ha] at hamount
  rw [hr] at hrows
  cases hs
  cases hproperty
  exact ⟨amount, rows, _, _, _, _, hamount, rfl, hagrees, rfl, rfl, hrows, htype, hvalidation,
    hitems, rfl, rfl⟩

end Mapping

end FieldSchema
