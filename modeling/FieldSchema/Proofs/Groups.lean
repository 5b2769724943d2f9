import FieldSchema.Proofs.Parameters

/-!
# Groups of parameters

An object without a location is a group: each of its fields is a parameter on its own, under its own
name. A field is never a group in turn, so it needs a location, whatever its own fields have.

* `Mapping.toParameters_group`: a group is made field by field.
* `Mapping.toParameter_eq_ok_iff_alone`, `Mapping.failure?_toParameter_eq_some`: what comes of a
  field, by what comes of it alone.
* `Mapping.group_fieldwise`: the parameters of a group, or its error, by what comes of each of its
  fields alone.
-/

namespace FieldSchema

namespace Mapping

variable {m : Mapping} {fields : List (String × Mapping)} {t : Traits} {settings : Settings}
  {name : String} {location : Location} {q : Parameter} {e : SchemaError}

/-! ## One field -/

theorem toParameter_of_no_location (h : m.extras.location = none) :
    m.toParameter settings name = .error .missingLocation := by
  rw [toParameter, h]

theorem name_of_toParameter (h : m.toParameter settings name = .ok q) : q.name = name := by
  rcases toParameter_eq_ok.mp h with ⟨-, _, -, rfl⟩ | ⟨_, _, -, p, hp, rfl⟩
  · rfl
  · obtain ⟨-, _, _, _, -, -, -, rfl⟩ := toPlainParameter_eq_ok.mp hp
    rfl

/-- A field becomes a parameter if it has a location and is one parameter on its own. -/
theorem toParameter_eq_ok_iff_alone :
    m.toParameter settings name = .ok q ↔
      m.extras.location ≠ none ∧ m.toParameters settings name = .ok [q] := by
  cases h : m.extras.location with
  | none =>
    rw [toParameter_of_no_location h]
    exact iff_of_false nofun fun h => h.1 rfl
  | some location =>
    rw [toParameters_of_location h, bind_eq_ok]
    simp [pure_eq_ok]

/-- A field fails because it has no location, or as it does on its own. -/
theorem failure?_toParameter_eq_some :
    failure? (m.toParameter settings name) = some e ↔
      (m.extras.location = none ∧ e = .missingLocation) ∨
      (m.extras.location ≠ none ∧ m.toParameters settings name = .error e) := by
  cases h : m.extras.location with
  | none =>
    rw [toParameter_of_no_location h]
    simp [failure?, eq_comm]
  | some location =>
    rw [← failure?_eq_some (x := m.toParameters settings name), toParameters_of_location h,
      failure?_bind_pure]
    simp

/-- A field does not fail if and only if it has a location and does not fail on its own. -/
theorem failure?_toParameter_eq_none :
    failure? (m.toParameter settings name) = none ↔
      m.extras.location ≠ none ∧ ∃ qs, m.toParameters settings name = .ok qs := by
  rw [failure?_eq_none]
  simp only [toParameter_eq_ok_iff_alone]
  constructor
  · rintro ⟨q, h, hq⟩
    exact ⟨h, [q], hq⟩
  · rintro ⟨h, qs, hqs⟩
    obtain ⟨location, hlocation⟩ := Option.ne_none_iff_exists'.mp h
    rw [toParameters_of_location hlocation] at hqs
    obtain ⟨q, hq, -⟩ := bind_eq_ok.mp hqs
    exact ⟨q, toParameter_eq_ok_iff_alone.mp hq⟩

/-! ## All fields -/

/-- A group is made field by field. Its name and its other traits are not looked at. -/
theorem toParameters_group (h : t.extras.location = none) :
    (object fields t).toParameters settings name =
      fields.mapM fun f => f.2.toParameter settings f.1 := by
  rw [toParameters_eq, parameterNodes_group h]

/-- **Groups are field-wise.** A group returns, in order, the single parameter of each of its fields
on its own, under the name of the field. It returns exactly if every field has a location and
returns on its own. Its error is that of the first field for which this fails: the missing location
if the field has none, whatever stands below it, and otherwise the error of the field on its own.
None of this depends on the name or the traits of the group. -/
theorem group_fieldwise (h : t.extras.location = none) (settings : Settings) (name : String) :
    (∀ qs, (object fields t).toParameters settings name = .ok qs ↔
      List.Forall₂ (fun f q => (f.2.extras.location ≠ none ∧
        f.2.toParameters settings f.1 = .ok [q]) ∧ q.name = f.1) fields qs) ∧
    ((∃ qs, (object fields t).toParameters settings name = .ok qs) ↔
      ∀ f ∈ fields, f.2.extras.location ≠ none ∧ ∃ qs, f.2.toParameters settings f.1 = .ok qs) ∧
    (∀ e, (object fields t).toParameters settings name = .error e ↔
      ∃ before f after, fields = before ++ f :: after ∧
        ((f.2.extras.location = none ∧ e = .missingLocation) ∨
          (f.2.extras.location ≠ none ∧ f.2.toParameters settings f.1 = .error e)) ∧
        ∀ k ∈ before, k.2.extras.location ≠ none ∧ ∃ qs, k.2.toParameters settings k.1 = .ok qs) ∧
    ∀ other u, u.extras.location = none →
      (object fields u).toParameters settings other =
        (object fields t).toParameters settings name := by
  have hfailure : failure? ((object fields t).toParameters settings name) =
      fields.findSome? fun f => failure? (f.2.toParameter settings f.1) := by
    rw [toParameters_group h, failure?_mapM]
  refine ⟨fun qs => ?_, ?_, fun e => ?_, fun other u hu => ?_⟩
  · rw [toParameters_group h, mapM_eq_ok]
    simp only [← toParameter_eq_ok_iff_alone]
    constructor
    · exact fun hqs => hqs.imp fun f q hq => ⟨hq, name_of_toParameter hq⟩
    · exact fun hqs => hqs.imp fun f q hq => hq.1
  · rw [← failure?_eq_none, hfailure, List.findSome?_eq_none_iff]
    simp only [failure?_toParameter_eq_none]
  · rw [← failure?_eq_some, hfailure, List.findSome?_eq_some_iff]
    simp only [failure?_toParameter_eq_some, failure?_toParameter_eq_none]
  · rw [toParameters_group hu, toParameters_group h]

/-- The request for a pet is a group, and each of its fields has a location. As a field of another
group it has none itself. -/
theorem group_fieldwise_petRequest :
    (∃ qs, petRequest.toParameters {} "pet" = .ok qs ∧
      qs.map Parameter.name = ["id", "tags", "data"]) ∧
    (objectOf [("id", int.carriedIn .path), ("pet", petRequest)]).toParameters {} "" =
      .error .missingLocation := by
  refine ⟨⟨_, rfl, rfl⟩, ((group_fieldwise rfl {} "").2.2.1 _).mpr ?_⟩
  refine ⟨[("id", int.carriedIn .path)], ("pet", petRequest), [], rfl, .inl ⟨rfl, rfl⟩, ?_⟩
  intro k hk
  rw [List.mem_singleton.mp hk]
  exact ⟨nofun, _, rfl⟩

end Mapping

end FieldSchema
