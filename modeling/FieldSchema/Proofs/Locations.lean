import FieldSchema.Proofs.AlikeTrees

/-!
# Locations

A location says where a request carries a node. Descriptions and definitions do not look at it, and
parameters look at it in two places: at the root, which is a group only without a location, and at
each node that becomes a parameter.

* `Traits.SameButLocation`: traits that differ in the location at most.
* `Mapping.locations_place_parameters`: trees that differ only in locations are described alike, and
  have the same parameters if the locations differ only below the nodes that become parameters.
-/

namespace FieldSchema

namespace Traits

variable {t u : Traits}

/-- The traits without a location. -/
def withoutLocation (t : Traits) : Traits :=
  { t with extras := { t.extras with location := none } }

/-- The two differ in the location at most. -/
def SameButLocation (t u : Traits) : Prop := t.withoutLocation = u.withoutLocation

theorem SameButLocation.describedAlike (h : t.SameButLocation u) : t.DescribedAlike u := by
  have hconstraints : t.constraints = u.constraints := congrArg (·.constraints) h
  have hname : t.extras.refName = u.extras.refName := congrArg (·.extras.refName) h
  exact {
    isRequired_eq := by rw [isRequired, hconstraints, isRequired]
    isEmail_eq := by rw [isEmail, hconstraints, isEmail]
    refName_eq := by rw [refName, hname, refName]
    description_eq := congrArg (·.extras.description) h
    format_eq := congrArg (·.extras.format) h
    sample_eq := congrArg (·.extras.sample) h
    validation_eq := by rw [hconstraints] }

end Traits

namespace Mapping

variable {m n : Mapping}

/-- **Locations only place parameters.** Two trees that differ only in the locations of their nodes
have the same inline description, the same model and the same definitions, or the same errors. They
have the same parameters too, under all names and settings, if the locations differ only below the
nodes that become parameters. -/
theorem locations_place_parameters (h : m.SameShape Traits.SameButLocation n) :
    m.toProperty = n.toProperty ∧ m.toModel = n.toModel ∧ m.definitions = n.definitions ∧
    ∀ settings name, m.extras.location = n.extras.location →
      List.Forall₂ (fun e f => e.2.extras.location = f.2.extras.location)
        (m.parameterNodes name) (n.parameterNodes name) →
      m.toParameters settings name = n.toParameters settings name := by
  have hdescribed : m.SameShape Traits.DescribedAlike n :=
    h.mono fun _ _ => Traits.SameButLocation.describedAlike
  have halike := alike_of_sameShape hdescribed
  exact ⟨toProperty_eq_of_alike halike, toModel_eq_of_alike halike,
    definitions_eq_of_sameShape hdescribed,
    fun _ _ => toParameters_eq_of_sameShape hdescribed⟩

/-- The request for a pet, with locations also for the elements and the fields of its parameters,
which are none of the parameters. -/
def placedPetRequest : Mapping :=
  objectOf [("id", int.carriedIn .path), ("tags", (listOf (text.carriedIn .header)).carriedIn .query),
    ("data", (objectOf [("name", text.required.carriedIn .path)]).carriedIn .body)]

theorem locations_place_parameters_petRequest :
    ∃ qs, petRequest.toParameters {} "" = .ok qs ∧ placedPetRequest.toParameters {} "" = .ok qs ∧
      placedPetRequest.toModel = petRequest.toModel := by
  have hshape : placedPetRequest.SameShape Traits.SameButLocation petRequest :=
    .object (.cons (.named (.further (.scalar rfl)))
      (.cons (.named (.further (.list (.further (.scalar rfl)) rfl)))
        (.cons (.named (.further (.object (.cons (.named (.further (.scalar rfl))) .nil) rfl)))
          .nil))) rfl
  obtain ⟨-, hmodel, -, hparameters⟩ := locations_place_parameters hshape
  exact ⟨_, rfl, hparameters {} "" rfl (.cons rfl (.cons rfl (.cons rfl .nil))), hmodel⟩

end Mapping

end FieldSchema
