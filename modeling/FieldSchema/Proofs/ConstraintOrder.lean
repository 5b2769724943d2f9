import FieldSchema.Proofs.AlikeTrees
import FieldSchema.Proofs.Keywords

/-!
# The order of constraints

A node may declare constraints of one kind several times, mixed with those of other kinds. Each
keyword is that of the last constraint of its kind, and presence and being an email address only
have to be declared somewhere. So the order matters within a kind, and between kinds it does not.

* `Traits.SameByKind`: traits that differ in the order of constraints of different kinds at most.
  Then their keywords are the same (`Traits.SameByKind.describedAlike`).
* `Mapping.constraint_order_within_kinds`: trees that differ only in this order, at any of their
  nodes, have the same descriptions, definitions and parameters.
-/

namespace FieldSchema

open Json (Value)

/-! ## Trees with reordered constraints -/

namespace Traits

variable {t u : Traits}

/-- The extras are the same, and so are the constraints of each kind, in order. How constraints of
different kinds are mixed does not matter. -/
structure SameByKind (t u : Traits) : Prop where
  extras_eq : t.extras = u.extras
  ofKind_eq : ∀ c : Constraint, c.ofKind t.constraints = c.ofKind u.constraints

namespace SameByKind

theorem refl (t : Traits) : t.SameByKind t := ⟨rfl, fun _ => rfl⟩

theorem contains_eq (h : t.SameByKind u) (c : Constraint) :
    t.constraints.contains c = u.constraints.contains c := by
  rw [Bool.eq_iff_iff, List.contains_iff_mem, List.contains_iff_mem, ← Constraint.mem_ofKind,
    h.ofKind_eq, Constraint.mem_ofKind]

theorem describedAlike (h : t.SameByKind u) : t.DescribedAlike u where
  isRequired_eq := h.contains_eq .required
  isEmail_eq := h.contains_eq .email
  refName_eq := by rw [refName, h.extras_eq, refName]
  description_eq := by rw [h.extras_eq]
  format_eq := by rw [h.extras_eq]
  sample_eq := by rw [h.extras_eq]
  validation_eq := by
    rw [Validation.ofConstraints_eq_ofLast, Validation.ofConstraints_eq_ofLast,
      Validation.ofLast_eq_of_ofKind h.ofKind_eq]

end SameByKind

end Traits

namespace Mapping

variable {m n : Mapping} {settings : Settings} {name : String}

/-- Trees with the same constraints of each kind at every node have the same parameters. -/
theorem toParameters_eq_of_sameByKind (h : m.SameShape Traits.SameByKind n) :
    m.toParameters settings name = n.toParameters settings name := by
  have hlocation {m n : Mapping} (h : m.SameShape Traits.SameByKind n) :
      m.extras.location = n.extras.location :=
    congrArg Extras.location (Alike.traits h).extras_eq
  exact toParameters_eq_of_sameShape (h.mono fun _ _ => Traits.SameByKind.describedAlike)
    (hlocation h) ((h.agree_parameterNodes (hlocation h) name).imp fun _ _ hef => hlocation hef.2)

/-- **The order of constraints matters only within a kind.** Each keyword of a node is the argument
of the last constraint of its kind, and absent without one; so a choice is taken back by a last one
from no values. What is written of the keywords is what these last constraints are written as.
Replace the constraints at any nodes of a tree by others that are the same, in order, among each
kind. The tree keeps its inline description, its model, its definitions and, under all names and
settings, its parameters, or the errors in their place. -/
theorem constraint_order_within_kinds (m : Mapping) :
    m.validation = .ofLast m.constraints ∧
    (∀ e, e ∈ m.validation.toEntries ↔
      ∃ c : Constraint, (c.ofKind m.constraints).getLast? = some c ∧ c.keyword? = some e) ∧
    ∀ n, m.SameShape Traits.SameByKind n →
      m.toProperty = n.toProperty ∧ m.toModel = n.toModel ∧ m.definitions = n.definitions ∧
      ∀ settings name, m.toParameters settings name = n.toParameters settings name := by
  refine ⟨Validation.ofConstraints_eq_ofLast _, fun e => Validation.mem_toEntries_ofConstraints_iff,
    fun n h => ?_⟩
  have hdescribed : m.SameShape Traits.DescribedAlike n :=
    h.mono fun _ _ => Traits.SameByKind.describedAlike
  have halike := alike_of_sameShape hdescribed
  exact ⟨toProperty_eq_of_alike halike, toModel_eq_of_alike halike,
    definitions_eq_of_sameShape hdescribed, fun _ _ => toParameters_eq_of_sameByKind h⟩

/-- The constraints of a code; the choice is taken back. -/
def codeConstraints : List Constraint :=
  [.oneOf ["a", "b"], .pattern "[a-z]+", .required, .minLength 1, .oneOf [], .pattern "[a-b]+",
    .email, .minLength 2]

/-- The same constraints, kind by kind. -/
def sortedCodeConstraints : List Constraint :=
  [.required, .email, .pattern "[a-z]+", .pattern "[a-b]+", .minLength 1, .minLength 2,
    .oneOf ["a", "b"], .oneOf []]

/-- A search by codes, with constraints for its parameters and for the codes below these. -/
def codeSearch (above below : List Constraint) : Mapping :=
  objectOf [
    ("code", .scalar .text { constraints := above, extras := { location := some .query } }),
    ("codes", .list (.scalar .text { constraints := below })
      { constraints := above, extras := { location := some .query } }),
    ("order", .object [("code", .scalar .text { constraints := below })]
      { constraints := above, extras := { location := some .body, refName := some "Order" } })]

theorem constraint_order_within_kinds_codes :
    let code := Mapping.scalar .text { constraints := codeConstraints }
    let earlier := codeSearch codeConstraints codeConstraints
    let later := codeSearch codeConstraints sortedCodeConstraints
    code.validation = { pattern := some "[a-b]+", minLength := some 2 } ∧
    ("pattern", Value.string "[a-b]+") ∈ code.validation.toEntries ∧
    (∀ value, ("enum", value) ∉ code.validation.toEntries) ∧
    ∃ p model ds qs, earlier.toProperty = .ok p ∧ later.toProperty = .ok p ∧
      earlier.toModel = .ok model ∧ later.toModel = .ok model ∧
      earlier.definitions = .ok ds ∧ later.definitions = .ok ds ∧
      earlier.toParameters {} "" = .ok qs ∧ later.toParameters {} "" = .ok qs := by
  intro code earlier later
  obtain ⟨hvalidation, hwritten, -⟩ := constraint_order_within_kinds code
  have hcode : Traits.SameByKind { constraints := sortedCodeConstraints }
      { constraints := codeConstraints } :=
    ⟨rfl, fun c => by cases c <;> rfl⟩
  have hshape : later.SameShape Traits.SameByKind earlier :=
    .object (.cons (.named (.further (.scalar (.refl _))))
      (.cons (.named (.further (.list (.further (.scalar hcode)) (.refl _))))
        (.cons (.named (.further (.object (.cons (.named (.further (.scalar hcode))) .nil)
          (.refl _)))) .nil))) (.refl _)
  obtain ⟨-, -, hsame⟩ := constraint_order_within_kinds later
  obtain ⟨hproperty, hmodel, hdefinitions, hparameters⟩ := hsame earlier hshape
  refine ⟨hvalidation, (hwritten _).mpr ⟨.pattern "[a-b]+", rfl, rfl⟩, fun value hvalue => ?_,
    _, _, _, _, rfl, hproperty, rfl, hmodel, rfl, hdefinitions, rfl, hparameters {} ""⟩
  obtain ⟨c, hlast, hkeyword⟩ := (hwritten _).mp hvalue
  cases c with
  | oneOf values =>
    cases hlast
    cases hkeyword
  | _ => simp [Constraint.keyword?] at hkeyword

end Mapping

end FieldSchema
