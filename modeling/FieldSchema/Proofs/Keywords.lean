import FieldSchema.Schema.Json
import Mathlib.Data.List.Basic
import Mathlib.Data.List.Induction
import Mathlib.Tactic.MkIffOfInductiveProp

/-!
# Declared keywords

A node declares constraints in a list, in which a kind may occur several times. Its keywords are
those of the last constraint of each kind. Presence and being an email address are kinds without a
keyword, and a choice from no values takes an earlier choice back.

* `Constraint.sameKind`, `Constraint.ofKind`: the kinds, and the constraints of one kind in a list.
* `Validation.ofLast`: the keywords, each read off the last argument of its kind.
  `Validation.ofConstraints_eq_ofLast`: the keywords of a list are these.
* `Validation.States`: keywords state a constraint. `Validation.states_ofConstraints_iff`: those of a
  list state the last constraint of each kind, and nothing else.
* `Validation.mem_toEntries_ofConstraints_iff`: so what is written of them is what the last
  constraint of each kind is written as.
-/

namespace FieldSchema

open Json (Value)

variable {cs ds : List Constraint} {e : String × Value}

/-! ## Kinds of constraints -/

namespace Constraint

/-- Whether two constraints are of one kind. -/
def sameKind : Constraint → Constraint → Bool
  | .required, .required => true
  | .email, .email => true
  | .pattern _, .pattern _ => true
  | .minLength _, .minLength _ => true
  | .maxLength _, .maxLength _ => true
  | .minimum _, .minimum _ => true
  | .maximum _, .maximum _ => true
  | .oneOf _, .oneOf _ => true
  | _, _ => false

/-- The constraints of the kind of a constraint, in order. -/
def ofKind (c : Constraint) (cs : List Constraint) : List Constraint := cs.filter c.sameKind

@[simp] theorem sameKind_self (c : Constraint) : c.sameKind c = true := by cases c <;> rfl

theorem mem_ofKind {c : Constraint} : c ∈ c.ofKind cs ↔ c ∈ cs := by simp [ofKind]

end Constraint

/-! ## Keywords of the last constraints -/

namespace Constraint

/-- The expression of a pattern. -/
def pattern? : Constraint → Option String
  | .pattern expression => some expression
  | _ => none

/-- The length of a least length. -/
def minLength? : Constraint → Option UInt64
  | .minLength length => some length
  | _ => none

/-- The length of a greatest length. -/
def maxLength? : Constraint → Option UInt64
  | .maxLength length => some length
  | _ => none

/-- The bound of a least value. -/
def minimum? : Constraint → Option Binary64
  | .minimum bound => some bound
  | _ => none

/-- The bound of a greatest value. -/
def maximum? : Constraint → Option Binary64
  | .maximum bound => some bound
  | _ => none

/-- The values of a choice. -/
def oneOf? : Constraint → Option (List String)
  | .oneOf values => some values
  | _ => none

/-- Arguments that only one kind has are the same for the same constraints of this kind. -/
theorem filterMap_eq_of_ofKind {α : Type} {argument : Constraint → Option α} {c : Constraint}
    (h : c.ofKind cs = c.ofKind ds) (hkind : ∀ d, c.sameKind d = false → argument d = none) :
    cs.filterMap argument = ds.filterMap argument := by
  have hargument (cs : List Constraint) :
      (c.ofKind cs).filterMap argument = cs.filterMap argument := by
    rw [ofKind, List.filterMap_filter]
    refine List.filterMap_congr fun d _ => ?_
    cases hd : c.sameKind d with
    | true => rfl
    | false => rw [hkind d hd, ite_self]
  rw [← hargument cs, h, hargument ds]

end Constraint

namespace Validation

/-- The keywords, each from the last argument of its kind. Without one, the keyword is absent; so is
the choice if the last one is from no values. -/
def ofLast (cs : List Constraint) : Validation where
  pattern := (cs.filterMap Constraint.pattern?).getLast?
  minLength := (cs.filterMap Constraint.minLength?).getLast?
  maxLength := (cs.filterMap Constraint.maxLength?).getLast?
  minimum := (cs.filterMap Constraint.minimum?).getLast?
  maximum := (cs.filterMap Constraint.maximum?).getLast?
  oneOf := (cs.filterMap Constraint.oneOf?).getLast?.getD []

/-- One more constraint replaces the keyword of its kind and leaves the others. -/
theorem ofLast_append_singleton (cs : List Constraint) (c : Constraint) :
    ofLast (cs ++ [c]) = (ofLast cs).declare c := by
  cases c <;>
    simp [ofLast, declare, List.filterMap_append, Constraint.pattern?, Constraint.minLength?,
      Constraint.maxLength?, Constraint.minimum?, Constraint.maximum?, Constraint.oneOf?]

/-- The keywords of a list of constraints are those of the last constraint of each kind. -/
theorem ofConstraints_eq_ofLast (cs : List Constraint) : ofConstraints cs = ofLast cs := by
  -- from the end of the list, where the constraint stands that overrides
  induction cs using List.reverseRecOn with
  | nil => rfl
  | append_singleton cs c ih =>
    rw [ofLast_append_singleton, ← ih, ofConstraints, ofConstraints, List.foldl_append,
      List.foldl_cons, List.foldl_nil]

example : ofConstraints [.oneOf ["a"], .pattern "a", .minLength 1, .oneOf [], .pattern "b"] =
    { pattern := some "b", minLength := some 1 } := rfl

/-- The keywords depend on the constraints of each kind, not on how the kinds are mixed. -/
theorem ofLast_eq_of_ofKind (h : ∀ c : Constraint, c.ofKind cs = c.ofKind ds) :
    ofLast cs = ofLast ds := by
  have hpattern : cs.filterMap Constraint.pattern? = ds.filterMap Constraint.pattern? :=
    Constraint.filterMap_eq_of_ofKind (h (.pattern "")) ?_
  have hminLength : cs.filterMap Constraint.minLength? = ds.filterMap Constraint.minLength? :=
    Constraint.filterMap_eq_of_ofKind (h (.minLength 0)) ?_
  have hmaxLength : cs.filterMap Constraint.maxLength? = ds.filterMap Constraint.maxLength? :=
    Constraint.filterMap_eq_of_ofKind (h (.maxLength 0)) ?_
  have hminimum : cs.filterMap Constraint.minimum? = ds.filterMap Constraint.minimum? :=
    Constraint.filterMap_eq_of_ofKind (h (.minimum (.zero false))) ?_
  have hmaximum : cs.filterMap Constraint.maximum? = ds.filterMap Constraint.maximum? :=
    Constraint.filterMap_eq_of_ofKind (h (.maximum (.zero false))) ?_
  have honeOf : cs.filterMap Constraint.oneOf? = ds.filterMap Constraint.oneOf? :=
    Constraint.filterMap_eq_of_ofKind (h (.oneOf [])) ?_
  · rw [ofLast, ofLast, hpattern, hminLength, hmaxLength, hminimum, hmaximum, honeOf]
  -- an argument of one kind is none of another
  all_goals
    intro d
    cases d <;>
      simp [Constraint.sameKind, Constraint.pattern?, Constraint.minLength?, Constraint.maxLength?,
        Constraint.minimum?, Constraint.maximum?, Constraint.oneOf?]

end Validation

/-! ## Stated constraints -/

namespace Constraint

/-- There is a keyword for the constraint. Presence and being an email address have none, and a
choice from no values is not stated. -/
@[mk_iff]
structure IsKeyword (c : Constraint) : Prop where
  ne_required : c ≠ .required
  ne_email : c ≠ .email
  ne_oneOf_nil : c ≠ .oneOf []

end Constraint

namespace Validation

/-- The keywords state a constraint. -/
def States (v : Validation) : Constraint → Prop
  | .pattern p => v.pattern = some p
  | .minLength n => v.minLength = some n
  | .maxLength n => v.maxLength = some n
  | .minimum x => v.minimum = some x
  | .maximum x => v.maximum = some x
  | .oneOf values => v.oneOf = values ∧ values ≠ []
  | .required | .email => False

/-- Declaring a constraint replaces the one of its kind. -/
theorem states_declare_iff {v : Validation} {c d : Constraint} :
    (v.declare d).States c ↔ if c.sameKind d then c.IsKeyword ∧ d = c else v.States c := by
  cases c <;> cases d <;> simp [declare, States, Constraint.sameKind, Constraint.isKeyword_iff,
    and_comm]

/-- The keywords of a list of constraints state the last one of each kind. -/
theorem states_ofConstraints_iff {c : Constraint} :
    (ofConstraints cs).States c ↔ c.IsKeyword ∧ cs.reverse.find? c.sameKind = some c := by
  induction cs using List.reverseRecOn with
  | nil => cases c <;> simp [ofConstraints, States, eq_comm]
  | append_singleton cs d ih =>
    rw [ofConstraints, List.foldl_append, List.foldl_cons, List.foldl_nil, states_declare_iff,
      List.reverse_concat, List.find?_cons]
    cases c.sameKind d with
    | true => simp
    | false => exact ih

end Validation

/-! ## Written keywords -/

namespace Constraint

/-- The keyword that a constraint is written as, with its argument. Presence and being an email
address have none, and neither has a choice from no values. -/
def keyword? : Constraint → Option (String × Value)
  | .pattern expression => some ("pattern", .string expression)
  | .minLength length => some ("minLength", .nat length.toNat)
  | .maxLength length => some ("maxLength", .nat length.toNat)
  | .minimum bound => some ("minimum", .float bound)
  | .maximum bound => some ("maximum", .float bound)
  | .oneOf values => if values = [] then none else some ("enum", .strings values)
  | .required | .email => none

theorem isKeyword_of_keyword? {c : Constraint} (h : c.keyword? = some e) : c.IsKeyword := by
  rw [isKeyword_iff]
  refine ⟨?_, ?_, ?_⟩
  all_goals
    rintro rfl
    cases h

end Constraint

namespace Validation

/-- The keywords are written as the constraints that they state. -/
theorem mem_toEntries_iff {v : Validation} :
    e ∈ v.toEntries ↔ ∃ c : Constraint, v.States c ∧ c.keyword? = some e := by
  simp only [toEntries, Json.lengthEntry, List.mem_append, Json.mem_optionalEntry,
    Json.mem_stringsEntry, or_assoc]
  constructor
  · rintro (⟨p, hp, rfl⟩ | ⟨n, hn, rfl⟩ | ⟨n, hn, rfl⟩ | ⟨x, hx, rfl⟩ | ⟨x, hx, rfl⟩ | ⟨hne, rfl⟩)
    · exact ⟨.pattern p, hp, rfl⟩
    · exact ⟨.minLength n, hn, rfl⟩
    · exact ⟨.maxLength n, hn, rfl⟩
    · exact ⟨.minimum x, hx, rfl⟩
    · exact ⟨.maximum x, hx, rfl⟩
    · exact ⟨.oneOf v.oneOf, ⟨rfl, hne⟩, if_neg hne⟩
  · rintro ⟨c, hstates, he⟩
    cases c with
    | oneOf values =>
      obtain ⟨rfl, hne⟩ := hstates
      simp_all [Constraint.keyword?]
    | _ => simp_all [States, Constraint.keyword?]

/-- The keywords of a list of constraints are written as the last constraint of each kind. -/
theorem mem_toEntries_ofConstraints_iff :
    e ∈ (ofConstraints cs).toEntries ↔
      ∃ c : Constraint, (c.ofKind cs).getLast? = some c ∧ c.keyword? = some e := by
  rw [mem_toEntries_iff]
  refine exists_congr fun c => and_congr_left fun he => ?_
  rw [states_ofConstraints_iff, Constraint.ofKind, List.getLast?_filter,
    and_iff_right (Constraint.isKeyword_of_keyword? he)]

end Validation

end FieldSchema
