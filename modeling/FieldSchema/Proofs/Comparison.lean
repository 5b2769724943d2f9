import FieldSchema.Proofs.Entries
import FieldSchema.Proofs.Pointers

/-!
# Comparison of descriptions

`Property.same` and `Model.same` compare what is described. They ignore the order of properties and
the sign of a zero bound; a bound that is no number is not even the same as itself.

* `Property.ind`: induction on a property; the hypothesis for an object holds for each of its
  properties.
* `Property.same_array_iff`, `Property.same_object_iff` and so on: what is the same as a property,
  by the shape of the property.
* `Property.same_trans`, `Model.same_trans`: comparison is transitive.
* `Property.pointers_subset`, `Model.pointers_subset`: what compares the same has the same pointers.
* `Mapping.same_self_of_toProperty`, `Mapping.same_self_of_toModel`: the descriptions of a tree
  without such a bound are the same as themselves.
-/

namespace FieldSchema

/-! ## Single values -/

theorem Binary64.numEq_trans {x y z : Binary64} (hxy : x.numEq y) (hyz : y.numEq z) :
    x.numEq z := by
  cases x <;> cases y <;> cases z <;> grind [Binary64.numEq]

theorem Binary64.numEq_self {x : Binary64} (h : x ≠ .nan) : x.numEq x := by
  cases x with
  | nan => exact absurd rfl h
  | infinity negative => exact beq_self_eq_true negative
  | finite negative rank h => simp [Binary64.numEq]

theorem Binary64.optionSame_trans {x y z : Option Binary64} (hxy : optionSame x y)
    (hyz : optionSame y z) : optionSame x z := by
  cases x <;> cases y <;> cases z <;> simp only [optionSame, Bool.false_eq_true] at *
  exact numEq_trans hxy hyz

theorem Binary64.optionSame_self {x : Option Binary64} (h : x ≠ some .nan) : optionSame x x := by
  cases x with
  | none => rfl
  | some x => exact numEq_self fun hx => h (congrArg some hx)

theorem Validation.same_iff {v w : Validation} :
    v.same w ↔ v.pattern = w.pattern ∧ v.minLength = w.minLength ∧ v.maxLength = w.maxLength ∧
      Binary64.optionSame v.minimum w.minimum ∧ Binary64.optionSame v.maximum w.maximum ∧
      v.oneOf = w.oneOf := by
  simp only [same, Bool.and_eq_true, beq_iff_eq, and_assoc]

theorem Validation.same_trans {u v w : Validation} (huv : u.same v) (hvw : v.same w) :
    u.same w := by
  obtain ⟨h₁, h₂, h₃, h₄, h₅, h₆⟩ := same_iff.mp huv
  obtain ⟨k₁, k₂, k₃, k₄, k₅, k₆⟩ := same_iff.mp hvw
  exact same_iff.mpr ⟨h₁.trans k₁, h₂.trans k₂, h₃.trans k₃, Binary64.optionSame_trans h₄ k₄,
    Binary64.optionSame_trans h₅ k₅, h₆.trans k₆⟩

theorem Validation.same_self {v : Validation} (hmin : v.minimum ≠ some .nan)
    (hmax : v.maximum ≠ some .nan) : v.same v := by
  simp only [same, beq_self_eq_true, Bool.true_and, Bool.and_true, Bool.and_eq_true]
  exact ⟨Binary64.optionSame_self hmin, Binary64.optionSame_self hmax⟩

theorem Validation.same_empty : Validation.same {} {} := rfl

theorem ScalarProperty.same_iff {p q : ScalarProperty} :
    p.same q ↔ p.type = q.type ∧ p.format = q.format ∧ p.description = q.description ∧
      p.sample = q.sample ∧ p.validation.same q.validation ∧ p.required = q.required := by
  simp only [same, Bool.and_eq_true, beq_iff_eq, and_assoc]

theorem ScalarProperty.same_trans {p q r : ScalarProperty} (hpq : p.same q) (hqr : q.same r) :
    p.same r := by
  obtain ⟨h₁, h₂, h₃, h₄, h₅, h₆⟩ := same_iff.mp hpq
  obtain ⟨k₁, k₂, k₃, k₄, k₅, k₆⟩ := same_iff.mp hqr
  exact same_iff.mpr ⟨h₁.trans k₁, h₂.trans k₂, h₃.trans k₃, h₄.trans k₄,
    Validation.same_trans h₅ k₅, h₆.trans k₆⟩

theorem ScalarProperty.same_self {p : ScalarProperty} (h : p.validation.same p.validation) :
    p.same p := by
  simp only [same, beq_self_eq_true, Bool.true_and, Bool.and_true]
  exact h

/-! ## Properties -/

namespace Property

-- Two shapes are compared at once, so the equations are many. They are derived once, here.
attribute [local simp] same allFound

/-- Induction on properties. -/
@[elab_as_elim, induction_eliminator]
theorem ind {motive : Property → Prop} (ref : ∀ pointer required, motive (.ref pointer required))
    (array : ∀ items description required, motive items →
      motive (.array items description required))
    (object : ∀ names properties description required, (∀ e ∈ properties, motive e.2) →
      motive (.object names properties description required))
    (scalar : ∀ s, motive (.scalar s)) : ∀ p, motive p
  | .ref pointer required => ref pointer required
  | .array items description required =>
    array items description required (ind ref array object scalar items)
  | .object names properties description required =>
    object names properties description required fun e _ => ind ref array object scalar e.2
  | .scalar s => scalar s
termination_by p => p
decreasing_by
  · simp only [Property.array.sizeOf_spec]
    omega
  · rename_i he
    have hlt := List.sizeOf_lt_of_mem he
    obtain ⟨name, p⟩ := e
    simp only [Prod.mk.sizeOf_spec, Property.object.sizeOf_spec] at hlt ⊢
    omega

/-- Equally many named properties, and each of the first is found, the same, in the second. -/
def SameEntries (ps qs : Entries Property) : Prop :=
  ps.length = qs.length ∧ ∀ e ∈ ps, ∃ q, qs.find? e.1 = some q ∧ e.2.same q

variable {p q r items : Property} {ps qs rs : Entries Property} {names : List String}
  {description : Option String} {required : Bool} {pointer : String} {s : ScalarProperty}

theorem allFound_iff :
    allFound ps qs ↔ ∀ e ∈ ps, ∃ q, qs.find? e.1 = some q ∧ e.2.same q := by
  induction ps with
  | nil => simp
  | cons e ps ih =>
    rw [allFound, Bool.and_eq_true, ih, List.forall_mem_cons]
    refine and_congr ?_ Iff.rfl
    cases h : qs.find? e.1 <;> simp

theorem same_ref_iff : (ref pointer required).same q ↔ q = .ref pointer required := by
  cases q with
  | ref pointer' required' =>
    rw [same, Bool.and_eq_true, beq_iff_eq, beq_iff_eq, ref.injEq]
    exact and_congr eq_comm eq_comm
  | _ => simp

theorem same_array_iff :
    (array items description required).same q ↔
      ∃ items', q = .array items' description required ∧ items.same items' := by
  cases q with
  | array items' description' required' =>
    simp only [same, Bool.and_eq_true, beq_iff_eq, array.injEq]
    constructor
    · rintro ⟨⟨h, rfl⟩, rfl⟩
      exact ⟨items', ⟨rfl, rfl, rfl⟩, h⟩
    · rintro ⟨_, ⟨rfl, rfl, rfl⟩, h⟩
      exact ⟨⟨h, rfl⟩, rfl⟩
  | _ => simp

theorem same_object_iff :
    (object names ps description required).same q ↔
      ∃ qs, q = .object names qs description required ∧ SameEntries ps qs := by
  cases q with
  | object names' qs description' required' =>
    simp only [same, Bool.and_eq_true, beq_iff_eq, object.injEq, allFound_iff]
    constructor
    · rintro ⟨⟨⟨⟨rfl, hlen⟩, hfound⟩, rfl⟩, rfl⟩
      exact ⟨qs, ⟨rfl, rfl, rfl, rfl⟩, hlen, hfound⟩
    · rintro ⟨_, ⟨rfl, rfl, rfl, rfl⟩, hlen, hfound⟩
      exact ⟨⟨⟨⟨rfl, hlen⟩, hfound⟩, rfl⟩, rfl⟩
  | _ => simp

theorem same_scalar_iff : (scalar s).same q ↔ ∃ s', q = .scalar s' ∧ s.same s' := by
  cases q <;> simp

theorem SameEntries.found (h : SameEntries ps qs) : Entries.Found (fun p q => p.same q) ps qs := h

/-- Entries that agree, place for place, are the same. -/
theorem SameEntries.of_agree (h : Entries.Agree (fun p q => p.same q) ps qs)
    (hn : (Entries.keys qs).Nodup) : SameEntries ps qs :=
  Entries.Found.of_agree h hn

theorem SameEntries.trans (hpq : SameEntries ps qs) (hqr : SameEntries qs rs)
    (ih : ∀ e ∈ ps, ∀ q r, e.2.same q → q.same r → e.2.same r) : SameEntries ps rs := by
  refine ⟨hpq.1.trans hqr.1, fun e he => ?_⟩
  obtain ⟨q, hq, heq⟩ := hpq.2 e he
  obtain ⟨r, hr, hqr'⟩ := hqr.2 _ (Entries.mem_of_find? hq)
  exact ⟨r, hr, ih e he q r heq hqr'⟩

/-- Comparison is transitive. -/
theorem same_trans (hpq : p.same q) (hqr : q.same r) : p.same r := by
  induction p generalizing q r with
  | ref pointer required =>
    rw [same_ref_iff.mp hpq] at hqr
    exact hqr
  | array items description required ih =>
    obtain ⟨items', rfl, hitems⟩ := same_array_iff.mp hpq
    obtain ⟨items'', rfl, hitems'⟩ := same_array_iff.mp hqr
    exact same_array_iff.mpr ⟨items'', rfl, ih hitems hitems'⟩
  | object names ps description required ih =>
    obtain ⟨qs, rfl, hqs⟩ := same_object_iff.mp hpq
    obtain ⟨rs, rfl, hrs⟩ := same_object_iff.mp hqr
    exact same_object_iff.mpr ⟨rs, rfl, hqs.trans hrs fun e he q r => ih e he⟩
  | scalar s =>
    obtain ⟨s', rfl, hs⟩ := same_scalar_iff.mp hpq
    obtain ⟨s'', rfl, hs'⟩ := same_scalar_iff.mp hqr
    exact same_scalar_iff.mpr ⟨s'', rfl, ScalarProperty.same_trans hs hs'⟩

/-- What compares the same as a property has its pointers. -/
theorem pointers_subset (h : p.same q) : p.pointers ⊆ q.pointers := by
  induction p generalizing q with
  | ref pointer required =>
    rw [same_ref_iff.mp h]
    exact List.Subset.refl _
  | array items description required ih =>
    obtain ⟨items', rfl, hitems⟩ := same_array_iff.mp h
    rw [pointers, pointers]
    exact ih hitems
  | object names ps description required ih =>
    obtain ⟨qs, rfl, hqs⟩ := same_object_iff.mp h
    intro pointer hpointer
    obtain ⟨e, he, hep⟩ := mem_pointers_object.mp hpointer
    obtain ⟨q, hq, hsame⟩ := hqs.2 e he
    exact mem_pointers_object.mpr ⟨(e.1, q), Entries.mem_of_find? hq, ih e he hsame hep⟩
  | scalar s => exact List.nil_subset _

end Property

/-! ## Models -/

namespace Model

attribute [local simp] same

variable {a b c : Model}

theorem same_primitive_iff {type : TypeName} {format description : Option String} :
    a.same (.primitive type format description) ↔ a = .primitive type format description := by
  cases a <;> simp [and_assoc]

/-- Two models are compared as their inline descriptions are. -/
theorem same_inline (required : Bool) (sample : Option String) {validation : Validation}
    (hv : validation.same validation) :
    (a.inline required sample validation).same (b.inline required sample validation) =
      a.same b := by
  cases a <;> cases b <;>
    simp [inline, Property.same, ScalarProperty.same, hv]

theorem pointers_subset (h : a.same b) : a.pointers ⊆ b.pointers := by
  rw [← same_inline true none Validation.same_empty] at h
  have hsub := Property.pointers_subset h
  rwa [pointers_inline, pointers_inline] at hsub

end Model

/-! ## Descriptions of a tree -/

/-- Neither bound is a value that is no number. -/
def Validation.BoundsAreNumbers (v : Validation) : Prop :=
  v.minimum ≠ some .nan ∧ v.maximum ≠ some .nan

theorem Validation.BoundsAreNumbers.declare {v : Validation} {c : Constraint}
    (hv : v.BoundsAreNumbers) (hc : c ≠ .minimum .nan ∧ c ≠ .maximum .nan) :
    (v.declare c).BoundsAreNumbers := by
  cases c with
  | minimum x => exact ⟨fun hx => hc.1 (congrArg _ (Option.some.inj hx)), hv.2⟩
  | maximum x => exact ⟨hv.1, fun hx => hc.2 (congrArg _ (Option.some.inj hx))⟩
  | _ => exact hv

theorem Validation.BoundsAreNumbers.foldl_declare {v : Validation} {cs : List Constraint}
    (hv : v.BoundsAreNumbers) (hcs : ∀ c ∈ cs, c ≠ .minimum .nan ∧ c ≠ .maximum .nan) :
    (cs.foldl Validation.declare v).BoundsAreNumbers := by
  induction cs generalizing v with
  | nil => exact hv
  | cons c cs ih =>
    exact ih (hv.declare (hcs c List.mem_cons_self)) fun c hc => hcs c (List.mem_cons_of_mem _ hc)

namespace Mapping

variable {m : Mapping} {p : Property} {model : Model}

/-- No node of a tree declares a bound that is no number. -/
def BoundsAreNumbers (m : Mapping) : Prop :=
  ∀ n ∈ m.nodes, ∀ c ∈ n.constraints, c ≠ .minimum .nan ∧ c ≠ .maximum .nan

instance (m : Mapping) : Decidable m.BoundsAreNumbers :=
  inferInstanceAs (Decidable (∀ n ∈ m.nodes, _))

theorem BoundsAreNumbers.of_mem {n : Mapping} (h : m.BoundsAreNumbers) (hn : n ∈ m.nodes) :
    n.BoundsAreNumbers :=
  fun k hk => h k (mem_nodes_trans hk hn)

theorem BoundsAreNumbers.validation_same (h : m.BoundsAreNumbers) :
    m.validation.same m.validation := by
  have hv : m.validation.BoundsAreNumbers :=
    Validation.BoundsAreNumbers.foldl_declare ⟨nofun, nofun⟩ (h m (self_mem_nodes m))
  exact Validation.same_self hv.1 hv.2

theorem same_self_of_nestedProperty (ih : ∀ p, m.toProperty = .ok p → p.same p)
    (h : m.nestedProperty = .ok p) : p.same p := by
  rcases nestedProperty_eq_ok.mp h with ⟨name, -, rfl⟩ | ⟨-, h⟩
  · exact Property.same_ref_iff.mpr rfl
  · exact ih p h

theorem same_self_of_toProperty (hb : m.BoundsAreNumbers) (h : m.toProperty = .ok p) :
    p.same p := by
  induction m generalizing p with
  | scalar type t =>
    obtain ⟨_, _, -, -, rfl⟩ := toProperty_scalar_eq_ok.mp h
    exact Property.same_scalar_iff.mpr ⟨_, rfl, ScalarProperty.same_self hb.validation_same⟩
  | list element t ih =>
    obtain ⟨items, hitems, rfl⟩ := toProperty_list_eq_ok.mp h
    have hb' := hb.of_mem (element_mem_nodes element t)
    exact Property.same_array_iff.mpr
      ⟨items, rfl, same_self_of_nestedProperty (fun p hp => ih hb' hp) hitems⟩
  | object fields t ih =>
    obtain ⟨ps, hps, rfl⟩ := toProperty_object_eq_ok.mp h
    refine Property.same_object_iff.mpr ⟨_, rfl, .of_agree ?_ (Entries.keys_nodup_ofList ps)⟩
    refine List.forall₂_same.mpr fun e he => ⟨rfl, ?_⟩
    obtain ⟨n, hn, hne⟩ := hps.exists_left (Entries.mem_of_mem_ofList he)
    have hb' := hb.of_mem (field_mem_nodes hn t)
    exact same_self_of_nestedProperty (fun p hp => ih _ hn hb' hp) hne

theorem same_self_of_toModel (hb : m.BoundsAreNumbers) (h : m.toModel = .ok model) :
    model.same model := by
  rw [← Model.same_inline m.isRequired m.extras.sample hb.validation_same]
  exact same_self_of_toProperty hb (exists_toProperty h)

end Mapping

end FieldSchema
