import FieldSchema.Schema.Definitions
import FieldSchema.Proofs.Comparison
import Mathlib.Logic.Function.Iterate

/-!
# Pointers replaced by definitions

A description with pointers is unfolded in rounds: each round replaces every pointer by the
definition it leads to (`Property.expand`, `Model.expand`). The definition may hold pointers in
turn, which the next round replaces.

* `Property.iterate_expand_of_le`: once no pointer is left, further rounds change nothing.
* `Property.iterate_expand_same`: rounds keep comparison, so it does not matter from which of the
  nodes of one name its definition was made.
* `Property.Unfolds`: after some number of rounds no pointer is left, and the result compares the
  same as a given property. `Property.Unfolds.ref`, `Property.Unfolds.array` and
  `Property.Unfolds.object` build it along a property.
-/

namespace FieldSchema

/-! ## One round -/

namespace Property

mutual

/-- Each pointer replaced by the definition it leads to, which takes over whether the value must be
present. The pointers in that definition stay, and so does a pointer that leads nowhere. -/
def expand (d : Definitions) : Property → Property
  | .ref pointer required =>
    match d.entries.find? (simpleRef pointer) with
    | some model => model.inline required none {}
    | none => .ref pointer required
  | .array items description required => .array (expand d items) description required
  | .object names properties description required =>
    .object names (expandEntries d properties) description required
  | .scalar s => .scalar s

/-- Each pointer in named properties replaced. -/
def expandEntries (d : Definitions) : List (String × Property) → List (String × Property)
  | [] => []
  | (name, p) :: rest => (name, expand d p) :: expandEntries d rest

end

end Property

/-- Each pointer in a model replaced by the definition it leads to. -/
def Model.expand (d : Definitions) : Model → Model
  | .object names properties description =>
    .object names (Property.expandEntries d properties) description
  | .array items description => .array (items.expand d) description
  | .primitive type format description => .primitive type format description

namespace Property

variable {d : Definitions} {p q r items : Property} {ps qs : Entries Property}
  {names : List String} {description : Option String} {required : Bool} {k l : Nat}

theorem expandEntries_eq (d : Definitions) (ps : Entries Property) :
    expandEntries d ps = ps.map fun e => (e.1, e.2.expand d) := by
  induction ps with
  | nil => rfl
  | cons e ps ih => rw [expandEntries, ih, List.map_cons]

theorem expand_ref_of_find? {pointer : String} {model : Model}
    (h : d.entries.find? (simpleRef pointer) = some model) :
    (ref pointer required).expand d = model.inline required none {} := by
  rw [expand, h]

theorem expand_of_pointers_nil (h : p.pointers = []) : p.expand d = p := by
  induction p with
  | ref pointer required => cases h
  | array items description required ih => rw [expand, ih h]
  | object names ps description required ih =>
    rw [pointers, entryPointers_eq, List.flatMap_eq_nil_iff] at h
    have hid : ∀ e ∈ ps, (e.1, e.2.expand d) = id e := fun e he => by rw [ih e he (h e he), id]
    rw [expand, expandEntries_eq, List.map_congr_left hid, List.map_id]
  | scalar s => rw [expand]

/-- A round keeps comparison, if the definitions are the same as themselves. -/
theorem expand_same (hd : ∀ e ∈ d.entries, e.2.same e.2) (h : p.same q) :
    (p.expand d).same (q.expand d) := by
  induction p generalizing q with
  | ref pointer required =>
    rw [same_ref_iff.mp h, expand]
    split
    · rename_i model hmodel
      rw [Model.same_inline required none Validation.same_empty]
      exact hd _ (Entries.mem_of_find? hmodel)
    · exact same_ref_iff.mpr rfl
  | array items description required ih =>
    obtain ⟨items', rfl, hitems⟩ := same_array_iff.mp h
    exact same_array_iff.mpr ⟨_, by rw [expand], ih hitems⟩
  | object names ps description required ih =>
    obtain ⟨qs, rfl, hlen, hfound⟩ := same_object_iff.mp h
    refine same_object_iff.mpr ⟨_, by rw [expand], ?_, ?_⟩
    · rw [expandEntries_eq, expandEntries_eq, List.length_map, List.length_map, hlen]
    · rw [expandEntries_eq, expandEntries_eq, List.forall_mem_map]
      intro e he
      obtain ⟨q, hq, hsame⟩ := hfound e he
      exact ⟨q.expand d, by rw [Entries.find?_map, hq, Option.map_some], ih e he hsame⟩
  | scalar s =>
    obtain ⟨s', rfl, hs⟩ := same_scalar_iff.mp h
    exact same_scalar_iff.mpr ⟨s', by rw [expand], hs⟩

/-! ## Several rounds -/

theorem iterate_expand_same (hd : ∀ e ∈ d.entries, e.2.same e.2) (h : p.same q) :
    ((expand d)^[k] p).same ((expand d)^[k] q) := by
  induction k with
  | zero => exact h
  | succ k ih =>
    rw [Function.iterate_succ_apply', Function.iterate_succ_apply']
    exact expand_same hd ih

/-- Once no pointer is left, further rounds change nothing. -/
theorem iterate_expand_of_le (h : ((expand d)^[k] p).pointers = []) (hkl : k ≤ l) :
    (expand d)^[l] p = (expand d)^[k] p := by
  obtain ⟨j, rfl⟩ := Nat.exists_eq_add_of_le' hkl
  rw [Function.iterate_add_apply]
  exact Function.iterate_fixed (expand_of_pointers_nil h) j

theorem iterate_expand_array (d : Definitions) (k : Nat) :
    (expand d)^[k] (.array items description required) =
      .array ((expand d)^[k] items) description required := by
  induction k generalizing items with
  | zero => rfl
  | succ k ih => rw [Function.iterate_succ_apply, expand, ih, Function.iterate_succ_apply]

theorem iterate_expand_object (d : Definitions) (k : Nat) :
    (expand d)^[k] (.object names ps description required) =
      .object names (ps.map fun e => (e.1, (expand d)^[k] e.2)) description required := by
  induction k generalizing ps with
  | zero => exact congrArg (object names · description required) (List.map_id ps).symm
  | succ k ih =>
    rw [Function.iterate_succ_apply, expand, ih, expandEntries_eq, List.map_map]
    rfl

/-! ## Unfolding -/

/-- After these rounds no pointer is left, and the result compares the same as the second
property. -/
structure Unfolds (d : Definitions) (rounds : Nat) (p q : Property) : Prop where
  pointers_nil : ((expand d)^[rounds] p).pointers = []
  same : ((expand d)^[rounds] p).same q

namespace Unfolds

/-- More rounds than needed do no harm. -/
theorem mono (h : Unfolds d k p q) (hkl : k ≤ l) : Unfolds d l p q := by
  have heq := iterate_expand_of_le h.pointers_nil hkl
  exact ⟨heq ▸ h.pointers_nil, heq ▸ h.same⟩

/-- What compares the same unfolds to the same. -/
theorem of_same (hd : ∀ e ∈ d.entries, e.2.same e.2) (hpq : p.same q) (h : Unfolds d k q r) :
    Unfolds d k p r := by
  have hsame : ((expand d)^[k] p).same ((expand d)^[k] q) := iterate_expand_same hd hpq
  have hsub := h.pointers_nil ▸ pointers_subset hsame
  exact ⟨List.subset_nil.mp hsub, same_trans hsame h.same⟩

/-- A pointer takes one round more than the definition it leads to. -/
theorem ref {pointer : String} {model : Model}
    (hmodel : d.entries.find? (simpleRef pointer) = some model)
    (h : Unfolds d k (model.inline required none {}) q) :
    Unfolds d (k + 1) (.ref pointer required) q := by
  have heq : (expand d)^[k + 1] (.ref pointer required) =
      (expand d)^[k] (model.inline required none {}) := by
    rw [Function.iterate_succ_apply, expand_ref_of_find? hmodel]
  exact ⟨heq ▸ h.pointers_nil, heq ▸ h.same⟩

theorem array (h : Unfolds d k p q) :
    Unfolds d k (.array p description required) (.array q description required) := by
  have heq : (expand d)^[k] (.array p description required) =
      .array ((expand d)^[k] p) description required := iterate_expand_array d k
  exact ⟨heq ▸ h.pointers_nil, heq ▸ same_array_iff.mpr ⟨q, rfl, h.same⟩⟩

theorem object (h : Entries.Agree (Unfolds d k) ps qs) (hn : (Entries.keys qs).Nodup) :
    Unfolds d k (.object names ps description required)
      (.object names qs description required) := by
  constructor
  · rw [iterate_expand_object, pointers, entryPointers_eq, List.flatMap_eq_nil_iff,
      List.forall_mem_map]
    intro e he
    obtain ⟨q, -, hq⟩ := h.exists_right he
    exact hq.pointers_nil
  · rw [iterate_expand_object]
    refine same_object_iff.mpr ⟨qs, rfl, .of_agree ?_ hn⟩
    exact List.forall₂_map_left_iff.mpr (h.imp fun _ _ hef => ⟨hef.1, hef.2.same⟩)

/-- Properties that unfold one by one unfold in a common number of rounds. -/
theorem exists_rounds (h : Entries.Agree (fun p q => ∃ k, Unfolds d k p q) ps qs) :
    ∃ k, Entries.Agree (Unfolds d k) ps qs := by
  induction h with
  | nil => exact ⟨0, .nil⟩
  | cons hpq _ ih =>
    obtain ⟨hname, k, hk⟩ := hpq
    obtain ⟨l, hl⟩ := ih
    refine ⟨max k l, .cons ⟨hname, hk.mono (Nat.le_max_left k l)⟩ ?_⟩
    exact hl.imp fun _ _ hef => ⟨hef.1, hef.2.mono (Nat.le_max_right k l)⟩

end Unfolds

end Property

/-! ## Models -/

namespace Model

variable {required : Bool} {sample : Option String} {validation : Validation}

theorem expand_inline (d : Definitions) (model : Model) :
    (model.inline required sample validation).expand d =
      (model.expand d).inline required sample validation := by
  cases model <;> rfl

/-- A model is unfolded as its inline description is. -/
theorem iterate_expand_inline (d : Definitions) (k : Nat) (model : Model) :
    (Property.expand d)^[k] (model.inline required sample validation) =
      ((expand d)^[k] model).inline required sample validation := by
  induction k generalizing model with
  | zero => rfl
  | succ k ih => rw [Function.iterate_succ_apply, expand_inline, ih, Function.iterate_succ_apply]

end Model

end FieldSchema
