import FieldSchema.Proofs.Resolution

/-!
# Items of list parameters

A parameter outside the body carries a list only if the elements come down to single values. The
element of the list is described inline, whatever its name. An element further down is described by
a pointer if it has a name, and there the items of the parameter end.

* `Property.IsNest`: arrays around a single value, which is what items should be.
* `Mapping.pointers_of_isPrimitive`, `Mapping.isNest_iff_pointers`: the description of a node that
  needs no object.
* `Mapping.parameter_items_isNest_iff`: the items of a parameter are such a nest exactly where no
  element below the first is named. They are not in general (`Mapping.tagRows_items_point`).
-/

namespace FieldSchema

/-- Arrays, one in the other, around the description of a single value. -/
inductive Property.IsNest : Property → Prop
  | scalar (s : ScalarProperty) : IsNest (.scalar s)
  | array {items : Property} {description : Option String} {required : Bool} (h : IsNest items) :
      IsNest (.array items description required)

/-- The description of the elements of a list that is carried outside the body. -/
def Parameter.items? : Parameter → Option Property
  | .plain _ _ p => p.items
  | .body _ => none

theorem Property.isNest_array_iff {items : Property} {description : Option String}
    {required : Bool} : (array items description required).IsNest ↔ items.IsNest := by
  constructor
  · intro h
    cases h with
    | array h => exact h
  · exact .array

namespace Mapping

variable {m n element : Mapping} {t : Traits} {p items : Property} {lists : Bool}
  {settings : Settings} {name : String}

/-- The element of a list, the element of that one, and so on down to the first node that is no
list. -/
def elements : Mapping → List Mapping
  | .list element _ => element :: elements element
  | .scalar .. | .object .. => []

/-! ## Nodes that need no object -/

/-- The only pointer in the description of a node that needs no object is that of the first named
element. -/
theorem pointers_of_isPrimitive (hm : m.isPrimitive lists) (h : m.toProperty = .ok p) :
    p.pointers = (m.elements.findSome? refName).toList.map definitionRef := by
  induction m generalizing p with
  | scalar type t =>
    obtain ⟨_, _, -, -, rfl⟩ := toProperty_scalar_eq_ok.mp h
    rfl
  | list element t ih =>
    obtain ⟨items, hitems, rfl⟩ := toProperty_list_eq_ok.mp h
    rw [Property.pointers, elements, List.findSome?_cons]
    rcases nestedProperty_eq_ok.mp hitems with ⟨name, hname, rfl⟩ | ⟨hname, hitems⟩
    · rw [hname]
      rfl
    · rw [hname]
      exact ih (isPrimitive_element hm) hitems
  | object fields t => cases hm

/-- It is a nest around a single value unless it ends in that pointer. -/
theorem isNest_iff_pointers (hm : m.isPrimitive lists) (h : m.toProperty = .ok p) :
    p.IsNest ↔ p.pointers = [] := by
  induction m generalizing p with
  | scalar type t =>
    obtain ⟨_, _, -, -, rfl⟩ := toProperty_scalar_eq_ok.mp h
    exact iff_of_true (.scalar _) rfl
  | list element t ih =>
    obtain ⟨items, hitems, rfl⟩ := toProperty_list_eq_ok.mp h
    rw [Property.isNest_array_iff, Property.pointers]
    rcases nestedProperty_eq_ok.mp hitems with ⟨name, -, rfl⟩ | ⟨-, hitems⟩
    · have hnot : ¬ (Property.ref (definitionRef name) element.isRequired).IsNest := by
        intro h
        cases h
      exact iff_of_false hnot (List.cons_ne_nil _ _)
    · exact ih (isPrimitive_element hm) hitems
  | object fields t => cases hm

/-! ## Parameters -/

theorem isPrimitive_of_toPlainParameter {location : Location} {q : PlainParameter}
    (h : m.toPlainParameter settings name location = .ok q) :
    m.isPrimitive settings.primitiveListParams :=
  (toPlainParameter_eq_ok.mp h).1

/-- What is described by the items of a parameter: the element of a list, inline. -/
theorem exists_list_of_items {q : Parameter} (h : n.toParameter settings name = .ok q)
    (hitems : q.items? = some items) :
    ∃ element t, n = list element t ∧ element.isPrimitive settings.primitiveListParams ∧
      element.toProperty = .ok items := by
  rcases toParameter_eq_ok.mp h with ⟨-, model, -, rfl⟩ | ⟨_, _, -, plain, hplain, rfl⟩
  · cases hitems
  · obtain ⟨element, t, rfl, helement⟩ := items_of_toPlainParameter hplain hitems
    have hprimitive := isPrimitive_of_toPlainParameter hplain
    exact ⟨element, t, rfl, isPrimitive_element hprimitive, helement⟩

/-- **Items of parameters.** The items of a parameter made from a node hold one pointer at most, to
the first name among the elements two or more steps below the node. They are arrays around a single
value exactly if none of these elements is named. -/
theorem parameter_items_isNest_iff {ps : List Parameter} {q : Parameter}
    (h : m.toParameters settings name = .ok ps) (hq : q ∈ ps) :
    ∃ n ∈ m.nodes, ∃ own, n.toParameter settings own = .ok q ∧
      ∀ items, q.items? = some items →
        items.pointers = (n.elements.tail.findSome? refName).toList.map definitionRef ∧
        (items.IsNest ↔ ∀ k ∈ n.elements.tail, k.refName = none) := by
  obtain ⟨n, hn, own, hown⟩ := exists_node_of_parameter h hq
  refine ⟨n, hn, own, hown, fun items hitems => ?_⟩
  obtain ⟨element, t, rfl, hprimitive, helement⟩ := exists_list_of_items hown hitems
  rw [elements, List.tail_cons]
  have hpointers := pointers_of_isPrimitive hprimitive helement
  refine ⟨hpointers, ?_⟩
  rw [isNest_iff_pointers hprimitive helement, hpointers, List.map_eq_nil_iff,
    Option.toList_eq_nil_iff, List.findSome?_eq_none_iff]

/-- A parameter whose value is a list of rows. -/
def rowsOf (row : Mapping) : Mapping := (listOf row).withExtras { location := some .query }

theorem parameter_items_isNest_iff_named_row :
    ∃ ps q items, (rowsOf ((listOf text).withName "Row")).toParameters {} "rows" = .ok ps ∧
      q ∈ ps ∧ q.items? = some items ∧ items.pointers = [] ∧
      ∃ n ∈ (rowsOf ((listOf text).withName "Row")).nodes,
        items.IsNest ↔ ∀ k ∈ n.elements.tail, k.refName = none := by
  have hps : (rowsOf ((listOf text).withName "Row")).toParameters {} "rows" = .ok [_] := rfl
  obtain ⟨n, hn, _, -, hitems⟩ := parameter_items_isNest_iff hps List.mem_cons_self
  exact ⟨_, _, _, rfl, List.mem_cons_self, rfl, rfl, n, hn, (hitems _ rfl).2⟩

/-- The name of the texts in the rows is two steps below the parameter, so the items of the
parameter hold a pointer. -/
theorem tagRows_items_point :
    ∃ q items, (rowsOf (listOf (text.withName "Tag"))).toParameters {} "rows" = .ok [q] ∧
      q.location = .query ∧ q.items? = some items ∧ items.pointers = [definitionRef "Tag"] ∧
      ¬ items.IsNest := by
  refine ⟨_, _, rfl, rfl, rfl, rfl, fun h => ?_⟩
  cases h with
  | array h => cases h

end Mapping

end FieldSchema
