import FieldSchema.Proofs.Items
import FieldSchema.Proofs.UnknownTags

/-!
# Which nodes are parameters outside the body

What decides whether a node can be carried outside the body is at the end of its elements, and the
names on the way there. The check for objects looks through all names. The search for a type ends at
a name, but not at that of the first element, because this one is described inline.

* `Mapping.innermost`: the node at the end of the elements.
* `Mapping.NeedsBody`: the node cannot be carried outside the body, as `isPrimitive` decides.
* `Mapping.MeetsTag`: an unknown tag at the end of the elements that no name hides.
* `Mapping.toParameters_outside_body`: one of three things happens to a node with a place outside
  the body, and when.
-/

namespace FieldSchema

namespace Mapping

variable {m element : Mapping} {t : Traits} {settings : Settings} {name tag : String}
  {location : Location} {lists : Bool}

/-- The node itself or, of a list, the innermost node of its element: the first one on the way down
the elements that is no list. -/
def innermost : Mapping → Mapping
  | .list element _ => innermost element
  | .scalar type t => .scalar type t
  | .object fields t => .object fields t

/-- An object is at the end of the elements, or a list is carried where no lists are allowed. -/
def NeedsBody (lists : Bool) (m : Mapping) : Prop :=
  (∃ fields t, m.innermost = .object fields t) ∨ (∃ element t, m = .list element t) ∧ lists = false

/-- A single value of an unknown tag is at the end of the elements, and no element below the first
one is named. -/
def MeetsTag (m : Mapping) (tag : String) : Prop :=
  (∃ t, m.innermost = .scalar (.custom tag) t) ∧ ∀ k ∈ m.elements.tail, k.refName = none

theorem not_isPrimitive_iff : ¬ m.isPrimitive lists ↔ m.NeedsBody lists := by
  unfold NeedsBody
  induction m with
  | scalar type t => simp [isPrimitive, innermost]
  | list element t ih =>
    rw [isPrimitive, innermost, Bool.and_eq_true, not_and]
    cases lists with
    | false => simp
    | true => simp [ih]
  | object fields t => simp [isPrimitive, innermost]

theorem unknownTag?_eq_some : m.unknownTag? = some tag ↔ ∃ t, m = .scalar (.custom tag) t := by
  unfold unknownTag?
  split <;> simp_all

/-! ## The tag that is met -/

theorem firstError?_eq_some {ns : List Mapping} {e : SchemaError} :
    firstError? ns = some e ↔
      ∃ tag, ns.findSome? unknownTag? = some tag ∧ e = .unsupportedType tag := by
  rw [firstError?, Option.map_eq_some_iff]
  simp only [eq_comm]

/-- The description of a node that needs no object meets the tag at the end of the elements, if none
of them is named. -/
theorem findSome?_inlined (hm : m.isPrimitive lists) :
    m.inlined.findSome? unknownTag? = some tag ↔
      (∃ t, m.innermost = .scalar (.custom tag) t) ∧ ∀ k ∈ m.elements, k.refName = none := by
  induction m with
  | scalar type t =>
    rw [inlined, List.findSome?_singleton, unknownTag?_eq_some, innermost, and_iff_left]
    intro k hk
    cases hk
  | list element t ih =>
    rw [inlined_list, innermost, elements, List.forall_mem_cons]
    show element.nestedInlined.findSome? unknownTag? = some tag ↔ _
    cases hname : element.refName with
    | some own =>
      rw [nestedInlined_of_refName hname]
      constructor
      · intro h
        cases h
      · rintro ⟨-, hunnamed, -⟩
        cases hunnamed
    | none =>
      rw [nestedInlined_of_unnamed hname, ih (isPrimitive_element hm), eq_self, true_and]
  | object fields t => cases hm

/-- A parameter fails where its items, its type or its format do, in this order. -/
theorem failure?_toPlainParameter (hm : m.isPrimitive settings.primitiveListParams) :
    failure? (m.toPlainParameter settings name location) =
      (failure? m.itemsProperty).or ((failure? m.typeName).or (failure? m.format)) := by
  rw [toPlainParameter, hm]
  cases m.itemsProperty <;> cases m.typeName <;> cases m.format <;> rfl

theorem failure?_format_list (element : Mapping) (t : Traits) :
    failure? (list element t).format = none := by
  unfold format
  cases (list element t).extras.format.filter (· ≠ "") <;> rfl

/-- A node that needs no object fails with the tag that it meets. -/
theorem toPlainParameter_eq_error {e : SchemaError}
    (hm : m.isPrimitive settings.primitiveListParams) :
    m.toPlainParameter settings name location = .error e ↔
      ∃ tag, m.MeetsTag tag ∧ e = .unsupportedType tag := by
  rw [← failure?_eq_some, failure?_toPlainParameter hm]
  cases m with
  | scalar type t =>
    -- the type and the format of a parameter are those of a property
    have hscalar := failure?_scalarProperty type t
    rw [scalarProperty, failure?_bind_bind_pure] at hscalar
    show (failure? type.typeName).or (failure? (scalar type t).format) = some e ↔ _
    rw [hscalar, ← inlined, firstError?_eq_some]
    simp only [findSome?_inlined hm]
    rfl
  | list element t =>
    have hitems : failure? (list element t).itemsProperty = firstError? element.inlined := by
      rw [itemsProperty, failure?_bind_pure, failure?_toProperty]
    rw [hitems, failure?_format_list]
    show (firstError? element.inlined).or none = some e ↔ _
    rw [Option.or_none, firstError?_eq_some]
    simp only [findSome?_inlined (isPrimitive_element hm)]
    rfl
  | object fields t => cases hm

/-! ## Three outcomes -/

/-- A node with a place outside the body is one parameter, or fails as that. -/
theorem toParameters_of_plain (h : m.extras.location = some location) (hbody : location ≠ .body) :
    m.toParameters settings name =
      (m.toPlainParameter settings name location).map fun p => [.plain location hbody p] := by
  rw [toParameters_of_location h, toParameter, h]
  simp only [hbody, dite_false]
  cases m.toPlainParameter settings name location <;> rfl

theorem toParameters_eq_error {e : SchemaError} (h : m.extras.location = some location)
    (hbody : location ≠ .body) :
    m.toParameters settings name = .error e ↔
      m.toPlainParameter settings name location = .error e := by
  rw [← failure?_eq_some, toParameters_of_plain h hbody, failure?_map, failure?_eq_some]

/-- **Parameters outside the body.** A node with a place outside the body fails for not being
primitive if and only if an object is at the end of its elements, or it is a list and lists are not
allowed, whatever else is in the tree. Otherwise it fails if and only if a tag of no known type is
at the end of its elements and none below the first one is named, with that tag. In all other cases
it is one parameter. -/
theorem toParameters_outside_body (h : m.extras.location = some location)
    (hbody : location ≠ .body) :
    (m.toParameters settings name = .error (.nonPrimitiveParameter name) ↔
      m.NeedsBody settings.primitiveListParams) ∧
    (¬ m.NeedsBody settings.primitiveListParams →
      (∀ e, m.toParameters settings name = .error e ↔
        ∃ tag, m.MeetsTag tag ∧ e = .unsupportedType tag) ∧
      ((∀ tag, ¬ m.MeetsTag tag) → ∃ q, m.toParameters settings name = .ok [q])) := by
  have hprimitive (hneeds : ¬ m.NeedsBody settings.primitiveListParams) :
      m.isPrimitive settings.primitiveListParams := by
    rw [← not_isPrimitive_iff, not_not] at hneeds
    exact hneeds
  have herror (hneeds : ¬ m.NeedsBody settings.primitiveListParams) (e : SchemaError) :
      m.toParameters settings name = .error e ↔
        ∃ tag, m.MeetsTag tag ∧ e = .unsupportedType tag := by
    rw [toParameters_eq_error h hbody, toPlainParameter_eq_error (hprimitive hneeds)]
  refine ⟨⟨fun hfail => ?_, fun hneeds => ?_⟩, fun hneeds => ⟨herror hneeds, fun hnone => ?_⟩⟩
  · by_contra hneeds
    obtain ⟨tag, -, htag⟩ := (herror hneeds _).mp hfail
    cases htag
  · rw [toParameters_eq_error h hbody, toPlainParameter]
    rw [← not_isPrimitive_iff, Bool.not_eq_true] at hneeds
    rw [hneeds]
    rfl
  · cases hqs : m.toPlainParameter settings name location with
    | error e =>
      obtain ⟨tag, htag, -⟩ := (toPlainParameter_eq_error (hprimitive hneeds)).mp hqs
      exact absurd htag (hnone tag)
    | ok q =>
      refine ⟨.plain location hbody q, ?_⟩
      rw [toParameters_of_plain h hbody, hqs]
      rfl

/-- Rows of amounts, which are of no known type. -/
def moneyRows : Mapping := rowsOf ((listOf (ofType (.custom "money"))).withName "Row")

/-- The name of the row is that of the first element, so the tag is met. Where lists are not
allowed, the list is in the way before. -/
theorem toParameters_moneyRows :
    moneyRows.extras.location = some .query ∧ Location.query ≠ .body ∧
    ¬ moneyRows.NeedsBody true ∧ moneyRows.MeetsTag "money" ∧
    moneyRows.toParameters {} "rows" = .error (.unsupportedType "money") ∧
    moneyRows.toParameters { primitiveListParams := false } "rows" =
      .error (.nonPrimitiveParameter "rows") := by
  have hlocation : moneyRows.extras.location = some .query := rfl
  have hquery : Location.query ≠ .body := by decide
  have hneeds : ¬ moneyRows.NeedsBody true := by
    rintro (⟨_, _, h⟩ | ⟨-, h⟩) <;> cases h
  have htag : moneyRows.MeetsTag "money" := by
    refine ⟨⟨{}, rfl⟩, fun k hk => ?_⟩
    rw [List.mem_singleton.mp hk]
    rfl
  refine ⟨hlocation, hquery, hneeds, htag, ?_, ?_⟩
  · have houtcomes := @toParameters_outside_body moneyRows {} "rows" _ hlocation hquery
    exact ((houtcomes.2 hneeds).1 _).mpr ⟨"money", htag, rfl⟩
  · exact (toParameters_outside_body hlocation hquery).1.mpr (.inr ⟨⟨_, _, rfl⟩, rfl⟩)

end Mapping

end FieldSchema
