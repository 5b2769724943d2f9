import FieldSchema.Proofs.Parameters

/-!
# What the settings decide

There are two settings: whether a parameter outside the body may be a list, and the format that is
stated for such lists.

* `Parameter.withCollectionFormat`: a parameter with another format, if it is a list.
* `Mapping.toParameter_collectionFormat`: the stated format shows in the parameters of lists and
  nowhere else, and brings no error.
* `Mapping.toParameter_of_lists_refused`: what is accepted where lists are refused is no list, and
  is the same parameter under any settings.
* `Mapping.settings_decide_lists`: both, for all parameters of a tree.
-/

namespace FieldSchema

/-- The parameter with this format for its values. Only a list has a format. -/
def PlainParameter.withCollectionFormat (f : Option CollectionFormat) (p : PlainParameter) :
    PlainParameter :=
  if p.type = .array then { p with collectionFormat := f } else p

namespace Parameter

/-- The parameter with this format for its values. Only a list outside the body has a format. -/
def withCollectionFormat (f : Option CollectionFormat) : Parameter → Parameter
  | .plain location h p => .plain location h (p.withCollectionFormat f)
  | .body b => .body b

/-- The type of a parameter outside the body. -/
def typeName? : Parameter → Option TypeName
  | .plain _ _ p => some p.type
  | .body _ => none

end Parameter

namespace Mapping

variable {m : Mapping} {s other : Settings} {name : String} {location : Location}

/-! ## The format of lists -/

theorem toPlainParameter_collectionFormat (h : s.primitiveListParams = other.primitiveListParams) :
    m.toPlainParameter other name location =
      (m.toPlainParameter s name location).map (.withCollectionFormat other.collectionFormat) := by
  rw [toPlainParameter, toPlainParameter, h]
  by_cases hm : m.isPrimitive other.primitiveListParams
  · simp only [hm, Bool.not_true, Bool.false_eq_true, if_false]
    cases hitems : m.itemsProperty with
    | error e => rfl
    | ok items =>
      cases htype : m.typeName with
      | error e => rfl
      | ok type =>
        cases m.format with
        | error e => rfl
        | ok format =>
          have harray := isSome_items_iff hm hitems htype
          refine congrArg Except.ok ?_
          rw [PlainParameter.withCollectionFormat]
          cases items with
          | some items => rw [if_pos (harray.mp rfl)]; rfl
          | none => rw [if_neg fun h => Bool.false_ne_true (harray.mpr h)]; rfl
  · simp only [hm, Bool.not_false, if_true]
    rfl

theorem toParameter_collectionFormat (h : s.primitiveListParams = other.primitiveListParams) :
    m.toParameter other name =
      (m.toParameter s name).map (.withCollectionFormat other.collectionFormat) := by
  rw [toParameter, toParameter]
  cases m.extras.location with
  | none => rfl
  | some location =>
    by_cases hbody : location = .body
    · simp only [hbody, dite_true]
      cases m.toModel <;> rfl
    · simp only [hbody, dite_false]
      rw [toPlainParameter_collectionFormat h]
      cases m.toPlainParameter s name location <;> rfl

/-! ## Whether lists are allowed -/

/-- Where lists are refused, only a single value is primitive. -/
theorem exists_scalar_of_isPrimitive (h : m.isPrimitive false) : ∃ type t, m = scalar type t := by
  cases m with
  | scalar type t => exact ⟨type, t, rfl⟩
  | list element t => cases h
  | object fields t => cases h

/-- What is accepted where lists are refused is no list, and is the same under any settings. -/
theorem toPlainParameter_of_lists_refused {p : PlainParameter} (hs : s.primitiveListParams = false)
    (h : m.toPlainParameter s name location = .ok p) (other : Settings) :
    m.toPlainParameter other name location = .ok p ∧ p.type ≠ .array := by
  obtain ⟨hm, items, type, format, hitems, htype, hformat, rfl⟩ := toPlainParameter_eq_ok.mp h
  rw [hs] at hm
  obtain ⟨scalarType, t, rfl⟩ := exists_scalar_of_isPrimitive hm
  have harray := isSome_items_iff hm hitems htype
  cases hitems
  refine ⟨toPlainParameter_eq_ok.mpr ?_, fun h => Bool.false_ne_true (harray.mpr h)⟩
  exact ⟨rfl, none, type, format, rfl, htype, hformat, rfl⟩

theorem toParameter_of_lists_refused {q : Parameter} (hs : s.primitiveListParams = false)
    (h : m.toParameter s name = .ok q) (other : Settings) :
    m.toParameter other name = .ok q ∧ q.typeName? ≠ some .array := by
  rcases toParameter_eq_ok.mp h with ⟨hlocation, model, hmodel, rfl⟩ |
    ⟨location, hbody, hlocation, p, hp, rfl⟩
  · exact ⟨toParameter_eq_ok.mpr (.inl ⟨hlocation, model, hmodel, rfl⟩), nofun⟩
  · obtain ⟨hp', harray⟩ := toPlainParameter_of_lists_refused hs hp other
    refine ⟨toParameter_eq_ok.mpr (.inr ⟨location, hbody, hlocation, p, hp', rfl⟩), ?_⟩
    exact fun h => harray (Option.some.inj h)

/-! ## All parameters -/

/-- **The settings decide about lists only.** Settings that differ only in the format of lists give
the same error, or parameters that differ only in the format of the lists among them. What is
returned where lists are refused holds no list outside the body, and any settings return it. -/
theorem settings_decide_lists (m : Mapping) (name : String) :
    (∀ s other : Settings, s.primitiveListParams = other.primitiveListParams →
      m.toParameters other name =
        (m.toParameters s name).map (List.map (.withCollectionFormat other.collectionFormat))) ∧
    ∀ (s other : Settings) qs, s.primitiveListParams = false → m.toParameters s name = .ok qs →
      m.toParameters other name = .ok qs ∧ ∀ q ∈ qs, q.typeName? ≠ some .array := by
  refine ⟨fun s other h => ?_, fun s other qs hs h => ?_⟩
  · rw [toParameters_eq, toParameters_eq, ← mapM_map]
    simp only [toParameter_collectionFormat h]
  · rw [toParameters_eq] at h
    refine ⟨toParameters_eq_ok.mpr ?_, fun q hq => ?_⟩
    · exact (mapM_eq_ok.mp h).imp fun e q he => (toParameter_of_lists_refused hs he other).1
    · obtain ⟨e, -, he⟩ := exists_of_mem_mapM h hq
      exact (toParameter_of_lists_refused hs he other).2

/-- A request to rename pets: a number in the path, and a list of objects as the body. -/
def renameRequest : Mapping :=
  objectOf [("id", int.carriedIn .path),
    ("names", (listOf (objectOf [("name", text)])).carriedIn .body)]

theorem settings_decide_lists_requests :
    petRequest.toParameters { collectionFormat := some .csv } "" =
      (petRequest.toParameters {} "").map (List.map (.withCollectionFormat (some .csv))) ∧
    ∃ id names, renameRequest.toParameters { primitiveListParams := false } "" = .ok [id, names] ∧
      renameRequest.toParameters { collectionFormat := some .csv } "" = .ok [id, names] ∧
      ∀ q ∈ [id, names], q.typeName? ≠ some .array := by
  have hrename : renameRequest.toParameters { primitiveListParams := false } "" = .ok [_, _] := rfl
  obtain ⟨hok, harray⟩ := (settings_decide_lists renameRequest "").2 { primitiveListParams := false }
    { collectionFormat := some .csv } _ rfl hrename
  refine ⟨(settings_decide_lists petRequest "").1 {} { collectionFormat := some .csv } rfl, ?_⟩
  exact ⟨_, _, hrename, hok, harray⟩

end Mapping

end FieldSchema
