import FieldSchema.Proofs.Fragments
import FieldSchema.Proofs.Merging
import FieldSchema.Proofs.Paths

/-!
# What compares the same is written alike

* `SchemaAlike`: two written schemas differ at most in the order of properties and in the sign of
  bounds that are zero.
* `Property.toJson_alike`, `Model.toJson_alike`: descriptions that compare the same are written so.
* `Mapping.dropped_alike`: what is dropped from the definitions of a tree without a conflict is
  written like the definition that is kept.
-/

namespace FieldSchema

open Json (Value optionalEntry stringsEntry)

/-! ## Schemas that are written alike -/

mutual

/-- Two written schemas differ at most in the order of properties and in the sign of bounds that are
zero. -/
inductive SchemaAlike : Value → Value → Prop
  | object {es fs : List (String × Value)} (h : List.Forall₂ EntryAlike es fs) :
      SchemaAlike (.object es) (.object fs)

/-- What this means for one entry of a schema. -/
inductive EntryAlike : String × Value → String × Value → Prop
  | refl (e : String × Value) : EntryAlike e e
  | minimum (s t : Bool) :
      EntryAlike ("minimum", .float (.zero s)) ("minimum", .float (.zero t))
  | maximum (s t : Bool) :
      EntryAlike ("maximum", .float (.zero s)) ("maximum", .float (.zero t))
  | items {v w : Value} (h : SchemaAlike v w) : EntryAlike ("items", v) ("items", w)
  | properties {ps qs rs : List (String × Value)} (h : List.Forall₂ PropertyAlike ps rs)
      (order : rs.Perm qs) : EntryAlike ("properties", .object ps) ("properties", .object qs)

/-- What this means for one of the properties. -/
inductive PropertyAlike : String × Value → String × Value → Prop
  | named {name : String} {v w : Value} (h : SchemaAlike v w) : PropertyAlike (name, v) (name, w)

end

theorem forall₂_entryAlike_refl (es : List (String × Value)) : List.Forall₂ EntryAlike es es :=
  List.forall₂_same.mpr fun e _ => .refl e

/-! ## Single values -/

/-- Numbers that compare the same are the same, or both are zero. -/
theorem Binary64.eq_or_zero_of_numEq {x y : Binary64} (h : x.numEq y) :
    x = y ∨ ∃ s t, x = zero s ∧ y = zero t := by
  cases x with
  | nan => cases h
  | infinity s =>
    cases y with
    | infinity t => exact .inl (congrArg _ (beq_iff_eq.mp h))
    | _ => cases h
  | finite s r hr =>
    cases y with
    | finite t q hq =>
      simp only [numEq, Bool.and_eq_true, Bool.or_eq_true, beq_iff_eq] at h
      obtain ⟨rfl, rfl | rfl⟩ := h
      · exact .inl rfl
      · exact .inr ⟨s, t, rfl, rfl⟩
    | _ => cases h

/-- Two bounds are the same, or both are zero. -/
def Binary64.BoundAlike (x y : Option Binary64) : Prop :=
  x = y ∨ ∃ s t, x = some (.zero s) ∧ y = some (.zero t)

theorem Binary64.boundAlike_of_optionSame {x y : Option Binary64} (h : optionSame x y) :
    BoundAlike x y := by
  cases x with
  | none =>
    cases y with
    | none => exact .inl rfl
    | some y => cases h
  | some x =>
    cases y with
    | none => cases h
    | some y =>
      rcases eq_or_zero_of_numEq h with rfl | ⟨s, t, rfl, rfl⟩
      · exact .inl rfl
      · exact .inr ⟨s, t, rfl, rfl⟩

theorem forall₂_bound {name : String} {x y : Option Binary64}
    (hzero : ∀ s t, EntryAlike (name, .float (.zero s)) (name, .float (.zero t)))
    (h : Binary64.optionSame x y) :
    List.Forall₂ EntryAlike (optionalEntry name .float x) (optionalEntry name .float y) := by
  rcases Binary64.boundAlike_of_optionSame h with rfl | ⟨s, t, rfl, rfl⟩
  · exact forall₂_entryAlike_refl _
  · exact .cons (hzero s t) .nil

theorem Validation.toEntries_alike {v w : Validation} (h : v.same w) :
    List.Forall₂ EntryAlike v.toEntries w.toEntries := by
  obtain ⟨hpattern, hminLength, hmaxLength, hmin, hmax, honeOf⟩ := same_iff.mp h
  rw [toEntries, toEntries, hpattern, hminLength, hmaxLength, honeOf]
  refine List.rel_append (List.rel_append (List.rel_append ?_ ?_) ?_) ?_
  · exact forall₂_entryAlike_refl _
  · exact forall₂_bound EntryAlike.minimum hmin
  · exact forall₂_bound EntryAlike.maximum hmax
  · exact forall₂_entryAlike_refl _

theorem ScalarProperty.toJson_alike {p q : ScalarProperty} (h : p.same q) :
    SchemaAlike p.toJson q.toJson := by
  obtain ⟨htype, hformat, hdescription, hsample, hvalidation, -⟩ := same_iff.mp h
  rw [toJson_eq, toJson_eq, htype, hformat, hdescription, hsample]
  exact .object
    (List.rel_append (forall₂_entryAlike_refl _) (Validation.toEntries_alike hvalidation))

/-! ## Properties and models -/

namespace Property

variable {p q : Property}

/-- Properties that compare the same are written alike. -/
theorem toJson_alike (hp : p.DistinctNames) (h : p.same q) : SchemaAlike p.toJson q.toJson := by
  induction p generalizing q with
  | ref pointer required =>
    rw [same_ref_iff.mp h, toJson_ref]
    exact .object (forall₂_entryAlike_refl _)
  | array items description required ih =>
    obtain ⟨items', rfl, hitems⟩ := same_array_iff.mp h
    rw [toJson_array, toJson_array]
    refine .object (.cons (.refl _) (.cons ?_ (forall₂_entryAlike_refl _)))
    exact .items (ih hp.of_array hitems)
  | object names ps description required ih =>
    obtain ⟨qs, rfl, hqs⟩ := same_object_iff.mp h
    obtain ⟨rs, horder, hagree⟩ := hqs.found.exists_perm hp.keys_nodup
    have halike : Entries.Agree (fun p q => SchemaAlike p.toJson q.toJson) ps rs :=
      hagree.imp_of_mem fun name p q hmem hsame => ih _ hmem (hp.of_object hmem) hsame
    have hproperties : List.Forall₂ PropertyAlike (ps.map fun e => (e.1, e.2.toJson))
        (rs.map fun e => (e.1, e.2.toJson)) := by
      rw [List.forall₂_map_left_iff, List.forall₂_map_right_iff]
      refine List.Forall₂.imp (fun e d hed => ?_) halike
      rw [hed.1]
      exact .named hed.2
    rw [toJson_object, toJson_object]
    refine .object
      (List.rel_append (forall₂_entryAlike_refl _) (.cons ?_ (forall₂_entryAlike_refl _)))
    exact .properties hproperties (horder.map _)
  | scalar s =>
    obtain ⟨s', rfl, hs⟩ := same_scalar_iff.mp h
    rw [toJson_scalar, toJson_scalar]
    exact ScalarProperty.toJson_alike hs

end Property

namespace Model

variable {a b model : Model} {required : Bool} {sample : Option String} {validation : Validation}

/-- A model is written as its plain inline description is. -/
theorem toJson_inline (model : Model) (required : Bool) :
    (model.inline required none {}).toJson = model.toJson := by
  rw [Property.toJson, fragment_inline, ModelFragment.toJson_inline, toJson]

/-- Names are distinct in a model however it is described inline. -/
theorem distinctNames_inline (h : (model.inline required sample validation).DistinctNames)
    (required' : Bool) (sample' : Option String) (validation' : Validation) :
    (model.inline required' sample' validation').DistinctNames := by
  intro path names ps description own hobject
  cases path with
  | nil =>
    cases model with
    | object names ps description =>
      cases hobject
      exact h.keys_nodup
    | array items description => cases hobject
    | primitive type format description => cases hobject
  | cons step path =>
    exact h _ _ _ _ _ (hasAt_inline_iff.mpr (hasAt_inline_iff.mp hobject))

/-- Models that compare the same are written alike. -/
theorem toJson_alike (ha : (a.inline true none {}).DistinctNames) (h : a.same b) :
    SchemaAlike a.toJson b.toJson := by
  rw [← toJson_inline a true, ← toJson_inline b true]
  rw [← same_inline true none Validation.same_empty] at h
  exact Property.toJson_alike ha h

end Model

/-! ## Definitions -/

namespace Mapping

variable {m : Mapping} {before after : List (String × Model)} {named : String × Model}

theorem distinctNames_of_definitions {ds : List (String × Model)} (h : m.definitions = .ok ds)
    (hmem : named ∈ ds) : (named.2.inline true none {}).DistinctNames := by
  obtain ⟨n, -, hmodel⟩ := (definitions_eq_ok.mp h).exists_left hmem
  exact Model.distinctNames_inline (distinctNames_of_toProperty (exists_toProperty hmodel)) _ _ _

/-- **What is dropped is not lost.** If a later definition of a name is dropped without a conflict,
it is written like the definition that is kept under the name, up to the order of properties and the
sign of bounds that are zero. -/
theorem dropped_alike (h : m.definitions = .ok (before ++ named :: after))
    (hlater : named.1 ∈ Entries.keys before)
    (hquiet : (Definitions.assemble (before ++ [named])).conflicts =
      (Definitions.assemble before).conflicts) :
    ∃ kept, (Definitions.assemble (before ++ named :: after)).entries.find? named.1 = some kept ∧
      SchemaAlike kept.toJson named.2.toJson := by
  obtain ⟨kept, hmem, hkept, hconflict⟩ := Definitions.exists_earlier hlater after
  have hnames := distinctNames_of_definitions h (List.mem_append_left _ hmem)
  exact ⟨kept, hkept, Model.toJson_alike hnames (hconflict.mp hquiet)⟩

/-- Two definitions of a point: the properties in two orders, with the two zeros as a bound. -/
def points : Mapping :=
  let x (negative : Bool) := (ofType .double).constrained (.minimum (.zero negative))
  objectOf [
    ("first", (objectOf [("x", x true), ("label", text)]).withName "Point"),
    ("second", (objectOf [("label", text), ("x", x false)]).withName "Point")]

theorem dropped_alike_points :
    ∃ first second, points.definitions = .ok [("Point", first), ("Point", second)] ∧
      first.properties?.map Entries.keys = some ["x", "label"] ∧
      second.properties?.map Entries.keys = some ["label", "x"] ∧
      ∃ kept, (Definitions.assemble [("Point", first), ("Point", second)]).entries.find? "Point" =
          some kept ∧ SchemaAlike kept.toJson second.toJson := by
  have hpoints : points.definitions = .ok ([("Point", _)] ++ ("Point", _) :: []) := rfl
  exact ⟨_, _, hpoints, rfl, rfl, dropped_alike hpoints List.mem_cons_self rfl⟩

end Mapping

end FieldSchema
