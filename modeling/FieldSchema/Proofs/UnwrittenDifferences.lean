import FieldSchema.Proofs.WrittenForm

/-!
# Differences that are not written

Comparison sees more of a description than its written form shows: whether a value must be present,
which is written only for the fields of an object, and which of the numbers without digits a bound
is, because all of them are written as `null`. It sees nothing else that is not written.

* `Property.DiffersUnwritten`: two properties differ in this.
* `Property.same_iff`: properties compare the same exactly if they are written equal and do not
  differ in this at any path.
* `Mapping.conflict_iff`: so a later definition of a name is reported as a conflict exactly if it is
  written differently from the kept one, or differs from it in this. The second does happen
  (`Mapping.taggedTwice_conflict`).
-/

namespace FieldSchema

open Json (Value optionalEntry stringsEntry)

/-! ## What is not written -/

/-- Two bounds that are not the same number, although both are written as `null`. -/
def Binary64.Blurred (x y : Option Binary64) : Prop :=
  ∃ a b, x = some a ∧ y = some b ∧ a.isFinite = false ∧ b.isFinite = false ∧ a.numEq b = false

/-- The bounds of a single value. -/
def Property.bounds : Property → Option Binary64 × Option Binary64
  | .scalar s => (s.validation.minimum, s.validation.maximum)
  | .ref .. | .array .. | .object .. => (none, none)

/-- Two properties differ in what is not written of them. -/
def Property.DiffersUnwritten (p q : Property) : Prop :=
  p.isRequired ≠ q.isRequired ∨ Binary64.Blurred p.bounds.1 q.bounds.1 ∨
    Binary64.Blurred p.bounds.2 q.bounds.2

/-- Two models differ in what is not written of them, at some path. -/
def Model.DiffersUnwritten (a b : Model) : Prop :=
  ∃ path p q, a.HasAt path p ∧ b.HasAt path q ∧ p.DiffersUnwritten q

/-! ## Bounds -/

theorem Binary64.not_blurred_none : ¬ Blurred none none :=
  fun ⟨_, _, heq, _⟩ => nomatch heq

/-- Bounds compare the same exactly if they are written equal and are not blurred. -/
theorem Binary64.optionSame_iff {x y : Option Binary64} :
    optionSame x y ↔
      Option.Rel (fun v w => v.same w) (x.map Value.float) (y.map Value.float) ∧ ¬ Blurred x y := by
  cases x with
  | none =>
    cases y with
    | none => exact iff_of_true rfl ⟨.none, nofun⟩
    | some y => exact iff_of_false nofun fun h => nomatch h.1
  | some x =>
    cases y with
    | none => exact iff_of_false nofun fun h => nomatch h.1
    | some y =>
      rw [optionSame]
      constructor
      · intro h
        refine ⟨.some (Value.same_float_iff.mpr (.inl h)), ?_⟩
        rintro ⟨a, b, ha, hb, -, -, hne⟩
        cases ha
        cases hb
        rw [hne] at h
        cases h
      · rintro ⟨hrel, hclear⟩
        cases hrel with
        | some hsame =>
          rcases Value.same_float_iff.mp hsame with h | ⟨hx, hy⟩
          · exact h
          · by_contra hne
            exact hclear ⟨x, y, rfl, rfl, hx, hy, Bool.eq_false_iff.mpr hne⟩

/-! ## The entries of a written property -/

namespace Property

variable {p q items : Property} {ps qs : Entries Property} {names names' : List String}
  {description description' : Option String} {required required' : Bool} {pointer key : String}
  {s t : ScalarProperty}

/-- The entries of a written property. -/
def written (p : Property) : Entries Value := p.fragment.written

theorem toJson_eq (p : Property) : p.toJson = .object p.written := p.fragment.toJson_eq

@[simp] theorem written_ref : (ref pointer required).written = [("$ref", .string pointer)] := rfl

@[simp] theorem written_array : (array items description required).written =
    ("type", .string "array") :: ("items", items.toJson) ::
      optionalEntry "description" .string description := rfl

@[simp] theorem written_object : (object names ps description required).written =
    ("type", .string "object") :: stringsEntry "required" names ++
      ("properties", .object (ps.map fun e => (e.1, e.2.toJson))) ::
      optionalEntry "description" .string description := by
  rw [written, PropertyFragment.written, ← toJson, toJson_object]
  rfl

@[simp] theorem written_scalar : (scalar s).written =
    ("type", .string s.type.name) ::
      optionalEntry "format" .string s.format ++
      optionalEntry "description" .string s.description ++
      optionalEntry "example" .string s.sample ++
      (optionalEntry "pattern" .string s.validation.pattern ++
        optionalEntry "minLength" (fun n => .nat n.toNat) s.validation.minLength ++
        optionalEntry "maxLength" (fun n => .nat n.toNat) s.validation.maxLength ++
        optionalEntry "minimum" .float s.validation.minimum ++
        optionalEntry "maximum" .float s.validation.maximum ++
        stringsEntry "enum" s.validation.oneOf) := rfl

theorem toJson_same_of_agree (h : Entries.Agree (fun v w => v.same w) p.written q.written) :
    p.toJson.same q.toJson := by
  rw [toJson_eq, toJson_eq]
  exact Value.same_object_of_agree h q.fragment.keys_written_nodup

/-- Each entry of equal written properties is equal or left out in both. -/
theorem rel_written (h : p.toJson.same q.toJson) (key : String) :
    Option.Rel (fun v w => v.same w) (p.written.find? key) (q.written.find? key) := by
  rw [toJson_eq, toJson_eq] at h
  exact Value.rel_of_same_object h p.fragment.keys_written_nodup key

/-- The entry that tells what shape is described. -/
def mark (p : Property) : Option String := p.fragment.mark

@[simp] theorem mark_ref : (ref pointer required).mark = some "$ref" := rfl

@[simp] theorem mark_array : (array items description required).mark = some "items" := rfl

@[simp] theorem mark_object : (object names ps description required).mark = some "properties" := rfl

@[simp] theorem mark_scalar : (scalar s).mark = none := rfl

/-- Properties that are written equal have one shape. -/
theorem mark_eq_of_written (h : p.toJson.same q.toJson) : p.mark = q.mark :=
  PropertyFragment.mark_eq_of_isSome fun key _ => Entries.isSome_iff_of_rel (rel_written h key)

theorem find?_description (p : Property) :
    p.written.find? "description" = p.description?.map .string := by
  rw [written, PropertyFragment.find?_description]
  cases p <;> rfl

theorem description_eq_of_written (h : p.toJson.same q.toJson) :
    p.description? = q.description? := by
  have hrel := rel_written h "description"
  rw [find?_description, find?_description] at hrel
  exact Json.eq_of_rel_map (fun _ _ => Value.same_string_iff.mp) hrel

/-! ## From the written form to comparison -/

/-- A column of a single value is written equal, or left out of both. -/
theorem rel_column {α : Type} {write : α → Value} (key : String)
    (column : ScalarProperty → Option α)
    (hcolumn : ∀ s, (scalar s).written.find? key = (column s).map write)
    (h : (scalar s).toJson.same (scalar t).toJson) :
    Option.Rel (fun v w => v.same w) ((column s).map write) ((column t).map write) := by
  rw [← hcolumn, ← hcolumn]
  exact rel_written h key

/-- Single values that are written equal compare the same unless they differ in what is not
written. -/
theorem scalar_same_of_written (h : (scalar s).toJson.same (scalar t).toJson)
    (hclear : ¬ (scalar s).DiffersUnwritten (scalar t)) : s.same t := by
  have hstring (a b : String) : (Value.string a).same (.string b) → a = b :=
    Value.same_string_iff.mp
  have hlength (a b : UInt64) : (Value.nat a.toNat).same (.nat b.toNat) → a = b :=
    fun hab => UInt64.toNat_inj.mp (Value.same_nat_iff.mp hab)
  have htype : s.type = t.type := by
    have hrel := rel_written h "type"
    rw [written_scalar, written_scalar] at hrel
    cases hrel with
    | some hsame => exact TypeName.name_injective (hstring _ _ hsame)
  have hformat : s.format = t.format := Json.eq_of_rel_map hstring <|
    rel_column "format" (·.format) (by simp) h
  have hdescription : s.description = t.description := description_eq_of_written h
  have hsample : s.sample = t.sample := Json.eq_of_rel_map hstring <|
    rel_column "example" (·.sample) (by simp) h
  have hpattern : s.validation.pattern = t.validation.pattern := Json.eq_of_rel_map hstring <|
    rel_column "pattern" (·.validation.pattern) (by simp) h
  have hminLength : s.validation.minLength = t.validation.minLength :=
    Json.eq_of_rel_map hlength <|
      rel_column "minLength" (·.validation.minLength) (by simp) h
  have hmaxLength : s.validation.maxLength = t.validation.maxLength :=
    Json.eq_of_rel_map hlength <|
      rel_column "maxLength" (·.validation.maxLength) (by simp) h
  have hminimum : Binary64.optionSame s.validation.minimum t.validation.minimum :=
    Binary64.optionSame_iff.mpr ⟨rel_column "minimum" (·.validation.minimum) (by simp) h,
      fun hblurred => hclear (.inr (.inl hblurred))⟩
  have hmaximum : Binary64.optionSame s.validation.maximum t.validation.maximum :=
    Binary64.optionSame_iff.mpr ⟨rel_column "maximum" (·.validation.maximum) (by simp) h,
      fun hblurred => hclear (.inr (.inr hblurred))⟩
  have honeOf : s.validation.oneOf = t.validation.oneOf := by
    have hfind (s : ScalarProperty) : (scalar s).written.find? "enum" =
        Entries.find? (stringsEntry "enum" s.validation.oneOf) "enum" := by simp
    have hrel := rel_written h "enum"
    rw [hfind, hfind] at hrel
    exact Json.eq_of_rel_stringsEntry hrel
  have hrequired : s.required = t.required := by
    by_contra hne
    exact hclear (.inl hne)
  have hvalidation : s.validation.same t.validation := Validation.same_iff.mpr
    ⟨hpattern, hminLength, hmaxLength, hminimum, hmaximum, honeOf⟩
  exact ScalarProperty.same_iff.mpr
    ⟨htype, hformat, hdescription, hsample, hvalidation, hrequired⟩

theorem isRequired_eq (hclear : ¬ p.DiffersUnwritten q) : p.isRequired = q.isRequired :=
  not_not.mp fun hne => hclear (.inl hne)

/-- Objects that are written equal require the same names, and each property of the one is found,
written equal, in the other. -/
theorem object_parts_of_written
    (h : (object names ps description required).toJson.same
      (object names' qs description' required').toJson) :
    names = names' ∧ Entries.Found (fun p q => p.toJson.same q.toJson) ps qs := by
  have hfindNames (names : List String) (rs : Entries Property) (description : Option String)
      (required : Bool) : (object names rs description required).written.find? "required" =
        Entries.find? (stringsEntry "required" names) "required" := by simp
  have hfindProperties (names : List String) (rs : Entries Property)
      (description : Option String) (required : Bool) :
      (object names rs description required).written.find? "properties" =
        some (.object (rs.map fun e => (e.1, e.2.toJson))) := by simp
  have hnames := rel_written h "required"
  rw [hfindNames, hfindNames] at hnames
  have hproperties := rel_written h "properties"
  rw [hfindProperties, hfindProperties] at hproperties
  refine ⟨Json.eq_of_rel_stringsEntry hnames, ?_⟩
  cases hproperties with
  | some h =>
    exact (Entries.Found.map_iff toJson toJson).mp (Value.same_object_iff.mp h)

/-- Properties that are written equal compare the same unless they differ in what is not written,
at some path. -/
theorem same_of_written (hp : p.DistinctNames) (hsame : p.toJson.same q.toJson)
    (hclear : ∀ path a b, p.HasAt path a → q.HasAt path b → ¬ a.DiffersUnwritten b) :
    p.same q := by
  induction p generalizing q with
  | ref pointer required =>
    cases q with
    | ref pointer' required' =>
      obtain rfl : required = required' := isRequired_eq (hclear [] _ _ (.here _) (.here _))
      have hpointer := rel_written hsame "$ref"
      rw [written_ref, written_ref] at hpointer
      cases hpointer with
      | some h => rw [same_ref_iff, Value.same_string_iff.mp h]
    | _ => simpa using mark_eq_of_written hsame
  | array items description required ih =>
    cases q with
    | array items' description' required' =>
      obtain rfl : required = required' := isRequired_eq (hclear [] _ _ (.here _) (.here _))
      obtain rfl : description = description' := description_eq_of_written hsame
      have hitems := rel_written hsame "items"
      rw [written_array, written_array] at hitems
      have hbelow (path : Path) (a b : Property) (ha : items.HasAt path a)
          (hb : items'.HasAt path b) : ¬ a.DiffersUnwritten b :=
        hclear _ a b (.element ha) (.element hb)
      cases hitems with
      | some h =>
        exact same_array_iff.mpr ⟨items', rfl, ih hp.of_array h hbelow⟩
    | _ => simpa using mark_eq_of_written hsame
  | object names ps description required ih =>
    cases q with
    | object names' qs description' required' =>
      obtain rfl : required = required' := isRequired_eq (hclear [] _ _ (.here _) (.here _))
      obtain rfl : description = description' := description_eq_of_written hsame
      obtain ⟨rfl, hlength, hfound⟩ := object_parts_of_written hsame
      refine same_object_iff.mpr ⟨qs, rfl, hlength, fun e he => ?_⟩
      obtain ⟨q, hq, h⟩ := hfound e he
      -- a difference below the two properties is one below the two objects
      have hbelow (path : Path) (a b : Property) (ha : e.2.HasAt path a)
          (hb : q.HasAt path b) : ¬ a.DiffersUnwritten b :=
        hclear _ a b (.field he ha) (.field (Entries.mem_of_find? hq) hb)
      exact ⟨q, hq, ih e he (hp.of_object he) h hbelow⟩
    | _ => simpa using mark_eq_of_written hsame
  | scalar s =>
    cases q with
    | scalar t =>
      exact same_scalar_iff.mpr
        ⟨t, rfl, scalar_same_of_written hsame (hclear [] _ _ (.here _) (.here _))⟩
    | _ => simpa using mark_eq_of_written hsame

/-! ## From comparison to the written form -/

/-- Single values that compare the same do not differ in what is not written. -/
theorem scalar_clear_of_same (h : s.same t) : ¬ (scalar s).DiffersUnwritten (scalar t) := by
  obtain ⟨-, -, -, -, hvalidation, hrequired⟩ := ScalarProperty.same_iff.mp h
  obtain ⟨-, -, -, hminimum, hmaximum, -⟩ := Validation.same_iff.mp hvalidation
  rintro (hne | hblurred | hblurred)
  · exact hne hrequired
  · exact (Binary64.optionSame_iff.mp hminimum).2 hblurred
  · exact (Binary64.optionSame_iff.mp hmaximum).2 hblurred

/-- Properties that compare the same do not differ in what is not written. -/
theorem clear_of_same (h : p.same q) : ¬ p.DiffersUnwritten q := by
  cases p with
  | ref pointer required =>
    obtain rfl := same_ref_iff.mp h
    simp [DiffersUnwritten, bounds, Binary64.not_blurred_none]
  | array items description required =>
    obtain ⟨items', rfl, -⟩ := same_array_iff.mp h
    simp [DiffersUnwritten, bounds, isRequired, Binary64.not_blurred_none]
  | object names ps description required =>
    obtain ⟨qs, rfl, -⟩ := same_object_iff.mp h
    simp [DiffersUnwritten, bounds, isRequired, Binary64.not_blurred_none]
  | scalar s =>
    obtain ⟨t, rfl, hs⟩ := same_scalar_iff.mp h
    exact scalar_clear_of_same hs

/-- Where properties compare the same, so does what stands in them at one path. -/
theorem same_of_hasAt {path : Path} {a b : Property} (hq : q.DistinctNames) (h : p.same q)
    (ha : p.HasAt path a) (hb : q.HasAt path b) : a.same b := by
  induction ha generalizing q with
  | here p => cases hb; exact h
  | element _ ih =>
    obtain ⟨items', rfl, hitems⟩ := same_array_iff.mp h
    cases hb with
    | element hb => exact ih hq.of_array hitems hb
  | field hmem _ ih =>
    obtain ⟨qs, rfl, -, hfound⟩ := same_object_iff.mp h
    cases hb with
    | field hmem' hb =>
      -- the path leads to the property that was found, as no other one has its name
      obtain ⟨q', hq', hsame⟩ := hfound _ hmem
      obtain rfl := Option.some.inj ((Entries.find?_of_mem hq.keys_nodup hmem').symm.trans hq')
      exact ih (hq.of_object hmem') hsame hb

/-- Properties that compare the same are written equal. -/
theorem written_of_same (h : p.same q) : p.toJson.same q.toJson := by
  have hstring (s : String) : (Value.string s).same (.string s) := Value.same_string_iff.mpr rfl
  have hlength (n : UInt64) : (Value.nat n.toNat).same (.nat n.toNat) :=
    Value.same_nat_iff.mpr rfl
  induction p generalizing q with
  | ref pointer required =>
    obtain rfl := same_ref_iff.mp h
    exact toJson_same_of_agree (.cons ⟨rfl, hstring _⟩ .nil)
  | array items description required ih =>
    obtain ⟨items', rfl, hitems⟩ := same_array_iff.mp h
    refine toJson_same_of_agree (.cons ⟨rfl, hstring _⟩ (.cons ⟨rfl, ih hitems⟩ ?_))
    exact Json.agree_optionalEntry_self hstring
  | object names ps description required ih =>
    obtain ⟨qs, rfl, hlength, hfound⟩ := same_object_iff.mp h
    have hproperties : (Value.object (ps.map fun e => (e.1, e.2.toJson))).same
        (.object (qs.map fun e => (e.1, e.2.toJson))) := by
      rw [Value.same_object_iff]
      refine (Entries.Found.map_iff toJson toJson).mpr ⟨hlength, fun e he => ?_⟩
      obtain ⟨q, hq, hsame⟩ := hfound e he
      exact ⟨q, hq, ih e he hsame⟩
    apply toJson_same_of_agree
    rw [written_object, written_object]
    refine List.rel_append (.cons ⟨rfl, hstring _⟩ Json.agree_stringsEntry_self)
      (.cons ⟨rfl, hproperties⟩ ?_)
    exact Json.agree_optionalEntry_self hstring
  | scalar s =>
    obtain ⟨t, rfl, hs⟩ := same_scalar_iff.mp h
    obtain ⟨htype, hformat, hdescription, hsample, hvalidation, -⟩ := ScalarProperty.same_iff.mp hs
    obtain ⟨hpattern, hminLength, hmaxLength, hminimum, hmaximum, honeOf⟩ :=
      Validation.same_iff.mp hvalidation
    apply toJson_same_of_agree
    rw [written_scalar, written_scalar, htype, hformat, hdescription, hsample, hpattern, hminLength,
      hmaxLength, honeOf]
    refine List.rel_append
      (List.rel_append (List.rel_append (.cons ⟨rfl, hstring _⟩ ?_) ?_) ?_)
      (List.rel_append
        (List.rel_append (List.rel_append (List.rel_append (List.rel_append ?_ ?_) ?_) ?_) ?_) ?_)
    · exact Json.agree_optionalEntry_self hstring
    · exact Json.agree_optionalEntry_self hstring
    · exact Json.agree_optionalEntry_self hstring
    · exact Json.agree_optionalEntry_self hstring
    · exact Json.agree_optionalEntry_self hlength
    · exact Json.agree_optionalEntry_self hlength
    · exact Json.agree_optionalEntry (Binary64.optionSame_iff.mp hminimum).1
    · exact Json.agree_optionalEntry (Binary64.optionSame_iff.mp hmaximum).1
    · exact Json.agree_stringsEntry_self

/-- Properties compare the same exactly if they are written equal and do not differ in what is not
written, at any path. -/
theorem same_iff (hp : p.DistinctNames) (hq : q.DistinctNames) :
    p.same q ↔ p.toJson.same q.toJson ∧
      ∀ path a b, p.HasAt path a → q.HasAt path b → ¬ a.DiffersUnwritten b :=
  ⟨fun h => ⟨written_of_same h, fun _ _ _ ha hb => clear_of_same (same_of_hasAt hq h ha hb)⟩,
    fun ⟨hwritten, hclear⟩ => same_of_written hp hwritten hclear⟩

end Property

/-! ## Models -/

namespace Model

variable {a b : Model}

theorem not_differsUnwritten_inline :
    ¬ (a.inline true none {}).DiffersUnwritten (b.inline true none {}) := by
  cases a <;> cases b <;>
    simp [inline, Property.DiffersUnwritten, Property.isRequired, Property.bounds,
      Binary64.not_blurred_none]

/-- Models compare the same exactly if they are written equal and do not differ in what is not
written. -/
theorem same_iff (ha : (a.inline true none {}).DistinctNames)
    (hb : (b.inline true none {}).DistinctNames) :
    a.same b ↔ a.toJson.same b.toJson ∧ ¬ a.DiffersUnwritten b := by
  rw [← same_inline true none Validation.same_empty, Property.same_iff ha hb, toJson_inline,
    toJson_inline]
  refine and_congr_right fun _ => ⟨?_, ?_⟩
  · rintro hclear ⟨path, p, q, hp, hq, hdiffers⟩
    cases path with
    | nil => cases hp
    | cons step path =>
      exact hclear _ p q (hasAt_inline_iff.mpr hp) (hasAt_inline_iff.mpr hq) hdiffers
  · intro hclear path p q hp hq hdiffers
    cases path with
    | nil =>
      -- only what stands below a model can differ, so the roots are compared here
      rw [Property.hasAt_nil_iff.mp hp, Property.hasAt_nil_iff.mp hq] at hdiffers
      exact not_differsUnwritten_inline hdiffers
    | cons step path =>
      exact hclear ⟨_, p, q, hasAt_inline_iff.mp hp, hasAt_inline_iff.mp hq, hdiffers⟩

end Model

/-! ## Conflicts -/

namespace Mapping

variable {m : Mapping} {before after : List (String × Model)} {named : String × Model}

/-- **What a conflict is.** A later definition of a name is reported exactly if it is written
differently from the definition that is kept under the name, or differs from it in what is not
written. -/
theorem conflict_iff (h : m.definitions = .ok (before ++ named :: after))
    (hlater : named.1 ∈ Entries.keys before) :
    ∃ kept, (Definitions.assemble (before ++ named :: after)).entries.find? named.1 = some kept ∧
      ((Definitions.assemble (before ++ [named])).conflicts ≠
          (Definitions.assemble before).conflicts ↔
        ¬ kept.toJson.same named.2.toJson ∨ kept.DiffersUnwritten named.2) := by
  obtain ⟨kept, hmem, hkept, hconflict⟩ := Definitions.exists_earlier hlater after
  have hkeptNames := distinctNames_of_definitions h (List.mem_append_left _ hmem)
  have hlaterNames := distinctNames_of_definitions h
    (List.mem_append_right before List.mem_cons_self)
  refine ⟨kept, hkept, (not_congr hconflict).trans ?_⟩
  rw [Model.same_iff hkeptNames hlaterNames, not_and_or, not_not]

/-- Two lists of tags; the first one asks for its elements. -/
def taggedTwice : Mapping :=
  objectOf [("a", (listOf text.required).withName "Tags"), ("b", (listOf text).withName "Tags")]

theorem conflict_iff_taggedTwice :
    ∃ first second, taggedTwice.definitions = .ok [("Tags", first), ("Tags", second)] ∧
      ∃ kept, (Definitions.assemble [("Tags", first), ("Tags", second)]).entries.find? "Tags" =
          some kept ∧ kept.toJson.same second.toJson ∧ kept.DiffersUnwritten second := by
  have htags : taggedTwice.definitions = .ok ([("Tags", _)] ++ ("Tags", _) :: []) := rfl
  obtain ⟨kept, hkept, hconflict⟩ := conflict_iff htags List.mem_cons_self
  obtain rfl := Option.some.inj hkept
  exact ⟨_, _, htags, _, hkept, rfl, (hconflict.mp Nat.one_ne_zero).resolve_left (· rfl)⟩

/-- The second list of tags is reported although it is written like the first, which is kept. -/
theorem taggedTwice_conflict :
    ∃ first second, taggedTwice.definitions = .ok [("Tags", first), ("Tags", second)] ∧
      (Definitions.assemble [("Tags", first), ("Tags", second)]).entries = [("Tags", first)] ∧
      (Definitions.assemble [("Tags", first), ("Tags", second)]).conflicts = 1 ∧
      first.toJson = second.toJson :=
  ⟨_, _, rfl, rfl, rfl, rfl⟩

end Mapping

end FieldSchema
