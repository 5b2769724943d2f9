import FieldSchema.Json.Printer
import FieldSchema.Proofs.Conversion
import FieldSchema.Proofs.Fragments

/-!
# Descriptions alone and inline

A node is described in two ways: on its own by a model, and inline by a property. The two agree. A
list or an object is described and written alike in both, and the model of a single value is written
like its property without the example and the keywords.

* `Json.Value.without`: an object without the entries of some names. `Json.Value.SameText`: two
  values are written alike, on one line and indented.
* `ScalarProperty.toJson_without`: what is left of a single value without what only an inline
  description says.
* `Mapping.described_alone_as_inline`: the two descriptions of any node.
-/

namespace FieldSchema

open Json (Value optionalEntry stringsEntry)

/-! ## Leaving entries out -/

/-- An object without the entries of some names. -/
def Json.Value.without (names : List String) : Value → Value
  | .object entries => .object (entries.filter fun e => e.1 ∉ names)
  | v => v

/-- Where the entries of some names stand at the end, the others are left. -/
theorem Json.Value.without_append {names : List String} {es fs : Entries Value}
    (hes : ∀ name ∈ Entries.keys es, name ∉ names) (hfs : Entries.keys fs ⊆ names) :
    (Value.object (es ++ fs)).without names = .object es := by
  have hkept : es.filter (fun e => e.1 ∉ names) = es :=
    List.filter_eq_self.mpr fun e he => decide_eq_true (hes e.1 (Entries.mem_keys_of_mem he))
  have hleft : fs.filter (fun e => e.1 ∉ names) = [] :=
    List.filter_eq_nil_iff.mpr fun e he => by simpa using hfs (Entries.mem_keys_of_mem he)
  rw [without, List.filter_append, hkept, hleft, List.append_nil]

/-- Two values have the same text, on one line and indented. -/
def Json.Value.SameText (v w : Value) : Prop := v.compact = w.compact ∧ v.pretty = w.pretty

theorem Json.Value.SameText.of_eq {v w : Value} (h : v = w) : v.SameText w :=
  ⟨congrArg compact h, congrArg pretty h⟩

/-! ## Single values -/

/-- The names of what is said of a single value only where it is described inline. -/
def inlineKeys : List String := "example" :: Validation.keywords

/-- Without its example and its keywords, a single value is written like its model. -/
theorem ScalarProperty.toJson_without (s : ScalarProperty) :
    s.toJson.without inlineKeys = (Model.primitive s.type s.format s.description).toJson := by
  have hsplit : s.toJson = .object (
      (("type", .string s.type.name) ::
        optionalEntry "format" .string s.format ++
        optionalEntry "description" .string s.description) ++
      (optionalEntry "example" .string s.sample ++ s.validation.toEntries)) := by
    rw [toJson_eq, List.append_assoc]
  rw [hsplit]
  refine Value.without_append ?_ ?_
  · have hkept : (Entries.keys (("type", .string s.type.name) ::
        optionalEntry "format" .string s.format ++
        optionalEntry "description" .string s.description)).Sublist
          (["type", "format"] ++ ["description"]) := by
      rw [Entries.keys, List.map_append]
      exact (Json.keys_optionalEntry_sublist.cons_cons "type").append
        Json.keys_optionalEntry_sublist
    have hdisjoint : ∀ name ∈ ["type", "format"] ++ ["description"], name ∉ inlineKeys := by decide
    exact fun name hname => hdisjoint name (hkept.subset hname)
  · rw [Entries.keys, List.map_append]
    exact (Json.keys_optionalEntry_sublist.append s.validation.keys_toEntries_sublist).subset

/-! ## Both descriptions of a node -/

/-- **A node is described alone as it is inline.** Either both descriptions fail with the same
error, or both are there. A list or an object then has the same items or the same properties in the
same order, the same required names and the same description in both, and the same text. The text
of the model of a single value is that of its property without the example and the keywords. -/
theorem Mapping.described_alone_as_inline (m : Mapping) :
    (∃ e, m.toModel = .error e ∧ m.toProperty = .error e) ∨
    ∃ model p, m.toModel = .ok model ∧ m.toProperty = .ok p ∧
      ((∃ fields t names properties, m = .object fields t ∧
          model = .object names properties t.extras.description ∧
          p = .object names properties t.extras.description t.isRequired ∧
          model.toJson.SameText p.toJson) ∨
        (∃ element t items, m = .list element t ∧
          model = .array items t.extras.description ∧
          p = .array items t.extras.description t.isRequired ∧
          model.toJson.SameText p.toJson) ∨
        ∃ type t s, m = .scalar type t ∧
          model = .primitive s.type s.format s.description ∧ p = .scalar s ∧
          model.toJson.SameText (p.toJson.without inlineKeys)) := by
  cases hmodel : m.toModel with
  | error e => exact .inl ⟨e, rfl, by rw [toProperty_eq_map_toModel, hmodel]; rfl⟩
  | ok model =>
    refine .inr ⟨model, _, rfl, exists_toProperty hmodel, ?_⟩
    cases m with
    | object fields t =>
      obtain ⟨⟨properties, names⟩, -, heq⟩ := bind_eq_ok.mp hmodel
      obtain rfl := pure_eq_ok.mp heq
      exact .inl ⟨fields, t, names, properties, rfl, rfl, rfl, .of_eq rfl⟩
    | list element t =>
      obtain ⟨items, -, heq⟩ := bind_eq_ok.mp hmodel
      obtain rfl := pure_eq_ok.mp heq
      exact .inr (.inl ⟨element, t, items, rfl, rfl, rfl, .of_eq rfl⟩)
    | scalar type t =>
      obtain ⟨typeName, format, -, -, rfl⟩ := toModel_scalar_eq_ok.mp hmodel
      let s : ScalarProperty := {
        type := typeName
        format := format
        description := t.extras.description
        sample := t.extras.sample
        validation := (scalar type t).validation
        required := t.isRequired }
      exact .inr (.inr ⟨type, t, s, rfl, rfl, rfl, .of_eq s.toJson_without.symm⟩)

/-- The expression a code must match and its example are left out, its format is not. -/
example :
    let code := (Mapping.text.constrained (.pattern "[A-Z]+")).withExtras
      { format := some "code", sample := some "AB" }
    (code.toProperty.map fun p => p.toJson.without inlineKeys) =
      .ok (.object [("type", .string "string"), ("format", .string "code")]) := rfl

end FieldSchema
