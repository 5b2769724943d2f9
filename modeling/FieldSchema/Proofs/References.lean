import FieldSchema.Proofs.ForwardPointers
import FieldSchema.Proofs.JsonPointers
import FieldSchema.Proofs.Resolution
import FieldSchema.Proofs.WrittenForm

/-!
# References in the document of definitions

The pointer to a definition is its name behind a fixed start, and nothing in the name is escaped. A
reader of the document takes it for a JSON pointer, in which a slash, a tilde and a percent sign
have a meaning.

* `Json.Value.references`: the references in a JSON value. `Definitions.references_document`:
  those in the document of definitions are the pointers in the definitions.
* `definitionRef_tokens_iff`: a reader finds the name in the pointer exactly if none of the three is
  in the name. `Definitions.resolve?_document`: then the pointer leads to the definition.
* `Mapping.references_resolve`: so it is with all references in the document of a tree, which stand
  for the named nodes. With other names they may lead nowhere (`Mapping.slashName_unresolved`).
-/

namespace FieldSchema

open Json (Value optionalEntry stringsEntry)
open Json.Pointer (Plain referenceTokens? fragmentTokens?)

/-! ## References in JSON values -/

namespace Json.Value

mutual

/-- The references in a value: the texts of entries with the name for it, at any depth. -/
def references : Value → List String
  | .array items => itemReferences items
  | .object entries => entryReferences entries
  | .null | .bool _ | .number _ | .string _ => []

/-- The references in the items of an array. -/
def itemReferences : List Value → List String
  | [] => []
  | v :: rest => references v ++ itemReferences rest

/-- The references in the entries of an object. -/
def entryReferences : List (String × Value) → List String
  | [] => []
  | (key, v) :: rest =>
    (if key = "$ref" then v.string?.toList else []) ++ references v ++ entryReferences rest

end

variable {α : Type} {name : String} {write : α → Value} {a : Option α} {values : List String}

theorem entryReferences_append (es fs : List (String × Value)) :
    entryReferences (es ++ fs) = entryReferences es ++ entryReferences fs := by
  induction es with
  | nil => rfl
  | cons e es ih =>
    rw [List.cons_append, entryReferences, entryReferences, ih, List.append_assoc,
      List.append_assoc, List.append_assoc]

theorem entryReferences_cons {v : Value} (hname : name ≠ "$ref") (rest : List (String × Value)) :
    entryReferences ((name, v) :: rest) = v.references ++ entryReferences rest := by
  rw [entryReferences, if_neg hname, List.nil_append]

/-- Where no text is the value of an entry, the references are those in the values. -/
theorem entryReferences_eq {es : List (String × Value)} (h : ∀ e ∈ es, e.2.string? = none) :
    entryReferences es = es.flatMap fun e => e.2.references := by
  induction es with
  | nil => rfl
  | cons e es ih =>
    have hown : (if e.1 = "$ref" then e.2.string?.toList else []) = [] := by
      rw [h e List.mem_cons_self, Option.toList_none, ite_self]
    rw [entryReferences, hown, List.nil_append, List.flatMap_cons,
      ih fun d hd => h d (List.mem_cons_of_mem _ hd)]

/-- An entry of a value without references has none. -/
theorem entryReferences_optionalEntry (hname : name ≠ "$ref")
    (hwrite : ∀ x, (write x).references = []) :
    entryReferences (optionalEntry name write a) = [] := by
  cases a with
  | none => rfl
  | some x =>
    show entryReferences [(name, write x)] = []
    rw [entryReferences_cons hname, hwrite x]
    rfl

theorem references_strings (values : List String) : (strings values).references = [] := by
  show itemReferences (values.map string) = []
  induction values with
  | nil => rfl
  | cons s values ih =>
    rw [List.map_cons, itemReferences, ih]
    rfl

theorem entryReferences_stringsEntry (hname : name ≠ "$ref") :
    entryReferences (stringsEntry name values) = [] := by
  unfold stringsEntry
  split
  · rfl
  · rw [entryReferences_cons hname, references_strings]
    rfl

end Json.Value

open Json.Value (references entryReferences entryReferences_append entryReferences_cons
  entryReferences_optionalEntry entryReferences_stringsEntry)

/-! ## References in written descriptions -/

theorem entryReferences_text {name : String} (hname : name ≠ "$ref") (text : Option String) :
    entryReferences (optionalEntry name Value.string text) = [] :=
  entryReferences_optionalEntry hname fun _ => rfl

theorem Validation.entryReferences_toEntries (v : Validation) :
    entryReferences v.toEntries = [] := by
  have hlength {name : String} (hname : name ≠ "$ref") (n : Option UInt64) :
      entryReferences (Json.lengthEntry name n) = [] :=
    entryReferences_optionalEntry hname fun _ => rfl
  have hbound {name : String} (hname : name ≠ "$ref") (x : Option Binary64) :
      entryReferences (optionalEntry name Value.float x) = [] :=
    entryReferences_optionalEntry hname fun _ => rfl
  simp only [toEntries, entryReferences_append, hlength (by decide : "minLength" ≠ "$ref"),
    hlength (by decide : "maxLength" ≠ "$ref"), hbound (by decide : "minimum" ≠ "$ref"),
    hbound (by decide : "maximum" ≠ "$ref"), entryReferences_text (by decide : "pattern" ≠ "$ref"),
    entryReferences_stringsEntry (by decide : "enum" ≠ "$ref"), List.append_nil]

theorem ScalarProperty.references_toJson (s : ScalarProperty) : s.toJson.references = [] := by
  rw [toJson_eq, references, List.cons_append, List.cons_append, List.cons_append,
    entryReferences_cons (by decide), entryReferences_append, entryReferences_append,
    entryReferences_append, entryReferences_text (by decide), entryReferences_text (by decide),
    entryReferences_text (by decide), s.validation.entryReferences_toEntries]
  rfl

namespace Property

variable {p q : Property}

theorem string?_toJson (p : Property) : p.toJson.string? = none := by
  cases p <;> rfl

/-- A description is written with its pointers as references. -/
theorem references_toJson (p : Property) : p.toJson.references = p.pointers := by
  induction p with
  | ref pointer required => rfl
  | array items description required ih =>
    rw [toJson_array, references, entryReferences_cons (by decide),
      entryReferences_cons (by decide), ih, entryReferences_text (by decide), List.append_nil]
    rfl
  | object names ps description required ih =>
    -- an entry is a property, so none is a text, whatever its name
    have hentries : entryReferences (ps.map fun e => (e.1, e.2.toJson)) = entryPointers ps := by
      have htexts : ∀ e ∈ ps.map fun e => (e.1, e.2.toJson), e.2.string? = none := by
        rw [List.forall_mem_map]
        exact fun e _ => string?_toJson e.2
      rw [Json.Value.entryReferences_eq htexts, List.flatMap_map, entryPointers_eq]
      exact List.flatMap_congr ih
    rw [toJson_object, references, List.cons_append, entryReferences_cons (by decide),
      entryReferences_append, entryReferences_stringsEntry (by decide),
      entryReferences_cons (by decide), references, hentries, entryReferences_text (by decide),
      List.append_nil]
    rfl
  | scalar s => exact s.references_toJson

end Property

theorem Model.string?_toJson (model : Model) : model.toJson.string? = none := by
  cases model <;> rfl

theorem Model.references_toJson (model : Model) : model.toJson.references = model.pointers := by
  rw [← toJson_inline model true, Property.references_toJson, pointers_inline]

/-- The references in the document of definitions are the pointers in the definitions. -/
theorem Definitions.references_document (d : Definitions) :
    d.document.references = d.entries.flatMap fun e => e.2.pointers := by
  have hentries : entryReferences (d.entries.map fun e => (e.1, e.2.toJson)) =
      d.entries.flatMap fun e => e.2.pointers := by
    have htexts : ∀ e ∈ d.entries.map fun e => (e.1, e.2.toJson), e.2.string? = none := by
      rw [List.forall_mem_map]
      exact fun e _ => e.2.string?_toJson
    rw [Json.Value.entryReferences_eq htexts, List.flatMap_map]
    exact List.flatMap_congr fun e _ => e.2.references_toJson
  rw [document, references, entryReferences_cons (by decide), references]
  show entryReferences (d.entries.map fun e => (e.1, e.2.toJson)) ++ [] = _
  rw [List.append_nil, hentries]

/-! ## Pointers at paths -/

namespace Property

variable {p : Property} {pointer : String}

/-- The pointers in a description are those that stand at its paths. -/
theorem mem_pointers_iff :
    pointer ∈ p.pointers ↔ ∃ path required, p.HasAt path (.ref pointer required) := by
  constructor
  · intro h
    induction p with
    | ref own required =>
      cases List.mem_singleton.mp h
      exact ⟨[], required, .here _⟩
    | array items description required ih =>
      obtain ⟨path, own, hpath⟩ := ih h
      exact ⟨.element :: path, own, .element hpath⟩
    | object names ps description required ih =>
      obtain ⟨e, he, hpointer⟩ := mem_pointers_object.mp h
      obtain ⟨path, own, hpath⟩ := ih e he hpointer
      exact ⟨.field e.1 :: path, own, .field he hpath⟩
    | scalar s => cases h
  · rintro ⟨path, required, hpath⟩
    generalize hq : Property.ref pointer required = q at hpath
    induction hpath with
    | here p =>
      rw [← hq]
      exact List.mem_singleton_self _
    | element _ ih => exact ih hq
    | field hmem _ ih => exact mem_pointers_object.mpr ⟨_, hmem, ih hq⟩

end Property

theorem Model.mem_pointers_iff {model : Model} {pointer : String} :
    pointer ∈ model.pointers ↔ ∃ path required, model.HasAt path (.ref pointer required) := by
  rw [← pointers_inline model true none {}, Property.mem_pointers_iff]
  constructor
  · rintro ⟨path, required, hpath⟩
    cases path with
    | nil => cases model <;> cases hpath
    | cons step path => exact ⟨step :: path, required, hasAt_inline_iff.mp hpath⟩
  · rintro ⟨path, required, hpath⟩
    cases path with
    | nil => cases hpath
    | cons step path => exact ⟨step :: path, required, hasAt_inline_iff.mpr hpath⟩

/-! ## What a reader finds -/

theorem toList_definitionRef (name : String) :
    (definitionRef name).toList = '#' :: Json.Pointer.written "definitions".toList name.toList := by
  rw [definitionRef, String.toList_append]
  rfl

/-- A reader finds the name in the pointer to its definition exactly if the name has no slash, no
tilde and no percent sign. -/
theorem definitionRef_tokens_iff {name : String} :
    referenceTokens? (definitionRef name) = some ["definitions", name] ↔ Plain name.toList := by
  have hroot : Plain "definitions".toList := by decide
  rw [← Json.Pointer.fragmentTokens?_written hroot, referenceTokens?, toList_definitionRef]
  show (fragmentTokens? _).map (List.map String.ofList) = _ ↔ _
  have htokens : some ["definitions", name] =
      (some ["definitions".toList, name.toList]).map (List.map String.ofList) := by
    simp
  rw [htokens, (Option.map_injective (List.map_injective_iff.mpr
    fun _ _ => String.ofList_injective)).eq_iff]

namespace Definitions

variable {d : Definitions} {name : String} {kept : Model}

/-- Then the pointer leads to the definition. -/
theorem resolve?_document (hname : Plain name.toList) (h : d.entries.find? name = some kept) :
    d.document.resolve? (definitionRef name) = some kept.toJson := by
  rw [Value.resolve?, definitionRef_tokens_iff.mpr hname]
  show (Entries.find? (d.entries.map fun e => (e.1, e.2.toJson)) name).bind _ = _
  rw [Entries.find?_map, h]
  rfl

end Definitions

/-! ## References of a tree -/

namespace Mapping

variable {m : Mapping}

/-- **References as JSON pointers.** The references in the document of merged definitions are the
pointers in the definitions. Such a pointer stands for a named node below the node of the
definition, and there is a definition of that name. A reader finds the name in the pointer exactly
if it has no slash, no tilde and no percent sign, and then finds the definition. -/
theorem references_resolve {ds : List (String × Model)} (h : m.definitions = .ok ds) :
    (∀ reference, reference ∈ (Definitions.assemble ds).document.references ↔
      ∃ e ∈ (Definitions.assemble ds).entries, ∃ path required,
        e.2.HasAt path (.ref reference required)) ∧
    ∀ e ∈ (Definitions.assemble ds).entries, ∀ path reference required,
      e.2.HasAt path (.ref reference required) →
        ∃ d n name kept, (e.1, d) ∈ m.namedNodes ∧ d.toModel = .ok e.2 ∧ d.at? path = some n ∧
          n.refName = some name ∧ reference = definitionRef name ∧
          (Definitions.assemble ds).entries.find? name = some kept ∧
          (referenceTokens? reference = some ["definitions", name] ↔ Plain name.toList) ∧
          (Plain name.toList →
            (Definitions.assemble ds).document.resolve? reference = some kept.toJson) := by
  constructor
  · intro reference
    rw [Definitions.references_document, List.mem_flatMap]
    simp only [Model.mem_pointers_iff]
  · intro e he path reference required hpath
    obtain ⟨d, hd, hmodel⟩ :=
      (definitions_eq_ok.mp h).exists_left (Definitions.mem_of_mem_assemble he)
    obtain ⟨n, hn, hbelow⟩ := exists_named_of_pointer hmodel hpath
    obtain ⟨-, hname⟩ := mem_namedBelow.mp hbelow
    have hpointer := Model.mem_pointers_iff.mpr ⟨path, required, hpath⟩
    obtain ⟨c, -, rfl⟩ := exists_cut_of_model_pointer hmodel hpointer
    have hkey := (merged_resolves h).1 e he _ hpointer
    rw [simpleRef_definitionRef] at hname hkey
    obtain ⟨kept, hkept⟩ := Option.isSome_iff_exists.mp ((Entries.find?_isSome_iff _ _).mpr hkey)
    exact ⟨d, n, c.1, kept, hd, hmodel, hn, hname, rfl, hkept, definitionRef_tokens_iff,
      fun hplain => Definitions.resolve?_document hplain hkept⟩

theorem references_resolve_order :
    ∃ ds kept, order.definitions = .ok ds ∧
      (Definitions.assemble ds).entries.find? "Person" = some kept ∧
      (Definitions.assemble ds).document.resolve? "#/definitions/Person" = some kept.toJson := by
  obtain ⟨-, hresolve⟩ := references_resolve (m := order) rfl
  obtain ⟨_, _, name, kept, -, -, -, -, hname, hkept, -, hplain⟩ :=
    hresolve _ List.mem_cons_self [.field "buyer"] (definitionRef "Person") true
      (.field List.mem_cons_self (.here _))
  obtain rfl : "Person" = name := by
    rw [← simpleRef_definitionRef "Person", hname, simpleRef_definitionRef]
  exact ⟨_, kept, rfl, hkept, hplain (by decide)⟩

/-- A pet whose kind has a slash in its name. -/
def petOfKind : Mapping := (objectOf [("kind", text.withName "Pet/Kind")]).withName "Pet"

/-- The kind has a definition, but the pointer to it leads below that of another name, which is
missing. -/
theorem slashName_unresolved :
    ∃ ds kept, petOfKind.definitions = .ok ds ∧
      (Definitions.assemble ds).document.references = ["#/definitions/Pet/Kind"] ∧
      (Definitions.assemble ds).entries.find? "Pet/Kind" = some kept ∧
      referenceTokens? "#/definitions/Pet/Kind" = some ["definitions", "Pet", "Kind"] ∧
      (Definitions.assemble ds).document.resolve? "#/definitions/Pet/Kind" = none := by
  have htokens :
      referenceTokens? "#/definitions/Pet/Kind" = some ["definitions", "Pet", "Kind"] := by
    show (fragmentTokens? "/definitions/Pet/Kind".toList).map _ = _
    rw [Json.Pointer.fragmentTokens?_of_plain (by decide)]
    decide
  refine ⟨_, _, rfl, by decide, rfl, htokens, ?_⟩
  rw [Value.resolve?, htokens]
  rfl

end Mapping

end FieldSchema
