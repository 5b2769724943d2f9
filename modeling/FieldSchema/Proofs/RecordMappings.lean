import FieldSchema.Document.Validation
import FieldSchema.Proofs.Entries
import FieldSchema.Proofs.Fallible

/-!
# The mapping of a record

* `Definition.toMapping_eq_ok`: a record has a mapping exactly if its children fit its type and have
  mappings, and it is put together of these.
  `toMapping_eq_scalar`, `toMapping_eq_list` and `toMapping_eq_object` say so for a mapping of which
  the shape is known.
* `Definition.fieldMappings_eq_ok`: the mappings of fields are those of their records, in order.
-/

namespace FieldSchema.Document.Definition

variable {path : Path} {d : Definition} {m : Mapping} {ds : List (String × Definition)}
  {ms : List (String × Mapping)} {type : String} {items : Option Definition}
  {fields : Option (List (String × Definition))} {keywords : Keywords}

/-- The mappings of fields are those of their records, under the same names. -/
theorem fieldMappings_eq_ok :
    fieldMappings path ds = .ok ms ↔
      List.Forall₂ (fun e f => e.1 = f.1 ∧ e.2.toMapping (path ++ [.field e.1]) = .ok f.2) ds
        ms := by
  induction ds generalizing ms with
  | nil => rw [fieldMappings, Except.ok.injEq, List.forall₂_nil_left_iff, eq_comm]
  | cons e ds ih =>
    obtain ⟨name, d⟩ := e
    rw [fieldMappings, List.forall₂_cons_left_iff]
    simp only [bind_eq_ok, pure_eq_ok, ih]
    constructor
    · rintro ⟨n, hn, rest, hrest, rfl⟩
      exact ⟨(name, n), rest, ⟨rfl, hn⟩, hrest, rfl⟩
    · rintro ⟨⟨_, n⟩, rest, ⟨rfl, hn⟩, hrest, rfl⟩
      exact ⟨n, hn, rest, hrest, rfl⟩

theorem agree_of_fieldMappings (h : fieldMappings path ds = .ok ms) :
    Entries.Agree (fun d n => ∃ path, d.toMapping path = .ok n) ds ms :=
  (fieldMappings_eq_ok.mp h).imp fun _ _ hef => ⟨hef.1, _, hef.2⟩

/-- The shape of the mapping of a record. -/
theorem toMapping_eq_ok :
    (mk type items fields keywords).toMapping path = .ok m ↔
      (type = "list" ∧ ∃ element n, items = some element ∧ fields = none ∧
        element.toMapping (path ++ [.element]) = .ok n ∧ m = .list n keywords.traits) ∨
      (type = "object" ∧ ∃ ds ms, items = none ∧ fields = some ds ∧
        fieldMappings path ds = .ok ms ∧ m = .object ms keywords.traits) ∨
      (type ≠ "list" ∧ type ≠ "object" ∧ items = none ∧ fields = none ∧
        m = .scalar (.ofTag type) keywords.traits) := by
  rw [toMapping.eq_def]
  by_cases hlist : type = "list"
  · subst hlist
    cases items with
    | none => cases fields <;> simp
    | some element =>
      cases fields <;> simp [-bind_pure_comp, bind_eq_ok, pure_eq_ok, eq_comm (b := m)]
  · by_cases hobject : type = "object"
    · subst hobject
      cases fields with
      | none => cases items <;> simp
      | some ds =>
        cases items <;> simp [-bind_pure_comp, bind_eq_ok, pure_eq_ok, eq_comm (b := m)]
    · cases items <;> cases fields <;> simp [hlist, hobject, eq_comm (b := m)]

theorem toMapping_eq_scalar {scalarType : ScalarType} {t : Traits} :
    d.toMapping path = .ok (.scalar scalarType t) ↔
      ∃ tag keywords, d = mk tag none none keywords ∧ tag ≠ "list" ∧ tag ≠ "object" ∧
        scalarType = .ofTag tag ∧ t = keywords.traits := by
  cases d with
  | mk type items fields keywords => rw [toMapping_eq_ok]; grind

theorem toMapping_eq_list {element : Mapping} {t : Traits} :
    d.toMapping path = .ok (.list element t) ↔
      ∃ item keywords, d = mk "list" (some item) none keywords ∧
        item.toMapping (path ++ [.element]) = .ok element ∧ t = keywords.traits := by
  cases d with
  | mk type items fields keywords => rw [toMapping_eq_ok]; grind

theorem toMapping_eq_object {t : Traits} :
    d.toMapping path = .ok (.object ms t) ↔
      ∃ ds keywords, d = mk "object" none (some ds) keywords ∧
        fieldMappings path ds = .ok ms ∧ t = keywords.traits := by
  cases d with
  | mk type items fields keywords => rw [toMapping_eq_ok]; grind

end FieldSchema.Document.Definition
