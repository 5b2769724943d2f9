import FieldSchema.Proofs.MappingRecords

/-!
# The records of a document

A record with the records below it, each with its way from the root.

* `Document.Definition.ind`: induction on records; the hypotheses are there for an item and for
  fields, whatever the type of the record is.
* `Document.Definition.located`: all records with their paths, a record before its item and its
  fields, and fields in order. `Document.Definition.exists_field_of_mem` says that the names on a
  path are names of fields.
* `Document.Definition.forall₂_located`: the nodes of the mapping of a record are the mappings of
  these records, one for each, in order.
-/

namespace FieldSchema.Document.Definition

/-- Induction on records. -/
@[elab_as_elim]
theorem ind {motive : Definition → Prop}
    (mk : ∀ type items fields keywords, (∀ d ∈ items, motive d) →
      (∀ ds ∈ fields, ∀ e ∈ ds, motive e.2) → motive (.mk type items fields keywords))
    (d : Definition) : motive d := by
  cases d with
  | mk type items fields keywords =>
    exact mk type items fields keywords (fun d _ => ind mk d) fun ds _ e _ => ind mk e.2
termination_by d
decreasing_by
  · rename_i hd
    obtain rfl := Option.mem_def.mp hd
    simp only [Definition.mk.sizeOf_spec, Option.some.sizeOf_spec]
    omega
  · rename_i hds he
    obtain rfl := Option.mem_def.mp hds
    have hlt := List.sizeOf_lt_of_mem he
    obtain ⟨name, d⟩ := e
    simp only [Prod.mk.sizeOf_spec, Definition.mk.sizeOf_spec, Option.some.sizeOf_spec] at hlt ⊢
    omega

/-! ## Records with their paths -/

mutual

/-- A record and all records below it with their paths, if its own path is given. -/
def locatedFrom (path : Path) : Definition → List (Path × Definition)
  | .mk type items fields keywords =>
    (path, .mk type items fields keywords) :: (locatedItem path items ++ locatedFields path fields)

/-- The records of the item of the record at a path. -/
def locatedItem (path : Path) : Option Definition → List (Path × Definition)
  | none => []
  | some d => locatedFrom (path ++ [Step.element]) d

/-- The records of the fields of the record at a path. -/
def locatedFields (path : Path) : Option (List (String × Definition)) → List (Path × Definition)
  | none => []
  | some ds => locatedEntries path ds

/-- The records of named records below a path. -/
def locatedEntries (path : Path) : List (String × Definition) → List (Path × Definition)
  | [] => []
  | (name, d) :: rest => locatedFrom (path ++ [Step.field name]) d ++ locatedEntries path rest

end

/-- All records of a document with their paths from the root. -/
def located (d : Definition) : List (Path × Definition) := d.locatedFrom []

variable {d : Definition} {m : Mapping} {path : Path} {e : Path × Definition} {type name : String}
  {items : Option Definition} {fields : Option (List (String × Definition))} {keywords : Keywords}

theorem locatedEntries_eq (path : Path) (ds : List (String × Definition)) :
    locatedEntries path ds = ds.flatMap fun f => f.2.locatedFrom (path ++ [Step.field f.1]) := by
  induction ds with
  | nil => rfl
  | cons f ds ih => rw [locatedEntries, ih, List.flatMap_cons]

theorem mem_locatedFrom :
    e ∈ (mk type items fields keywords).locatedFrom path ↔
      e = (path, mk type items fields keywords) ∨
      (∃ d ∈ items, e ∈ d.locatedFrom (path ++ [Step.element])) ∨
      ∃ ds ∈ fields, ∃ f ∈ ds, e ∈ f.2.locatedFrom (path ++ [Step.field f.1]) := by
  have hitem : e ∈ locatedItem path items ↔
      ∃ d ∈ items, e ∈ d.locatedFrom (path ++ [Step.element]) := by
    cases items <;> simp [locatedItem]
  have hfields : e ∈ locatedFields path fields ↔
      ∃ ds ∈ fields, ∃ f ∈ ds, e ∈ f.2.locatedFrom (path ++ [Step.field f.1]) := by
    cases fields <;> simp [locatedFields, locatedEntries_eq]
  rw [locatedFrom, List.mem_cons, List.mem_append, hitem, hfields]

/-- A name on the path of a record is that of a field of some record, unless it stands on the path
of the root already. -/
theorem exists_field_of_mem (he : e ∈ d.locatedFrom path) (hname : .field name ∈ e.1) :
    .field name ∈ path ∨
      ∃ n ∈ d.locatedFrom path, ∃ ds, n.2.fields = some ds ∧ name ∈ Entries.keys ds := by
  induction d using ind generalizing path with
  | mk type items fields keywords ihitem ihfield =>
    rcases mem_locatedFrom.mp he with rfl | ⟨d, hd, he⟩ | ⟨ds, hds, f, hf, he⟩
    · exact .inl hname
    · rcases ihitem d hd he with hpath | ⟨n, hn, hfield⟩
      · simp only [List.mem_append, List.mem_singleton, reduceCtorEq, or_false] at hpath
        exact .inl hpath
      · exact .inr ⟨n, mem_locatedFrom.mpr (.inr (.inl ⟨d, hd, hn⟩)), hfield⟩
    · rcases ihfield ds hds f hf he with hpath | ⟨n, hn, hfield⟩
      · simp only [List.mem_append, List.mem_singleton, Step.field.injEq] at hpath
        rcases hpath with hpath | rfl
        · exact .inl hpath
        · exact .inr ⟨_, mem_locatedFrom.mpr (.inl rfl), ds, hds, Entries.mem_keys_of_mem hf⟩
      · exact .inr ⟨n, mem_locatedFrom.mpr (.inr (.inr ⟨ds, hds, f, hf, hn⟩)), hfield⟩

/-! ## Records and nodes -/

/-- The nodes of the mapping of a record are the mappings of the records of its document. -/
theorem forall₂_located (h : d.toMapping path = .ok m) :
    List.Forall₂ (fun e n => e.2.toMapping e.1 = .ok n) (d.locatedFrom path) m.nodes := by
  induction d using ind generalizing path m with
  | mk type items fields keywords ihitem ihfield =>
    rw [locatedFrom, Mapping.nodes_eq]
    refine .cons h ?_
    rcases toMapping_eq_ok.mp h with
      ⟨-, element, n, rfl, rfl, hn, rfl⟩ | ⟨-, ds, ms, rfl, rfl, hms, rfl⟩ | ⟨-, -, rfl, rfl, rfl⟩
    · rw [locatedItem, locatedFields, List.append_nil]
      exact ihitem element rfl hn
    · have hfields := (List.forall₂_and_left _ _).mpr
        ⟨ihfield ds rfl, fieldMappings_eq_ok.mp hms⟩
      rw [locatedItem, locatedFields, locatedEntries_eq, List.nil_append]
      exact List.rel_flatMap hfields fun _ _ hef => hef.1 hef.2.2
    · exact .nil

end FieldSchema.Document.Definition
