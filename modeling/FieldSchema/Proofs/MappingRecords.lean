import FieldSchema.Proofs.MappingDocuments

/-!
# Mappings and their records

Which mappings a document can express, and how many ways there are to write one: a mapping has a
record exactly if it is canonical, and its records differ only in the words for the types of single
values, some of which have several tags.

* `Document.Keywords.constraints_ordered`: declared constraints stand in order, each kind at most
  once. `Document.Keywords.keywords_traits`: keywords are known from the traits they declare.
* `Document.Definition.unaliased`: a record in which each tag is the one its type is printed with.
* `Mapping.record`: the record that is written for a mapping.
* `Document.Definition.toMapping_eq_ok_iff_record`: a record has a mapping exactly if the mapping is
  canonical and the record is the one written for it, up to aliases of tags.
* `Document.Definition.expressible_mappings`: so the canonical mappings are those that have a
  record, and records of one mapping are equal up to aliases.
-/

namespace FieldSchema

/-! ## Keywords and traits -/

namespace Document.Keywords

theorem places_declared_sublist (b : Bool) (c : Constraint) :
    ((declared b c).map Constraint.place).Sublist [c.place] := by
  cases b with
  | false => exact List.nil_sublist _
  | true => exact List.Sublist.refl _

theorem places_given_sublist {α : Type} (c : α → Constraint) {place : Nat}
    (h : ∀ a, (c a).place = place) (a : Option α) :
    ((a.map c).toList.map Constraint.place).Sublist [place] := by
  cases a with
  | none => exact List.nil_sublist _
  | some a => exact (h a ▸ List.Sublist.refl _ : [(c a).place].Sublist [place])

/-- Declared constraints stand in the order of their places, each kind at most once. -/
theorem constraints_ordered (w : Keywords) :
    w.constraints.Pairwise fun a b => a.place < b.place := by
  have hplaces : (w.constraints.map Constraint.place).Sublist
      ([0] ++ [1] ++ [2] ++ [3] ++ [4] ++ [5] ++ [6] ++ [7]) := by
    rw [constraints]
    simp only [List.map_append]
    refine ((((((List.Sublist.append ?_ ?_).append ?_).append ?_).append ?_).append ?_).append
      ?_).append ?_
    · exact places_declared_sublist w.required .required
    · exact places_declared_sublist w.email .email
    · exact places_given_sublist .pattern (fun _ => rfl) w.pattern
    · exact places_given_sublist .minLength (fun _ => rfl) w.minLength
    · exact places_given_sublist .maxLength (fun _ => rfl) w.maxLength
    · exact places_given_sublist .minimum (fun _ => rfl) w.minimum
    · exact places_given_sublist .maximum (fun _ => rfl) w.maximum
    · exact places_given_sublist .oneOf (fun _ => rfl) w.oneOf
  exact List.pairwise_map.mp (List.Pairwise.sublist hplaces (by decide))

end Document.Keywords

open Document (Slot Keywords Definition Path)

/-- The keywords that declare traits. -/
def Traits.keywords (t : Traits) : Keywords := t.slots.foldl Keywords.set {}

namespace Document.Keywords

theorem foldl_declared (c : Constraint) (mk : Bool → Slot) (hc : c.slot = mk true) (b : Bool)
    {w : Keywords} (h : w.set (mk false) = w) :
    ((declared b c).map Constraint.slot).foldl set w = w.set (mk b) := by
  cases b with
  | false => exact h.symm
  | true => exact congrArg w.set hc

theorem slots_given {α : Type} (c : α → Constraint) (mk : Option α → Slot)
    (hc : ∀ a, (c a).slot = mk (some a)) (a : Option α) :
    (a.map c).toList.map Constraint.slot = Slot.given mk a := by
  cases a with
  | none => rfl
  | some a => exact congrArg (fun slot => [slot]) (hc a)

/-- The slots of declared constraints give the keywords back. -/
theorem foldl_constraints (w : Keywords) :
    (w.constraints.map Constraint.slot).foldl set {} = { w with extras := {} } := by
  rw [constraints]
  simp only [List.map_append, List.foldl_append]
  rw [foldl_declared .required .required rfl, foldl_declared .email .email rfl,
    slots_given .pattern .pattern fun _ => rfl, foldl_given .pattern,
    slots_given .minLength .minLength fun _ => rfl, foldl_given .minLength,
    slots_given .maxLength .maxLength fun _ => rfl, foldl_given .maxLength,
    slots_given .minimum .minimum fun _ => rfl, foldl_given .minimum,
    slots_given .maximum .maximum fun _ => rfl, foldl_given .maximum,
    slots_given .oneOf .oneOf fun _ => rfl, foldl_given .oneOf]
  -- a slot that sets nothing leaves keywords alone in which its place is still unset
  all_goals simp only [set]

/-- Keywords are known from the traits they declare. -/
theorem keywords_traits (w : Keywords) : w.traits.keywords = w := by
  rw [Traits.keywords, Traits.slots, List.foldl_append]
  show w.extras.slots.foldl set ((w.constraints.map Constraint.slot).foldl set {}) = w
  rw [foldl_constraints, foldl_extras _ rfl]

end Document.Keywords

/-! ## Tags -/

namespace ScalarType

/-- A type is read from the tag it is printed with, if it is read from a tag at all. -/
theorem ofTag_tag_ofTag (tag : String) : ofTag (ofTag tag).tag = ofTag tag := by
  cases hcustom : (ofTag tag).isCustom with
  | false => exact ofTag_tag _ hcustom
  | true => rw [ofTag_of_isCustom hcustom, ScalarType.tag, ofTag_of_isCustom hcustom]

/-- Words have the same printed tag exactly if they stand for the same type. -/
theorem tag_ofTag_eq_tag_ofTag {a b : String} :
    (ofTag a).tag = (ofTag b).tag ↔ ofTag a = ofTag b := by
  refine ⟨fun h => ?_, congrArg tag⟩
  rw [← ofTag_tag_ofTag a, h, ofTag_tag_ofTag]

/-- A word that stands for no known type has no aliases. -/
theorem tag_ofTag_eq_iff {tag word : String} (hword : (ofTag word).isCustom) :
    (ofTag tag).tag = word ↔ tag = word := by
  have htag : (ofTag word).tag = word := by rw [ofTag_of_isCustom hword, ScalarType.tag]
  constructor
  · intro h
    have htype : ofTag tag = ofTag word := tag_ofTag_eq_tag_ofTag.mp (h.trans htag.symm)
    have hcustom : (ofTag tag).isCustom := by rw [htype, hword]
    rw [ofTag_of_isCustom hcustom, ofTag_of_isCustom hword] at htype
    exact custom.inj htype
  · rintro rfl
    exact htag

theorem isWritable_ofTag {tag : String} (hlist : tag ≠ "list") (hobject : tag ≠ "object") :
    (ofTag tag).IsWritable := by
  cases hcustom : (ofTag tag).isCustom with
  | true =>
    rw [ofTag_of_isCustom hcustom]
    exact ⟨hlist, hobject, hcustom⟩
  | false =>
    cases htype : ofTag tag with
    | custom word => rw [htype] at hcustom; cases hcustom
    | _ => trivial

end ScalarType

/-! ## Records up to aliases -/

namespace Document.Definition

mutual

/-- The record in which each tag is the one that its type is printed with. -/
def unaliased : Definition → Definition
  | .mk type items fields keywords =>
    .mk (ScalarType.ofTag type).tag (unaliasedItem items) (unaliasedFields fields) keywords

/-- The element of a list with such tags. -/
def unaliasedItem : Option Definition → Option Definition
  | none => none
  | some d => some (unaliased d)

/-- The fields of an object with such tags. -/
def unaliasedFields : Option (List (String × Definition)) → Option (List (String × Definition))
  | none => none
  | some ds => some (unaliasedEntries ds)

/-- Named records with such tags. -/
def unaliasedEntries : List (String × Definition) → List (String × Definition)
  | [] => []
  | (name, d) :: rest => (name, unaliased d) :: unaliasedEntries rest

end

theorem unaliasedEntries_eq (ds : List (String × Definition)) :
    unaliasedEntries ds = ds.map fun e => (e.1, e.2.unaliased) := by
  induction ds with
  | nil => rfl
  | cons e ds ih => rw [unaliasedEntries, ih, List.map_cons]

end Document.Definition

namespace Mapping

mutual

/-- The record that is written for a mapping. -/
def record : Mapping → Definition
  | .scalar type t => .mk type.tag none none t.keywords
  | .list element t => .mk "list" (some (record element)) none t.keywords
  | .object fields t => .mk "object" none (some (fieldRecords fields)) t.keywords

/-- The records that are written for fields. -/
def fieldRecords : List (String × Mapping) → List (String × Definition)
  | [] => []
  | (name, m) :: rest => (name, record m) :: fieldRecords rest

end

theorem fieldRecords_eq (fields : List (String × Mapping)) :
    fieldRecords fields = fields.map fun f => (f.1, f.2.record) := by
  induction fields with
  | nil => rfl
  | cons f fields ih => rw [fieldRecords, ih, List.map_cons]

/-- The constraints of a canonical mapping are declared by the keywords of its record. -/
theorem IsCanonical.traits_keywords {m : Mapping} (h : m.IsCanonical) :
    m.traits.keywords.traits = m.traits :=
  Document.traits_foldl (h.ordered m (self_mem_nodes m))

/-- The record of a tree with distinct field names has no repeated names. -/
theorem record_distinctNames {m : Mapping} (h : m.DistinctFields) : m.record.DistinctNames := by
  induction m with
  | scalar type t => exact .mk nofun nofun nofun
  | list element t ih =>
    refine .mk ?_ nofun nofun
    rintro _ ⟨⟩
    exact ih (h.of_mem (element_mem_nodes element t))
  | object fields t ih =>
    refine .mk nofun ?_ ?_
    · rintro _ ⟨⟩
      rw [fieldRecords_eq, Entries.keys, List.map_map]
      exact h _ (self_mem_nodes _) fields rfl
    · rintro _ ⟨⟩ e he
      rw [fieldRecords_eq] at he
      obtain ⟨f, hf, rfl⟩ := List.mem_map.mp he
      exact ih f hf (h.of_mem (field_mem_nodes hf t))

end Mapping

/-! ## The records of a mapping -/

namespace Document.Definition

variable {d e : Definition} {m n : Mapping} {path : Path}

/-- The traits of a mapping are those that its record declares. -/
theorem traits_of_toMapping (h : d.toMapping path = .ok m) : m.traits = d.keywords.traits := by
  cases m with
  | scalar type t =>
    obtain ⟨_, _, rfl, -, -, -, rfl⟩ := toMapping_eq_scalar.mp h
    rfl
  | list element t =>
    obtain ⟨_, _, rfl, -, rfl⟩ := toMapping_eq_list.mp h
    rfl
  | object fields t =>
    obtain ⟨_, _, rfl, -, rfl⟩ := toMapping_eq_object.mp h
    rfl

/-- Every node of the mapping of a record is the mapping of a record. -/
theorem exists_record_of_mem (h : d.toMapping path = .ok m) (hn : n ∈ m.nodes) :
    ∃ (e : Definition) (below : Path), e.toMapping below = .ok n := by
  induction m generalizing d path with
  | scalar type t =>
    rcases Mapping.mem_nodes.mp hn with rfl | hn
    · exact ⟨d, path, h⟩
    · cases hn
  | list element t ih =>
    rcases Mapping.mem_nodes.mp hn with rfl | hn
    · exact ⟨d, path, h⟩
    · obtain ⟨_, _, -, hitem, -⟩ := toMapping_eq_list.mp h
      exact ih hitem hn
  | object fields t ih =>
    rcases Mapping.mem_nodes.mp hn with rfl | hn
    · exact ⟨d, path, h⟩
    · obtain ⟨_, _, -, hfields, -⟩ := toMapping_eq_object.mp h
      obtain ⟨f, hf, hn⟩ := Mapping.mem_nodesBelow_object.mp hn
      obtain ⟨_, -, _, hfield⟩ := (agree_of_fieldMappings hfields).exists_left hf
      exact ih f hf hfield hn

/-- The mapping of a record without repeated names is canonical. -/
theorem isCanonical_of_toMapping (hd : d.DistinctNames) (h : d.toMapping path = .ok m) :
    m.IsCanonical where
  distinct := distinctFields_of_toMapping hd h
  writable n hn type htype := by
    obtain ⟨_, _, hrecord⟩ := exists_record_of_mem h hn
    cases n with
    | scalar own t =>
      obtain rfl := Option.some.inj htype
      obtain ⟨_, _, -, hlist, hobject, rfl, -⟩ := toMapping_eq_scalar.mp hrecord
      exact ScalarType.isWritable_ofTag hlist hobject
    | list element t => cases htype
    | object fields t => cases htype
  ordered n hn := by
    obtain ⟨e, _, hrecord⟩ := exists_record_of_mem h hn
    rw [Mapping.constraints, traits_of_toMapping hrecord]
    exact e.keywords.constraints_ordered

/-- Up to aliases, a record of a mapping is the one that is written for it. -/
theorem unaliased_of_toMapping (h : d.toMapping path = .ok m) : d.unaliased = m.record := by
  induction m generalizing d path with
  | scalar type t =>
    obtain ⟨tag, keywords, rfl, -, -, rfl, rfl⟩ := toMapping_eq_scalar.mp h
    rw [unaliased, Mapping.record, keywords.keywords_traits]
    rfl
  | list element t ih =>
    obtain ⟨item, keywords, rfl, hitem, rfl⟩ := toMapping_eq_list.mp h
    rw [unaliased, Mapping.record, keywords.keywords_traits, unaliasedItem, ih hitem]
    rfl
  | object fields t ih =>
    obtain ⟨ds, keywords, rfl, hfields, rfl⟩ := toMapping_eq_object.mp h
    have hrecords : unaliasedEntries ds = Mapping.fieldRecords fields := by
      rw [unaliasedEntries_eq, Mapping.fieldRecords_eq]
      refine ((agree_of_fieldMappings hfields).flip.map_eq ?_).symm
      rintro name n k hn ⟨_, hk⟩
      exact (ih (name, n) hn hk).symm
    rw [unaliased, Mapping.record, keywords.keywords_traits, unaliasedFields, hrecords]
    rfl

mutual

/-- Aliases do not matter to the mapping of a record, nor to what is reported of it. -/
theorem toMapping_unaliased (path : Path) :
    (d : Definition) → d.unaliased.toMapping path = d.toMapping path
  | .mk type items fields keywords => by
    have hlist : (ScalarType.ofTag type).tag = "list" ↔ type = "list" :=
      ScalarType.tag_ofTag_eq_iff rfl
    have hobject : (ScalarType.ofTag type).tag = "object" ↔ type = "object" :=
      ScalarType.tag_ofTag_eq_iff rfl
    rw [unaliased, toMapping.eq_def, toMapping.eq_def]
    simp only [hlist, hobject, ScalarType.ofTag_tag_ofTag]
    cases items with
    | none =>
      cases fields with
      | none => simp only [unaliasedItem, unaliasedFields]
      | some ds =>
        simp only [unaliasedItem, unaliasedFields, fieldMappings_unaliasedEntries path ds]
    | some element =>
      cases fields with
      | none => simp only [unaliasedItem, unaliasedFields, toMapping_unaliased _ element]
      | some ds => simp only [unaliasedItem, unaliasedFields]

theorem fieldMappings_unaliasedEntries (path : Path) :
    (ds : List (String × Definition)) →
      fieldMappings path (unaliasedEntries ds) = fieldMappings path ds
  | [] => rfl
  | (name, d) :: rest => by
    rw [unaliasedEntries, fieldMappings, fieldMappings, toMapping_unaliased _ d,
      fieldMappings_unaliasedEntries path rest]

end

/-- The record that is written for a canonical mapping has this mapping. -/
theorem toMapping_record (h : m.IsCanonical) (path : Path) : m.record.toMapping path = .ok m := by
  induction m generalizing path with
  | scalar type t =>
    obtain ⟨htag, hlist, hobject⟩ := (h.writable _ (Mapping.self_mem_nodes _) type rfl).ofTag_tag
    exact toMapping_eq_scalar.mpr ⟨_, _, rfl, hlist, hobject, htag.symm, h.traits_keywords.symm⟩
  | list element t ih =>
    have helement := ih (h.of_mem (Mapping.element_mem_nodes element t)) (path ++ [.element])
    exact toMapping_eq_list.mpr ⟨_, _, rfl, helement, h.traits_keywords.symm⟩
  | object fields t ih =>
    have hfields : fieldMappings path (Mapping.fieldRecords fields) = .ok fields := by
      rw [Mapping.fieldRecords_eq, fieldMappings_eq_ok, List.forall₂_map_left_iff]
      exact List.forall₂_same.mpr fun f hf =>
        ⟨rfl, ih f hf (h.of_mem (Mapping.field_mem_nodes hf t)) _⟩
    exact toMapping_eq_object.mpr ⟨_, _, rfl, hfields, h.traits_keywords.symm⟩

/-- A record without repeated names has a mapping exactly if the mapping is canonical and the record
is, up to aliases, the one that is written for it. -/
theorem toMapping_eq_ok_iff_record (hd : d.DistinctNames) :
    d.toMapping path = .ok m ↔ m.IsCanonical ∧ d.unaliased = m.record := by
  constructor
  · exact fun h => ⟨isCanonical_of_toMapping hd h, unaliased_of_toMapping h⟩
  · rintro ⟨hm, h⟩
    rw [← toMapping_unaliased, h, toMapping_record hm]

/-! ## What a document can express -/

/-- **Records express the canonical mappings, each in one way up to aliases.** A mapping is that of
a record without repeated names exactly if its own field names are distinct, its own tags stand for
nothing else and its constraints stand in order, whatever its extras are. Two records have one
mapping exactly if they are equal up to the words for types of single values. -/
theorem expressible_mappings :
    (∀ m path, (∃ d : Definition, d.DistinctNames ∧ d.toMapping path = .ok m) ↔ m.IsCanonical) ∧
    ∀ (d e : Definition) m path below, d.DistinctNames → d.toMapping path = .ok m →
      (e.toMapping below = .ok m ↔ e.unaliased = d.unaliased) := by
  refine ⟨fun m path => ⟨?_, fun hm => ?_⟩, fun d e m path below hdistinct hd => ?_⟩
  · rintro ⟨d, hdistinct, h⟩
    exact ((toMapping_eq_ok_iff_record hdistinct).mp h).1
  · exact ⟨m.record, Mapping.record_distinctNames hm.distinct, toMapping_record hm path⟩
  · obtain ⟨hm, hrecord⟩ := (toMapping_eq_ok_iff_record hdistinct).mp hd
    constructor
    · intro he
      rw [unaliased_of_toMapping he, hrecord]
    · intro heq
      rw [← toMapping_unaliased, heq, hrecord, toMapping_record hm]

/-- A list of bookings, with two words for types. -/
def bookings (count time : String) : Definition :=
  .mk "list" (some (.mk "object" none (some
    [("count", .mk count none none { required := true, oneOf := some ["1", "2"] }),
      ("at", .mk time none none { extras := { format := some "date-time" } })]) {})) none
    { required := true, maxLength := some 9 }

theorem expressible_mappings_bookings :
    ∃ m, (bookings "integer" "date-time").DistinctNames ∧
      (bookings "integer" "date-time").toMapping [] = .ok m ∧ m.IsCanonical ∧
      (bookings "int" "dateTime").toMapping [] = .ok m ∧
      (bookings "int64" "dateTime").toMapping [] ≠ .ok m ∧
      ¬ ∃ d : Definition, d.DistinctNames ∧
        d.toMapping [] = .ok (.scalar (.custom "list") {}) := by
  have hdistinct : (bookings "integer" "date-time").DistinctNames := by
    have hfield (type : String) (keywords : Keywords) :
        (Definition.mk type none none keywords).DistinctNames := .mk nofun nofun nofun
    refine .mk ?_ nofun nofun
    rintro _ ⟨⟩
    refine .mk nofun ?_ ?_
    · rintro _ ⟨⟩
      decide
    · rintro _ ⟨⟩ e he
      simp only [List.mem_cons, List.not_mem_nil, or_false] at he
      rcases he with rfl | rfl <;> exact hfield _ _
  obtain ⟨hcanonical, hsame⟩ := expressible_mappings
  have hmapping : (bookings "integer" "date-time").toMapping [] = .ok _ := rfl
  have hrecords (e : Definition) := hsame _ e _ [] [] hdistinct hmapping
  refine ⟨_, hdistinct, hmapping, (hcanonical _ []).mp ⟨_, hdistinct, hmapping⟩,
    (hrecords _).mpr rfl, fun h => ?_, fun h => ?_⟩
  · have htypes := congrArg (fun d => (d.items.bind fields).map (·.map (·.2.type)))
      ((hrecords _).mp h)
    exact absurd htypes (by decide)
  · obtain ⟨hlist, -, -⟩ := ((hcanonical _ []).mp h).writable _ (Mapping.self_mem_nodes _) _ rfl
    exact hlist rfl

end Document.Definition

end FieldSchema
