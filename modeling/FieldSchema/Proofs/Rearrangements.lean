import Mathlib
import FieldSchema.Proofs.JsonRecords
import FieldSchema.Proofs.Paths

/-!
# Keys of records, and their order

A record that is written as an object is read key by key. No key is passed over and none may come
twice, so the keys can stand in any order; the fields of an object cannot.

* `Json.Node.Below`: a node is written one level below a record, as its element or as one of its
  fields. `Document.wellKeyed_of_read`: every object at such a place, at any depth, has known keys,
  each at most once, and a type.
* `Json.Node.Rearranges`: two nodes differ in one record, by the order of its keys or by a `null`
  that is left out. `Document.ofJson_rearranges`: both are read as the same record.
* `Json.Node.recordAt?`: the record at a path. `Document.exists_recordAt?`: a node of a mapping is
  held by the record at its path, which is the last one of its name.
* `Document.keys_unordered`: what follows for the texts of documents.
-/

namespace FieldSchema

namespace Json.Node

open Document (Key)

/-! ## Records in a node -/

/-- What a record says under a key, be it written as an object or as an array. -/
def said? (k : Key) : Node → Option Node
  | .object entries _ => Entries.find? entries k.name
  | .array items _ => items[Key.all.idxOf k]?
  | _ => none

/-- The entries of the fields of a record, in the order of the text. -/
def fieldEntries? (n : Node) : Option (List (String × Node)) :=
  match n.said? .fields with
  | some (.object entries _) => some entries
  | _ => none

/-- A node is written one level below a record. -/
inductive Below : Node → Node → Prop
  | element {n k : Node} {entries : List (String × Node)} {closed : Bool}
      (h : (Key.items.name, k) ∈ entries) : Below (.object entries closed) k
  | field {k : Node} {entries fields : List (String × Node)} {name : String} {closed inner : Bool}
      (h : (Key.fields.name, .object fields inner) ∈ entries) (hk : (name, k) ∈ fields) :
      Below (.object entries closed) k
  | placedElement {k : Node} {items : List Node} {closed : Bool}
      (h : (array items closed).said? .items = some k) : Below (.array items closed) k
  | placedField {k : Node} {items : List Node} {fields : List (String × Node)} {name : String}
      {closed : Bool} (h : (array items closed).fieldEntries? = some fields)
      (hk : (name, k) ∈ fields) : Below (.array items closed) k

/-- The entries of an object are those of a record: all keys are known, none comes twice, and the
type is there. -/
structure WellKeyed (entries : List (String × Node)) : Prop where
  known : ∀ name ∈ Entries.keys entries, name ∈ Document.keys.names
  nodup : (Entries.keys entries).Nodup
  type_mem : Key.type.name ∈ Entries.keys entries

/-! ## Rearrangements -/

/-- Two nodes are the same record but for one place, where the keys of a record that is written as
an object stand in another order, or a key with `null` is left out. -/
inductive Rearranges : Node → Node → Prop
  | permute {entries others : List (String × Node)} (h : entries.Perm others) :
      Rearranges (.object entries true) (.object others true)
  | drop {key : String} {before after : List (String × Node)} :
      Rearranges (.object (before ++ (key, .null) :: after) true) (.object (before ++ after) true)
  | element {n k : Node} {before after : List (String × Node)} (h : Rearranges n k) :
      Rearranges (.object (before ++ (Key.items.name, n) :: after) true)
        (.object (before ++ (Key.items.name, k) :: after) true)
  | field {n k : Node} {name : String} {before after left right : List (String × Node)}
      (h : Rearranges n k) :
      Rearranges
        (.object (before ++ (Key.fields.name, .object (left ++ (name, n) :: right) true) :: after) true)
        (.object (before ++ (Key.fields.name, .object (left ++ (name, k) :: right) true) :: after) true)
  | placedElement {n k type : Node} {after : List Node} (h : Rearranges n k) :
      Rearranges (.array (type :: n :: after) true) (.array (type :: k :: after) true)
  | placedField {n k type element : Node} {name : String} {left right : List (String × Node)}
      {after : List Node} (h : Rearranges n k) :
      Rearranges
        (.array (type :: element :: .object (left ++ (name, n) :: right) true :: after) true)
        (.array (type :: element :: .object (left ++ (name, k) :: right) true :: after) true)

/-! ## Paths in documents -/

/-- The record one step down. Of several fields of one name the last one is meant. -/
def recordBelow? (n : Node) : Step → Option Node
  | .element => n.said? .items
  | .field name => n.fieldEntries?.bind fun entries => Entries.find? entries.reverse name

/-- The record at a path. -/
def recordAt? : Node → Path → Option Node
  | n, [] => some n
  | n, step :: path => (n.recordBelow? step).bind fun k => k.recordAt? path

end Json.Node

namespace Document

open Json (Node)

variable {depth : Nat} {k : Key} {n node : Node} {slot : Slot} {slots : List Slot}
  {entries : List (String × Node)} {d : Definition}

/-! ## What is read under a key -/

theorem Key.name_injective : Function.Injective Key.name := by
  intro a b h
  have ha := find?_name a
  rw [h, find?_name b] at ha
  exact (Option.some.inj ha).symm

/-- Entries that are read as slots have the names of their keys. -/
theorem keys_of_entryReads (h : List.Forall₂ (EntryReads depth) entries slots) :
    Entries.keys entries = (slots.map Slot.key).map Key.name := by
  induction h with
  | nil => rfl
  | cons hes _ ih => rw [List.map_cons, List.map_cons, ← ih, ← hes.1]; rfl

/-- The entry of a key is read under the key. -/
theorem exists_read (h : List.Forall₂ (EntryReads depth) entries slots)
    (hk : (k.name, node) ∈ entries) : ∃ slot, Slot.readJson depth k node = .ok slot := by
  obtain ⟨slot, -, hname, hslot⟩ := exists_partner h hk
  cases Key.name_injective hname
  exact ⟨slot, hslot⟩

/-- The item for a key stands in the place of the key. -/
theorem mem_zip_keys {items : List Node} {closed : Bool} :
    (k, n) ∈ Key.all.zip items ↔ (Node.array items closed).said? k = some n := by
  rw [Node.said?, List.mem_iff_getElem?]
  simp only [List.getElem?_zip_eq_some]
  constructor
  · rintro ⟨i, hi, hn⟩
    obtain ⟨hlt, hk⟩ := List.getElem?_eq_some_iff.mp hi
    have hnodup : Key.all.Nodup := by decide
    rw [← hk, hnodup.idxOf_getElem i hlt]
    exact hn
  · intro hn
    exact ⟨_, List.getElem?_idxOf (Key.mem_all k), hn⟩

/-- The slots of a record, read under their keys or left out at the end of an array. -/
theorem exists_slots (h : Definition.ofJson depth n = .ok d) :
    ∃ below slots, depth = below + 1 ∧ Definition.ofSlots? slots = some d ∧
      ∀ slot ∈ slots, (∃ k, n.said? slot.key = some k ∧ Slot.readJson below slot.key k = .ok slot) ∨
        Slot.default? slot.key = some slot := by
  rcases Definition.container_of_ofJson h with ⟨entries, closed, rfl⟩ | ⟨items, closed, rfl⟩
  · obtain ⟨below, slots, rfl, -, hreads, hnodup, hslots⟩ := Definition.ofJson_object_eq_ok.mp h
    refine ⟨below, slots, rfl, hslots, fun slot hslot => .inl ?_⟩
    obtain ⟨e, he, hname, hread⟩ := exists_partner hreads.flip hslot
    refine ⟨e.2, ?_, hread⟩
    have hkeys : (Entries.keys entries).Nodup := by
      rw [keys_of_entryReads hreads]
      exact hnodup.map Key.name_injective
    exact Entries.find?_of_mem hkeys (hname ▸ he)
  · obtain ⟨below, told, untold, rfl, -, hlength, htold, huntold, hslots⟩ :=
      Definition.ofJson_array_eq_ok.mp h
    refine ⟨below, told ++ untold, rfl, hslots, fun slot hslot => ?_⟩
    rcases List.mem_append.mp hslot with hslot | hslot
    · obtain ⟨⟨k, node⟩, he, hread⟩ := exists_partner htold.flip hslot
      cases Slot.key_of_readJson hread
      exact .inl ⟨node, mem_zip_keys.mp he, hread⟩
    · obtain ⟨k, -, hdefault⟩ := exists_partner huntold.flip hslot
      have hkey : slot.key = k := by
        cases k <;> cases hdefault <;> rfl
      exact .inr (hkey ▸ hdefault)

/-- The element of a record is read from what it says of it. -/
theorem exists_item (h : Definition.ofJson depth n = .ok d) {element : Definition}
    (helement : d.items = some element) :
    ∃ below k, n.said? .items = some k ∧ Definition.ofJson below k = .ok element := by
  obtain ⟨below, slots, rfl, hslots, hread⟩ := exists_slots h
  obtain ⟨type, -, rfl⟩ := Definition.ofSlots?_eq_some.mp hslots
  obtain ⟨slot, hslot, hf⟩ := List.exists_of_findSome?_eq_some helement
  cases slot with
  | items a =>
    cases hf
    rcases hread _ hslot with ⟨k, hk, hslot⟩ | hdefault
    · obtain ⟨_, hoption, heq⟩ := map_eq_ok.mp hslot
      cases heq
      rcases asOption_eq_ok.mp hoption with ⟨-, heq⟩ | ⟨-, b, hb, heq⟩
      · cases heq
      · cases heq
        exact ⟨below, k, hk, hb⟩
    · cases hdefault
  | _ => cases hf

/-- The fields of a record are read, entry by entry, from what it says of them. -/
theorem exists_fields (h : Definition.ofJson depth n = .ok d) {ds : Entries Definition}
    (hds : d.fields = some ds) :
    ∃ below es pairs, n.fieldEntries? = some es ∧
      Entries.Agree (fun k d => Definition.ofJson below k = .ok d) es pairs ∧
      ds = Entries.ofList pairs := by
  obtain ⟨below, slots, rfl, hslots, hread⟩ := exists_slots h
  obtain ⟨type, -, rfl⟩ := Definition.ofSlots?_eq_some.mp hslots
  obtain ⟨slot, hslot, hf⟩ := List.exists_of_findSome?_eq_some hds
  cases slot with
  | fields a =>
    cases hf
    rcases hread _ hslot with ⟨k, hk, hslot⟩ | hdefault
    · obtain ⟨_, hoption, heq⟩ := map_eq_ok.mp hslot
      cases heq
      rcases asOption_eq_ok.mp hoption with ⟨-, heq⟩ | ⟨-, b, hb, heq⟩
      · cases heq
      · cases heq
        obtain ⟨inner, es, pairs, rfl, rfl, hpairs, hlist⟩ := fieldsOfJson_eq_ok.mp hb
        have hk : n.said? .fields = some (.object es true) := hk
        exact ⟨inner, es, pairs, by rw [Node.fieldEntries?, hk], hpairs, hlist⟩
    · cases hdefault
  | _ => cases hf

/-! ## Every key is looked at -/

/-- The keys of an object that is read as a record. -/
theorem wellKeyed_of_ofJson {closed : Bool}
    (h : Definition.ofJson depth (.object entries closed) = .ok d) : Node.WellKeyed entries := by
  obtain ⟨below, slots, rfl, -, hreads, hnodup, hslots⟩ := Definition.ofJson_object_eq_ok.mp h
  have hkeys := keys_of_entryReads hreads
  refine ⟨fun name hname => ?_, ?_, ?_⟩
  · rw [hkeys] at hname
    obtain ⟨k, -, rfl⟩ := List.mem_map.mp hname
    exact List.mem_map_of_mem (Key.mem_all k)
  · rw [hkeys]
    exact hnodup.map Key.name_injective
  · obtain ⟨type, htype, -⟩ := Definition.ofSlots?_eq_some.mp hslots
    obtain ⟨slot, hslot, hf⟩ := List.exists_of_findSome?_eq_some htype
    have hkey : slot.key = .type := by
      cases slot <;> first | rfl | cases hf
    rw [hkeys, ← hkey]
    exact List.mem_map_of_mem (List.mem_map_of_mem hslot)

/-- What is written below a record that is read is `null` or is read as a record. -/
theorem read_of_below (h : Definition.ofJson depth n = .ok d) (hk : n.Below node) :
    node = .null ∨ ∃ below d, Definition.ofJson below node = .ok d := by
  have helement {below : Nat} {slot : Slot} (hslot : Slot.readJson below .items node = .ok slot) :
      node = .null ∨ ∃ below d, Definition.ofJson below node = .ok d := by
    obtain ⟨_, hoption, -⟩ := map_eq_ok.mp hslot
    rcases asOption_eq_ok.mp hoption with ⟨hnull, -⟩ | ⟨-, b, hb, -⟩
    · exact .inl hnull
    · exact .inr ⟨_, b, hb⟩
  have hfield {below : Nat} {slot : Slot} {fields : List (String × Node)} {closed : Bool}
      {name : String} (hslot : Slot.readJson below .fields (.object fields closed) = .ok slot)
      (hmem : (name, node) ∈ fields) : ∃ below d, Definition.ofJson below node = .ok d := by
    obtain ⟨_, hoption, -⟩ := map_eq_ok.mp hslot
    rcases asOption_eq_ok.mp hoption with ⟨hnull, -⟩ | ⟨-, b, hb, -⟩
    · cases hnull
    · obtain ⟨inner, es, pairs, rfl, heq, hpairs, -⟩ := fieldsOfJson_eq_ok.mp hb
      cases heq
      obtain ⟨d, -, hd⟩ := hpairs.exists_right hmem
      exact ⟨inner, d, hd⟩
  cases hk with
  | element hmem =>
    obtain ⟨below, slots, rfl, -, hreads, -, -⟩ := Definition.ofJson_object_eq_ok.mp h
    obtain ⟨slot, hslot⟩ := exists_read hreads hmem
    exact helement hslot
  | field hmem hk =>
    obtain ⟨below, slots, rfl, -, hreads, -, -⟩ := Definition.ofJson_object_eq_ok.mp h
    obtain ⟨slot, hslot⟩ := exists_read hreads hmem
    exact .inr (hfield hslot hk)
  | placedElement hplace =>
    obtain ⟨below, told, _, rfl, -, -, htold, -, -⟩ := Definition.ofJson_array_eq_ok.mp h
    obtain ⟨slot, -, hslot⟩ := exists_partner htold (mem_zip_keys.mpr hplace)
    exact helement hslot
  | placedField hplace hk =>
    obtain ⟨below, told, _, rfl, -, -, htold, -, -⟩ := Definition.ofJson_array_eq_ok.mp h
    rw [Node.fieldEntries?] at hplace
    split at hplace
    · rename_i fields inner hsaid
      cases hplace
      obtain ⟨slot, -, hslot⟩ := exists_partner htold (mem_zip_keys.mpr hsaid)
      exact .inr (hfield hslot hk)
    · cases hplace

/-- What is written as a record at any depth of a record that is read is `null` or is read, too. -/
theorem read_of_reachable (h : Definition.ofJson depth n = .ok d)
    (hk : Relation.ReflTransGen Node.Below n node) :
    node = .null ∨ ∃ below d, Definition.ofJson below node = .ok d := by
  induction hk with
  | refl => exact .inr ⟨depth, d, h⟩
  | tail _ hbelow ih =>
    rcases ih with rfl | ⟨below, d, hd⟩
    · cases hbelow
    · exact read_of_below hd hbelow

/-- Every object that is written as a record in a node that is read has known keys, each at most
once, and a type. -/
theorem wellKeyed_of_read {closed : Bool} (h : Definition.ofJson depth n = .ok d)
    (hk : Relation.ReflTransGen Node.Below n (.object entries closed)) :
    Node.WellKeyed entries := by
  rcases read_of_reachable h hk with hnull | ⟨_, _, hread⟩
  · cases hnull
  · exact wellKeyed_of_ofJson hread

/-! ## Rearranged records -/

theorem not_null_of_rearranges (h : n.Rearranges node) : n ≠ .null ∧ node ≠ .null := by
  cases h <;> exact ⟨nofun, nofun⟩

/-- An element that is read as before keeps its slot. -/
theorem readJson_items_mono (hn : n ≠ .null) (hnode : node ≠ .null)
    (h : ∀ d, Definition.ofJson depth n = .ok d → Definition.ofJson depth node = .ok d)
    (hslot : Slot.readJson depth .items n = .ok slot) :
    Slot.readJson depth .items node = .ok slot := by
  obtain ⟨a, hoption, rfl⟩ := map_eq_ok.mp hslot
  rcases asOption_eq_ok.mp hoption with ⟨hnull, -⟩ | ⟨-, b, hb, rfl⟩
  · exact absurd hnull hn
  · exact map_eq_ok.mpr ⟨some b, asOption_of_ok (h b hb) hnode, rfl⟩

/-- Fields of which one record is read as before keep their slot. -/
theorem readJson_fields_mono {name : String} {left right : List (String × Node)}
    (h : ∀ depth d, Definition.ofJson depth n = .ok d → Definition.ofJson depth node = .ok d)
    (hslot : Slot.readJson depth .fields (.object (left ++ (name, n) :: right) true) = .ok slot) :
    Slot.readJson depth .fields (.object (left ++ (name, node) :: right) true) = .ok slot := by
  obtain ⟨a, hoption, rfl⟩ := map_eq_ok.mp hslot
  rcases asOption_eq_ok.mp hoption with ⟨hnull, -⟩ | ⟨-, ds, hds, rfl⟩
  · cases hnull
  · obtain ⟨below, es, pairs, rfl, heq, hpairs, hlist⟩ := fieldsOfJson_eq_ok.mp hds
    cases heq
    have hothers := forall₂_replace hpairs (z := (name, node)) fun e he => ⟨he.1, h below e.2 he.2⟩
    have hread := fieldsOfJson_eq_ok.mpr ⟨below, _, pairs, rfl, rfl, hothers, hlist⟩
    exact map_eq_ok.mpr ⟨some ds, asOption_of_ok hread nofun, rfl⟩

section Object

variable {before after others : List (String × Node)}

/-- An entry that is read as before can take the place of another one of its key. -/
theorem ofJson_object_replace
    (h : ∀ below slot, Slot.readJson below k n = .ok slot → Slot.readJson below k node = .ok slot)
    (hread : Definition.ofJson depth (.object (before ++ (k.name, n) :: after) true) = .ok d) :
    Definition.ofJson depth (.object (before ++ (k.name, node) :: after) true) = .ok d := by
  obtain ⟨below, slots, rfl, hclosed, hreads, hnodup, hslots⟩ :=
    Definition.ofJson_object_eq_ok.mp hread
  have hothers := forall₂_replace hreads (z := (k.name, node)) fun slot ⟨hname, hslot⟩ => by
    cases Key.name_injective hname
    exact ⟨rfl, h below slot hslot⟩
  exact Definition.ofJson_object_eq_ok.mpr ⟨below, slots, rfl, hclosed, hothers, hnodup, hslots⟩

/-- The order of the keys of a record does not matter. -/
theorem ofJson_object_perm (hperm : entries.Perm others)
    (h : Definition.ofJson depth (.object entries true) = .ok d) :
    Definition.ofJson depth (.object others true) = .ok d := by
  obtain ⟨below, slots, rfl, hclosed, hreads, hnodup, hslots⟩ :=
    Definition.ofJson_object_eq_ok.mp h
  obtain ⟨moved, hmoved, hslotsPerm⟩ := List.perm_comp_forall₂ hperm.symm hreads
  rw [Definition.ofSlots?_perm hnodup hslotsPerm.symm] at hslots
  have hnodup : (moved.map Slot.key).Nodup := (hslotsPerm.map Slot.key).nodup_iff.mpr hnodup
  exact Definition.ofJson_object_eq_ok.mpr ⟨below, moved, rfl, hclosed, hmoved, hnodup, hslots⟩

/-- A key with `null` in a record can be left out. -/
theorem ofJson_object_drop {key : String}
    (h : Definition.ofJson depth (.object (before ++ (key, .null) :: after) true) = .ok d) :
    Definition.ofJson depth (.object (before ++ after) true) = .ok d := by
  -- the entry comes first, if not in the text
  have hfirst := ofJson_object_perm List.perm_middle h
  obtain ⟨below, slots, rfl, hclosed, hreads, hnodup, hslots⟩ :=
    Definition.ofJson_object_eq_ok.mp hfirst
  obtain ⟨slot, rest, ⟨-, hslot⟩, hrest, rfl⟩ := List.forall₂_cons_left_iff.mp hreads
  rw [Definition.ofSlots?_cons_absent hslot] at hslots
  exact Definition.ofJson_object_eq_ok.mpr
    ⟨below, rest, rfl, hclosed, hrest, (List.nodup_cons.mp hnodup).2, hslots⟩

end Object

/-- An item that is read as before can take the place of another one. -/
theorem ofJson_array_replace (before : List Node) {after : List Node}
    (hk : Key.all[before.length]? = some k)
    (h : ∀ below slot, Slot.readJson below k n = .ok slot → Slot.readJson below k node = .ok slot)
    (hread : Definition.ofJson depth (.array (before ++ n :: after) true) = .ok d) :
    Definition.ofJson depth (.array (before ++ node :: after) true) = .ok d := by
  obtain ⟨below, told, untold, rfl, hclosed, hlength, htold, huntold, hslots⟩ :=
    Definition.ofJson_array_eq_ok.mp hread
  have hzip (n : Node) : Key.all.zip (before ++ n :: after) =
      (Key.all.take before.length).zip before ++
        (k, n) :: (Key.all.drop (before.length + 1)).zip after := by
    obtain ⟨hlt, hget⟩ := List.getElem?_eq_some_iff.mp hk
    have hall : Key.all = Key.all.take before.length ++ k :: Key.all.drop (before.length + 1) := by
      rw [← hget, List.getElem_cons_drop, List.take_append_drop]
    have htake : (Key.all.take before.length).length = before.length :=
      List.length_take_of_le (Nat.le_of_lt hlt)
    conv_lhs => rw [hall]
    rw [List.zip_append htake, List.zip_cons_cons]
  have hsame : (before ++ node :: after).length = (before ++ n :: after).length := by simp
  rw [hzip] at htold
  have hmoved := forall₂_replace htold (z := (k, node)) fun slot => h below slot
  rw [← hzip] at hmoved
  rw [← hsame] at hlength huntold
  exact Definition.ofJson_array_eq_ok.mpr
    ⟨below, told, untold, rfl, hclosed, hlength, hmoved, huntold, hslots⟩

/-- **Rearranged records are read as before.** -/
theorem ofJson_rearranges (h : n.Rearranges node) :
    ∀ depth d, Definition.ofJson depth n = .ok d → Definition.ofJson depth node = .ok d := by
  induction h with
  | permute hperm => exact fun depth d => ofJson_object_perm hperm
  | drop => exact fun depth d => ofJson_object_drop
  | element h ih =>
    obtain ⟨hn, hnode⟩ := not_null_of_rearranges h
    exact fun depth d =>
      ofJson_object_replace fun below slot => readJson_items_mono hn hnode (ih below)
  | field h ih =>
    exact fun depth d => ofJson_object_replace fun below slot => readJson_fields_mono ih
  | @placedElement n k type after h ih =>
    obtain ⟨hn, hnode⟩ := not_null_of_rearranges h
    exact fun depth d => ofJson_array_replace [type] rfl fun below slot =>
      readJson_items_mono hn hnode (ih below)
  | @placedField n k type element name left right after h ih =>
    exact fun depth d => ofJson_array_replace [type, element] rfl fun below slot =>
      readJson_fields_mono ih

/-! ## Fields in the order of the text -/

/-- A node is read as a record that has the mapping. -/
def Holds (n : Node) (m : Mapping) : Prop :=
  ∃ depth d path, Definition.ofJson depth n = .ok d ∧ d.toMapping path = .ok m

variable {m element : Mapping} {fields : List (String × Mapping)} {t : Traits}

theorem exists_element_held (h : Holds n (.list element t)) :
    ∃ k, n.said? .items = some k ∧ Holds k element := by
  obtain ⟨depth, _, path, hread, hmapping⟩ := h
  obtain ⟨e, _, rfl, he, -⟩ := Definition.toMapping_eq_list.mp hmapping
  obtain ⟨below, k, hk, hbelow⟩ := exists_item hread rfl
  exact ⟨k, hk, below, e, _, hbelow, he⟩

/-- The fields of an object stand in the order in which their names first occur in the text, and
each of them is held by the last entry of its name. -/
theorem exists_fields_held (h : Holds n (.object fields t)) :
    ∃ es, n.fieldEntries? = some es ∧ (Entries.keys fields).Nodup ∧
      Entries.keys fields = (Entries.keys es).eraseDups ∧
      ∀ name m, Entries.find? fields name = some m →
        ∃ k, Entries.find? es.reverse name = some k ∧ Holds k m := by
  obtain ⟨depth, _, path, hread, hmapping⟩ := h
  obtain ⟨ds, _, rfl, hfields, -⟩ := Definition.toMapping_eq_object.mp hmapping
  obtain ⟨below, es, pairs, hes, hpairs, rfl⟩ := exists_fields hread rfl
  have hagree := Definition.agree_of_fieldMappings hfields
  refine ⟨es, hes, ?_, ?_, fun name m hm => ?_⟩
  · rw [← hagree.keys_eq]
    exact Entries.keys_nodup_ofList pairs
  · rw [← hagree.keys_eq, Entries.keys_ofList, hpairs.keys_eq]
  · obtain ⟨d, hd, path, hmapping⟩ := hagree.exists_find? hm
    rw [Entries.find?_ofList] at hd
    obtain ⟨k, hk, hread⟩ := hpairs.reverse.exists_find? hd
    exact ⟨k, hk, below, d, path, hread, hmapping⟩

/-- A node of a mapping is held by the record at its path. -/
theorem exists_recordAt? {path : FieldSchema.Path} {c : Mapping} (h : Holds n m)
    (hc : m.at? path = some c) : ∃ r, n.recordAt? path = some r ∧ Holds r c := by
  induction path generalizing n m with
  | nil => cases hc; exact ⟨n, rfl, h⟩
  | cons step path ih =>
    obtain ⟨child, hchild, hc⟩ := Option.bind_eq_some_iff.mp hc
    obtain ⟨k, hk, hheld⟩ : ∃ k, n.recordBelow? step = some k ∧ Holds k child := by
      unfold Mapping.child? at hchild
      split at hchild
      · cases hchild
        exact exists_element_held h
      · obtain ⟨es, hes, hnodup, -, hlast⟩ := exists_fields_held h
        rename_i fields t name
        have hmem : (name, child) ∈ fields := List.mem_reverse.mp (Entries.mem_of_find? hchild)
        obtain ⟨k, hk, hheld⟩ := hlast name child (Entries.find?_of_mem hnodup hmem)
        exact ⟨k, by rw [Node.recordBelow?, hes]; exact hk, hheld⟩
      · cases hchild
    obtain ⟨r, hr, hrheld⟩ := ih hheld hc
    exact ⟨r, by rw [Node.recordAt?, hk]; exact hr, hrheld⟩

/-! ## Texts -/

/-- **The order of keys does not matter.** The text of a document spells a node in which every record
that is written as an object, at any depth, has no keys but the known ones, each at most once, and
has a type.
Where keys of such records stand in other orders, or keys with `null` are left out, the text holds
the same mapping. The fields of an object keep the order of the text: a name stands where it first
occurs, and has the record of its last entry. -/
theorem keys_unordered {text : String} (h : mappingOfJson text = .ok m) :
    ∃ n, Json.Spells text n ∧
      (∀ entries closed, Relation.ReflTransGen Node.Below n (.object entries closed) →
        Node.WellKeyed entries) ∧
      (∀ other text', Relation.ReflTransGen Node.Rearranges n other → Json.Spells text' other →
        mappingOfJson text' = .ok m) ∧
      ∀ path fields t, m.at? path = some (.object fields t) →
        ∃ r es, n.recordAt? path = some r ∧ r.fieldEntries? = some es ∧
          Entries.keys fields = (Entries.keys es).eraseDups ∧
          ∀ name c, Entries.find? fields name = some c →
            ∃ k, Entries.find? es.reverse name = some k ∧ Holds k c := by
  obtain ⟨n, d, hspells, hread, hmapping⟩ := mappingOfJson_eq_ok.mp h
  refine ⟨n, hspells, fun entries closed => wellKeyed_of_read hread, ?_, ?_⟩
  · intro other text' hother hspells'
    have hread' : Definition.ofJson jsonNesting other = .ok d := by
      clear hspells'
      induction hother with
      | refl => exact hread
      | tail _ hstep ih => exact ofJson_rearranges hstep _ _ ih
    exact mappingOfJson_eq_ok.mpr ⟨other, d, hspells', hread', hmapping⟩
  · intro path fields t hat
    obtain ⟨r, hr, hheld⟩ := exists_recordAt? ⟨_, d, _, hread, hmapping⟩ hat
    obtain ⟨es, hes, -, hkeys, hlast⟩ := exists_fields_held hheld
    exact ⟨r, es, hr, hes, hkeys, hlast⟩

/-- A document whose first field comes twice, and with a `null`. -/
def accountText : String :=
  "\x7b\"fields\":\x7b\"id\":\x7b\"type\":\"int\"\x7d," ++
    "\"name\":\x7b\"required\":true,\"type\":\"text\"\x7d," ++
    "\"id\":\x7b\"type\":\"long\"\x7d\x7d," ++
    "\"description\":null,\"type\":\"object\"\x7d"

/-- The document with its keys in the usual order and without the `null`. -/
def tidyAccountText : String :=
  "\x7b\"type\":\"object\",\"fields\":\x7b\"id\":\x7b\"type\":\"int\"\x7d," ++
    "\"name\":\x7b\"type\":\"text\",\"required\":true\x7d," ++
    "\"id\":\x7b\"type\":\"long\"\x7d\x7d\x7d"

/-- The node of the document, with these entries of the field for the name. -/
def accountFields (name : List (String × Node)) : Node :=
  .object [("id", .object [("type", .string "int")] true), ("name", .object name true),
    ("id", .object [("type", .string "long")] true)] true

/-- The mapping of both texts. -/
def account : Mapping := .objectOf [("id", .long), ("name", Mapping.text.required)]

theorem keys_unordered_account :
    mappingOfJson accountText = .ok account ∧ mappingOfJson tidyAccountText = .ok account := by
  have htext : mappingOfJson accountText = .ok account := by decide +kernel
  obtain ⟨n, hn, -, hsame, -⟩ := keys_unordered htext
  let mixed := [("required", Node.bool true), ("type", .string "text")]
  let sorted := [("type", Node.string "text"), ("required", .bool true)]
  have hspells : Json.Spells accountText (.object [("fields", accountFields mixed),
      ("description", .null), ("type", .string "object")] true) :=
    ⟨by decide, by decide +kernel⟩
  cases hn.unique hspells
  have hdrop : Node.Rearranges
      (.object [("fields", accountFields mixed), ("description", .null),
        ("type", .string "object")] true)
      (.object [("fields", accountFields mixed), ("type", .string "object")] true) :=
    @Node.Rearranges.drop _ [_] _
  have hpermute : Node.Rearranges
      (.object [("fields", accountFields mixed), ("type", .string "object")] true)
      (.object [("type", .string "object"), ("fields", accountFields mixed)] true) :=
    .permute (.swap _ _ _)
  have hname : Node.Rearranges
      (.object [("type", .string "object"), ("fields", accountFields mixed)] true)
      (.object [("type", .string "object"), ("fields", accountFields sorted)] true) :=
    @Node.Rearranges.field _ _ "name" [_] [] [_] [_] (.permute (.swap _ _ _))
  have htidy : Json.Spells tidyAccountText
      (.object [("type", .string "object"), ("fields", accountFields sorted)] true) :=
    ⟨by decide, by decide +kernel⟩
  exact ⟨htext, hsame _ _ (((Relation.ReflTransGen.single hdrop).tail hpermute).tail hname) htidy⟩

end Document

end FieldSchema
