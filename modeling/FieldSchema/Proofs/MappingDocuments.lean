import Mathlib
import FieldSchema.Proofs.DocumentNames
import FieldSchema.Proofs.JsonRecords
import FieldSchema.Proofs.JsonText
import FieldSchema.Schema.Json

/-!
# Mappings written as documents

* `Mapping.document`: a mapping as the JSON value of a document. What is absent is left out.
* `Mapping.IsCanonical`: a mapping that a document can hold: field names are distinct, tags stand
  for the types they are written for, and constraints stand in the order in which they are read.
* `Mapping.ofJson_document`: what is written is read as a record that has the mapping.
* `Document.mappingOfJson_document`: so is a text of it, if the number reader reads the bounds back
  and not too many containers are open at a time.
-/

namespace FieldSchema

open Document (Key Slot Keywords Definition EntryReads mappingOfJson)
open Json (Value Node Number optionalEntry)

/-! ## Writing -/

namespace Constraint

/-- The slot that declares a constraint. -/
def slot : Constraint → Slot
  | .required => .required true
  | .email => .email true
  | .pattern s => .pattern (some s)
  | .minLength n => .minLength (some n)
  | .maxLength n => .maxLength (some n)
  | .minimum x => .minimum (some x)
  | .maximum x => .maximum (some x)
  | .oneOf ss => .oneOf (some ss)

/-- The value that is written for a constraint. -/
def value : Constraint → Value
  | .required | .email => .bool true
  | .pattern s => .string s
  | .minLength n | .maxLength n => .nat n.toNat
  | .minimum x | .maximum x => .float x
  | .oneOf ss => .strings ss

/-- A constraint, written under its key. -/
def toEntry (c : Constraint) : String × Value := (c.slot.key.name, c.value)

/-- The number a constraint bounds a value by. -/
def bound? : Constraint → Option Binary64
  | .minimum x | .maximum x => some x
  | _ => none

/-- The place of a constraint among the constraints of a record. -/
def place : Constraint → Nat
  | .required => 0
  | .email => 1
  | .pattern _ => 2
  | .minLength _ => 3
  | .maxLength _ => 4
  | .minimum _ => 5
  | .maximum _ => 6
  | .oneOf _ => 7

end Constraint

/-- Extras, written. -/
def Extras.toEntries (e : Extras) : Entries Value :=
  optionalEntry Key.location.name (fun l => .string l.name) e.location ++
  optionalEntry Key.description.name .string e.description ++
  optionalEntry Key.format.name .string e.format ++
  optionalEntry Key.refName.name .string e.refName ++
  optionalEntry Key.sample.name .string e.sample

/-- Constraints and extras, written. -/
def Traits.toEntries (t : Traits) : Entries Value :=
  t.constraints.map Constraint.toEntry ++ t.extras.toEntries

namespace Mapping

mutual

/-- A mapping as the value of a document. -/
def document : Mapping → Value
  | .scalar type t => .object ((Key.type.name, .string type.tag) :: t.toEntries)
  | .list element t =>
    .object ((Key.type.name, .string "list") :: (Key.items.name, document element) :: t.toEntries)
  | .object fields t =>
    .object ((Key.type.name, .string "object") ::
      (Key.fields.name, .object (fieldDocuments fields)) :: t.toEntries)

/-- The fields of an object as entries of a document. -/
def fieldDocuments : List (String × Mapping) → List (String × Value)
  | [] => []
  | (name, m) :: rest => (name, document m) :: fieldDocuments rest

end

theorem fieldDocuments_eq (fields : List (String × Mapping)) :
    fieldDocuments fields = fields.map fun f => (f.1, f.2.document) := by
  induction fields with
  | nil => rfl
  | cons f fields ih => rw [fieldDocuments, ih, List.map_cons]

end Mapping

/-! ## The slots of what is written -/

/-- The slot of a value that is not left out. -/
def Document.Slot.given {α : Type} (mk : Option α → Slot) (a : Option α) : List Slot :=
  (a.map fun x => mk (some x)).toList

/-- The slots of the extras that are not left out. -/
def Extras.slots (e : Extras) : List Slot :=
  Slot.given .location e.location ++ Slot.given .description e.description ++
    Slot.given .format e.format ++ Slot.given .refName e.refName ++ Slot.given .sample e.sample

/-- The slots that declare constraints and extras. -/
def Traits.slots (t : Traits) : List Slot := t.constraints.map Constraint.slot ++ t.extras.slots

namespace Document

variable {depth : Nat} {slots : List Slot}

/-- The entries of an object as entries of its node. -/
def nodesOf (es : Entries Value) : List (String × Node) := es.map fun e => (e.1, e.2.node)

theorem asLength_nat (n : UInt64) : (Value.nat n.toNat).node.asLength = .ok n := by
  rw [Value.nat, Value.node, Node.asLength, if_neg (by omega), Int.toNat_natCast,
    UInt64.ofNat_toNat]

theorem asStrings_strings (ss : List String) (hdepth : 0 < depth) :
    (Value.strings ss).node.asStrings depth = .ok ss := by
  have hstrings : (ss.map (Value.node ∘ .string)).mapM Node.asString = .ok ss :=
    mapM_eq_ok.mpr (List.forall₂_map_left_iff.mpr (List.forall₂_same.mpr fun s _ => rfl))
  rw [Value.strings, Value.node, Value.itemNodes_eq, List.map_map, Node.asStrings,
    if_neg (Nat.ne_of_gt hdepth), hstrings]
  rfl

/-- What is written for a constraint is read as its slot. -/
theorem readJson_value (c : Constraint) (hdepth : c.value.depth ≤ depth) :
    Slot.readJson depth c.slot.key c.value.node = .ok c.slot := by
  cases c with
  | minLength n | maxLength n =>
    exact map_eq_ok.mpr ⟨some n, asOption_of_ok (asLength_nat n) nofun, rfl⟩
  | oneOf ss =>
    have hread := asStrings_strings ss (Nat.lt_of_lt_of_le (Nat.succ_pos _) hdepth)
    exact map_eq_ok.mpr ⟨some ss, asOption_of_ok hread nofun, rfl⟩
  | _ => rfl

theorem forall₂_given {α : Type} {mk : Option α → Slot} {k : Key} {write : α → Value}
    (h : ∀ a, (mk (some a)).key = k ∧
      Slot.readJson depth (mk (some a)).key (write a).node = .ok (mk (some a))) (a : Option α) :
    List.Forall₂ (EntryReads depth) (nodesOf (optionalEntry k.name write a)) (Slot.given mk a) := by
  cases a with
  | none => exact .nil
  | some a =>
    obtain ⟨hkey, hread⟩ := h a
    exact .cons ⟨by rw [hkey], hread⟩ .nil

/-- Extras are read as they are written. -/
theorem forall₂_extras (e : Extras) :
    List.Forall₂ (EntryReads depth) (nodesOf e.toEntries) e.slots := by
  rw [nodesOf, Extras.toEntries, List.map_append, List.map_append, List.map_append,
    List.map_append]
  refine List.rel_append (List.rel_append (List.rel_append (List.rel_append ?_ ?_) ?_) ?_) ?_
  · exact forall₂_given (fun l => by cases l <;> exact ⟨rfl, rfl⟩) e.location
  · exact forall₂_given (fun _ => ⟨rfl, rfl⟩) e.description
  · exact forall₂_given (fun _ => ⟨rfl, rfl⟩) e.format
  · exact forall₂_given (fun _ => ⟨rfl, rfl⟩) e.refName
  · exact forall₂_given (fun _ => ⟨rfl, rfl⟩) e.sample

/-- Constraints and extras are read as they are written. -/
theorem forall₂_traits (t : Traits) (hdepth : ∀ c ∈ t.constraints, c.value.depth ≤ depth) :
    List.Forall₂ (EntryReads depth) (nodesOf t.toEntries) t.slots := by
  rw [nodesOf, Traits.toEntries, List.map_append, List.map_map]
  refine List.rel_append ?_ (forall₂_extras t.extras)
  rw [List.forall₂_map_left_iff, List.forall₂_map_right_iff]
  exact List.forall₂_same.mpr fun c hc => ⟨rfl, readJson_value c (hdepth c hc)⟩

/-! ## Keywords of slots -/

/-- A constraint that stands behind all that are declared is declared last. -/
theorem constraints_set {w : Keywords} {c : Constraint}
    (h : ∀ d ∈ w.constraints, d.place < c.place) :
    (w.set c.slot).constraints = w.constraints ++ [c] := by
  obtain ⟨required, email, pattern, minLength, maxLength, minimum, maximum, oneOf, extras⟩ := w
  simp only [Keywords.constraints, Keywords.declared, List.forall_mem_append] at h
  -- the keywords from the place on are unset
  cases c <;>
    simp [Constraint.place, ← Option.eq_none_iff_forall_ne_some] at h <;>
    simp [Keywords.constraints, Keywords.declared, Keywords.set, Constraint.slot, h]
  case oneOf => rfl

/-- Constraints in the order of their places are declared in this order. -/
theorem constraints_foldl {cs : List Constraint} (h : cs.Pairwise fun a b => a.place < b.place) :
    ((cs.map Constraint.slot).foldl Keywords.set {}).constraints = cs := by
  induction cs using List.reverseRecOn with
  | nil => rfl
  | append_singleton cs c ih =>
    obtain ⟨hcs, -, hlt⟩ := List.pairwise_append.mp h
    rw [List.map_append, List.map_singleton, List.foldl_append, List.foldl_cons, List.foldl_nil,
      constraints_set, ih hcs]
    rw [ih hcs]
    exact fun d hd => hlt d hd c List.mem_cons_self

theorem extras_foldl (cs : List Constraint) (w : Keywords) :
    ((cs.map Constraint.slot).foldl Keywords.set w).extras = w.extras := by
  induction cs generalizing w with
  | nil => rfl
  | cons c cs ih =>
    rw [List.map_cons, List.foldl_cons, ih]
    cases c <;> rfl

theorem foldl_given {α : Type} (mk : Option α → Slot) (a : Option α) {w : Keywords}
    (h : w.set (mk none) = w) : (Slot.given mk a).foldl Keywords.set w = w.set (mk a) := by
  cases a with
  | none => exact h.symm
  | some a => rfl

theorem foldl_extras (e : Extras) {w : Keywords} (h : w.extras = {}) :
    e.slots.foldl Keywords.set w = { w with extras := e } := by
  obtain ⟨required, email, pattern, minLength, maxLength, minimum, maximum, oneOf, extras⟩ := w
  cases h
  rw [Extras.slots, List.foldl_append, List.foldl_append, List.foldl_append, List.foldl_append,
    foldl_given .location, foldl_given .description, foldl_given .format, foldl_given .refName,
    foldl_given .sample]
  all_goals rfl

/-- The keywords of the slots of traits are those traits. -/
theorem traits_foldl {t : Traits} (h : t.constraints.Pairwise fun a b => a.place < b.place) :
    (t.slots.foldl Keywords.set {}).traits = t := by
  rw [Traits.slots, List.foldl_append, foldl_extras _ (extras_foldl _ _), Keywords.traits]
  exact congrArg (fun cs => Traits.mk cs t.extras) (constraints_foldl h)

/-! ## Keys of slots -/

/-- The keys of constraints. -/
def constraintKeys : List Key :=
  [.required, .email, .pattern, .minLength, .maxLength, .minimum, .maximum, .oneOf]

/-- The keys of extras. -/
def extraKeys : List Key := [.location, .description, .format, .refName, .sample]

theorem key_slot_mem (c : Constraint) : c.slot.key ∈ constraintKeys := by
  cases c <;> simp [Constraint.slot, Slot.key, constraintKeys]

theorem place_eq_of_key {c d : Constraint} (h : c.slot.key = d.slot.key) : c.place = d.place := by
  cases c <;> cases d <;> first | rfl | cases h

theorem keys_given_sublist {α : Type} (mk : Option α → Slot) {k : Key}
    (h : ∀ a, (mk (some a)).key = k) (a : Option α) :
    ((Slot.given mk a).map Slot.key).Sublist [k] := by
  cases a with
  | none => exact List.nil_sublist _
  | some a => exact (h a ▸ List.Sublist.refl _ : ([(mk (some a)).key]).Sublist [k])

theorem keys_extras_sublist (e : Extras) : (e.slots.map Slot.key).Sublist extraKeys := by
  have hlocation := keys_given_sublist .location (fun _ => rfl) e.location
  have hdescription := keys_given_sublist .description (fun _ => rfl) e.description
  have hformat := keys_given_sublist .format (fun _ => rfl) e.format
  have hrefName := keys_given_sublist .refName (fun _ => rfl) e.refName
  have hsample := keys_given_sublist .sample (fun _ => rfl) e.sample
  rw [Extras.slots, List.map_append, List.map_append, List.map_append, List.map_append]
  exact (((hlocation.append hdescription).append hformat).append hrefName).append hsample

/-- The slots of traits have distinct keys, none of which is for the type or a child. -/
theorem keys_traits {t : Traits} (h : t.constraints.Pairwise fun a b => a.place < b.place) :
    (t.slots.map Slot.key).Nodup ∧ ∀ slot ∈ t.slots, slot.key ∈ constraintKeys ++ extraKeys := by
  have hextras := keys_extras_sublist t.extras
  have hconstraints : ∀ slot ∈ t.constraints.map Constraint.slot, slot.key ∈ constraintKeys :=
    List.forall_mem_map.mpr fun c _ => key_slot_mem c
  constructor
  · rw [Traits.slots, List.map_append]
    refine List.nodup_append.mpr ⟨?_, hextras.nodup (by decide), ?_⟩
    · rw [List.map_map]
      exact List.pairwise_map.mpr (h.imp fun hlt heq => Nat.ne_of_lt hlt (place_eq_of_key heq))
    · intro a ha b hb
      obtain ⟨slot, hslot, rfl⟩ := List.mem_map.mp ha
      have hdisjoint : ∀ a ∈ constraintKeys, ∀ b ∈ extraKeys, a ≠ b := by decide
      exact hdisjoint _ (hconstraints slot hslot) b (hextras.subset hb)
  · intro slot hslot
    rcases List.mem_append.mp hslot with hslot | hslot
    · exact List.mem_append_left _ (hconstraints slot hslot)
    · exact List.mem_append_right _ (hextras.subset (List.mem_map_of_mem hslot))

/-- No slot of traits holds a child. -/
theorem childless_traits {t : Traits} (h : t.constraints.Pairwise fun a b => a.place < b.place) :
    Definition.itemsOf t.slots = none ∧ Definition.fieldsOf t.slots = none := by
  obtain ⟨-, hkeys⟩ := keys_traits h
  have hnone {α : Type} (f : Slot → Option α) {k : Key} (hk : k ∉ constraintKeys ++ extraKeys)
      (hf : ∀ slot, slot.key ≠ k → f slot = none) : t.slots.findSome? f = none :=
    List.findSome?_eq_none_iff.mpr fun slot hslot =>
      hf slot fun heq => hk (heq ▸ hkeys slot hslot)
  constructor
  · exact hnone _ (k := .items) (by decide) fun slot hslot => by
      cases slot <;> first | rfl | exact absurd rfl hslot
  · exact hnone _ (k := .fields) (by decide) fun slot hslot => by
      cases slot <;> first | rfl | exact absurd rfl hslot

/-! ## Records of what is written -/

/-- The slots of a type and of the children that are not left out. -/
def headSlots (type : String) (items : Option Definition) (fields : Option (Entries Definition)) :
    List Slot :=
  .type type :: (Slot.given .items items ++ Slot.given .fields fields)

theorem keys_headSlots (type : String) (items : Option Definition)
    (fields : Option (Entries Definition)) :
    ((headSlots type items fields).map Slot.key).Sublist [.type, .items, .fields] := by
  rw [headSlots, List.map_cons, List.map_append]
  exact ((keys_given_sublist .items (fun _ => rfl) items).append
    (keys_given_sublist .fields (fun _ => rfl) fields)).cons_cons _

/-- The record of a type, of children and of the slots of traits. -/
theorem ofSlots?_headSlots {t : Traits} (type : String) (items : Option Definition)
    (fields : Option (Entries Definition))
    (h : t.constraints.Pairwise fun a b => a.place < b.place) :
    ((headSlots type items fields ++ t.slots).map Slot.key).Nodup ∧
    ∃ w : Keywords, w.traits = t ∧
      Definition.ofSlots? (headSlots type items fields ++ t.slots) =
        some (.mk type items fields w) := by
  obtain ⟨hnodup, hmem⟩ := keys_traits h
  obtain ⟨hitems, hfields⟩ := childless_traits h
  constructor
  · have hhead := keys_headSlots type items fields
    rw [List.map_append]
    refine List.nodup_append.mpr ⟨hhead.nodup (by decide), hnodup, fun a ha b hb => ?_⟩
    obtain ⟨slot, hslot, rfl⟩ := List.mem_map.mp hb
    have hdisjoint : ∀ a ∈ [Key.type, .items, .fields], ∀ b ∈ constraintKeys ++ extraKeys,
        a ≠ b := by decide
    exact hdisjoint a (hhead.subset ha) _ (hmem slot hslot)
  · have hset : (headSlots type items fields).foldl Keywords.set {} = {} := by
      cases items <;> cases fields <;> rfl
    refine ⟨t.slots.foldl Keywords.set {}, traits_foldl h, ?_⟩
    rw [Definition.itemsOf] at hitems
    rw [Definition.fieldsOf] at hfields
    rw [Definition.ofSlots?, List.foldl_append, hset, Definition.typeOf?, Definition.itemsOf,
      Definition.fieldsOf, List.findSome?_append, List.findSome?_append, List.findSome?_append,
      hitems, hfields]
    cases items <;> cases fields <;> rfl

/-- A node is read as the record of what stands in front and of its traits. -/
theorem exists_record {type : String} {items : Option Definition}
    {fields : Option (Entries Definition)} {es : Entries Value} {t : Traits} {depth : Nat}
    (hordered : t.constraints.Pairwise fun a b => a.place < b.place)
    (hhead : List.Forall₂ (EntryReads depth) (nodesOf es) (headSlots type items fields))
    (hdepth : ∀ e ∈ es ++ t.toEntries, e.2.depth ≤ depth) :
    ∃ w : Keywords, w.traits = t ∧
      Definition.ofJson (depth + 1) (Value.object (es ++ t.toEntries)).node =
        .ok (.mk type items fields w) := by
  have htraits : List.Forall₂ (EntryReads depth) (nodesOf t.toEntries) t.slots := by
    refine forall₂_traits t fun c hc => hdepth c.toEntry ?_
    exact List.mem_append_right _ (List.mem_append_left _ (List.mem_map_of_mem hc))
  obtain ⟨hnodup, w, hw, hslots⟩ := ofSlots?_headSlots type items fields hordered
  refine ⟨w, hw, ?_⟩
  rw [Value.node, Value.entryNodes_eq, List.map_append]
  exact Definition.ofJson_object_eq_ok.mpr
    ⟨depth, _, rfl, rfl, List.rel_append hhead htraits, hnodup, hslots⟩

end Document

/-! ## Canonical mappings -/

/-- Whether a type is read from the tag it is printed with: a tag of its own is no word for a shape
and stands for no known type. -/
def ScalarType.IsWritable : ScalarType → Prop
  | .custom tag => tag ≠ "list" ∧ tag ≠ "object" ∧ (ofTag tag).isCustom
  | _ => True

instance : DecidablePred ScalarType.IsWritable
  | .custom tag => inferInstanceAs
      (Decidable (tag ≠ "list" ∧ tag ≠ "object" ∧ (ScalarType.ofTag tag).isCustom))
  | .int | .long | .bigInteger | .float | .double | .bigDecimal | .boolean | .text | .uuid
  | .dateTime | .date => isTrue trivial

/-- The type of a scalar. -/
def Mapping.scalarType? : Mapping → Option ScalarType
  | .scalar type _ => some type
  | .list .. | .object .. => none

/-- A mapping that a document can hold. -/
structure Mapping.IsCanonical (m : Mapping) : Prop where
  /-- No object has two fields of one name. -/
  distinct : m.DistinctFields
  writable : ∀ n ∈ m.nodes, ∀ type ∈ n.scalarType?, type.IsWritable
  /-- Constraints stand in the order of their places, each kind at most once. -/
  ordered : ∀ n ∈ m.nodes, n.constraints.Pairwise fun a b => a.place < b.place

namespace ScalarType

theorem ofTag_of_isCustom {tag : String} (h : (ofTag tag).isCustom) : ofTag tag = .custom tag := by
  unfold ofTag at h ⊢
  split at h
  all_goals first | rfl | cases h

/-- The tag of a writable type is read as the type, and is no word for a shape. -/
theorem IsWritable.ofTag_tag {type : ScalarType} (h : type.IsWritable) :
    ofTag type.tag = type ∧ type.tag ≠ "list" ∧ type.tag ≠ "object" := by
  cases type with
  | custom tag =>
    obtain ⟨hlist, hobject, hcustom⟩ := h
    exact ⟨ofTag_of_isCustom hcustom, hlist, hobject⟩
  | _ => exact ⟨rfl, by decide, by decide⟩

end ScalarType

namespace Mapping

variable {m : Mapping}

theorem IsCanonical.of_mem {n : Mapping} (h : m.IsCanonical) (hn : n ∈ m.nodes) :
    n.IsCanonical where
  distinct := h.distinct.of_mem hn
  writable k hk := h.writable k (mem_nodes_trans hk hn)
  ordered k hk := h.ordered k (mem_nodes_trans hk hn)

theorem document_node_ne_null (m : Mapping) : m.document.node ≠ .null := by
  cases m <;> nofun

/-- Fields are read as they are written, if each of them is. -/
theorem fieldsOfJson_documents {fields : List (String × Mapping)} {depth : Nat}
    (hdepth : (Value.object (fieldDocuments fields)).depth ≤ depth)
    (hnodup : (Entries.keys fields).Nodup)
    (hread : ∀ f ∈ fields, ∀ depth, f.2.document.depth ≤ depth →
      ∃ d, Definition.ofJson depth f.2.document.node = .ok d ∧ ∀ path, d.toMapping path = .ok f.2) :
    ∃ ds, Document.fieldsOfJson depth (Value.object (fieldDocuments fields)).node = .ok ds ∧
      ∀ path, Definition.fieldMappings path ds = .ok fields := by
  rw [fieldDocuments_eq] at hdepth ⊢
  obtain ⟨below, rfl, hbelow⟩ := Value.exists_below hdepth
  -- the fields and their nodes, place for place
  have hnodes : Entries.Agree (fun m n => n = m.document.node) fields
      (fields.map fun f => (f.1, f.2.document.node)) :=
    List.forall₂_map_right_iff.mpr (List.forall₂_same.mpr fun f _ => ⟨rfl, rfl⟩)
  obtain ⟨ds, hmappings, hreads⟩ := hnodes.exists_agree
    (S := fun m d => ∀ path, Definition.toMapping path d = .ok m)
    (T := fun n d => Definition.ofJson below n = .ok d) (by
      rintro name m n hm rfl
      obtain ⟨d, hd, hmapping⟩ := hread _ hm below (hbelow _ (List.mem_map_of_mem hm))
      exact ⟨d, hmapping, hd⟩)
  have hkeys : (Entries.keys ds).Nodup := hmappings.keys_eq ▸ hnodup
  refine ⟨ds, ?_, fun path => ?_⟩
  · rw [Value.node, Value.entryNodes_eq, List.map_map]
    exact Document.fieldsOfJson_eq_ok.mpr
      ⟨below, _, ds, rfl, rfl, hreads, (Entries.ofList_of_nodup hkeys).symm⟩
  · refine Definition.fieldMappings_eq_ok.mpr (hmappings.flip.imp fun e f hef => ?_)
    exact ⟨hef.1, hef.2 _⟩

/-- What is written is read as a record that has the mapping. -/
theorem ofJson_document (h : m.IsCanonical) {depth : Nat} (hdepth : m.document.depth ≤ depth) :
    ∃ d, Definition.ofJson depth m.document.node = .ok d ∧ ∀ path, d.toMapping path = .ok m := by
  induction m generalizing depth with
  | scalar type t =>
    obtain ⟨below, rfl, hbelow⟩ := Value.exists_below hdepth
    obtain ⟨htag, hlist, hobject⟩ := (h.writable _ (self_mem_nodes _) type rfl).ofTag_tag
    have hhead : List.Forall₂ (EntryReads below)
        (Document.nodesOf [(Key.type.name, .string type.tag)])
        (Document.headSlots type.tag none none) :=
      .cons ⟨rfl, rfl⟩ .nil
    obtain ⟨w, rfl, hread⟩ := Document.exists_record (h.ordered _ (self_mem_nodes _)) hhead hbelow
    refine ⟨_, hread, fun path => Definition.toMapping_eq_scalar.mpr ?_⟩
    exact ⟨_, w, rfl, hlist, hobject, htag.symm, rfl⟩
  | list element t ih =>
    obtain ⟨below, rfl, hbelow⟩ := Value.exists_below hdepth
    obtain ⟨d, hd, hmapping⟩ := ih (h.of_mem (element_mem_nodes element t))
      (hbelow _ (List.mem_cons_of_mem _ List.mem_cons_self))
    have hitems : Slot.readJson below .items element.document.node = .ok (.items (some d)) :=
      map_eq_ok.mpr ⟨some d, Document.asOption_of_ok hd (document_node_ne_null element), rfl⟩
    have hhead : List.Forall₂ (EntryReads below)
        (Document.nodesOf [(Key.type.name, .string "list"), (Key.items.name, element.document)])
        (Document.headSlots "list" (some d) none) :=
      .cons ⟨rfl, rfl⟩ (.cons ⟨rfl, hitems⟩ .nil)
    obtain ⟨w, rfl, hread⟩ := Document.exists_record (h.ordered _ (self_mem_nodes _)) hhead hbelow
    exact ⟨_, hread, fun path => Definition.toMapping_eq_list.mpr ⟨d, w, rfl, hmapping _, rfl⟩⟩
  | object fields t ih =>
    obtain ⟨below, rfl, hbelow⟩ := Value.exists_below hdepth
    obtain ⟨ds, hds, hmappings⟩ := fieldsOfJson_documents
      (hbelow _ (List.mem_cons_of_mem _ List.mem_cons_self)) (h.distinct _ (self_mem_nodes _) _ rfl)
      fun f hf depth hdepth => ih f hf (h.of_mem (field_mem_nodes hf t)) hdepth
    have hfields : Slot.readJson below .fields (Value.object (fieldDocuments fields)).node =
        .ok (.fields (some ds)) :=
      map_eq_ok.mpr ⟨some ds, Document.asOption_of_ok hds nofun, rfl⟩
    have hhead : List.Forall₂ (EntryReads below)
        (Document.nodesOf [(Key.type.name, .string "object"),
          (Key.fields.name, .object (fieldDocuments fields))])
        (Document.headSlots "object" none (some ds)) :=
      .cons ⟨rfl, rfl⟩ (.cons ⟨rfl, hfields⟩ .nil)
    obtain ⟨w, rfl, hread⟩ := Document.exists_record (h.ordered _ (self_mem_nodes _)) hhead hbelow
    refine ⟨_, hread, fun path => Definition.toMapping_eq_object.mpr ?_⟩
    exact ⟨ds, w, rfl, hmappings path, rfl⟩

/-! ## Texts -/

/-- The number reader takes the text of every bound for the bound. -/
def BoundsReadBack (m : Mapping) : Prop :=
  ∀ n ∈ m.nodes, ∀ c ∈ n.constraints, ∀ x ∈ c.bound?, (Number.float x).ReadsBack

instance (m : Mapping) : Decidable m.BoundsReadBack :=
  inferInstanceAs (Decidable (∀ n ∈ m.nodes, ∀ c ∈ n.constraints, ∀ x ∈ c.bound?,
    Number.read? (Number.float x).chars = some (.float x, [])))

/-- All extras are written as texts. -/
theorem exists_text_of_extras {x : Extras} {e : String × Value} (h : e ∈ x.toEntries) :
    ∃ s, e.2 = .string s := by
  simp only [Extras.toEntries, List.mem_append] at h
  rcases h with (((h | h) | h) | h) | h
  · obtain ⟨l, -, rfl⟩ := Json.mem_optionalEntry.mp h
    exact ⟨l.name, rfl⟩
  all_goals
    obtain ⟨s, -, rfl⟩ := Json.mem_optionalEntry.mp h
    exact ⟨s, rfl⟩

theorem readsBack_of_mem_traits {t : Traits}
    (h : ∀ c ∈ t.constraints, ∀ x ∈ c.bound?, (Number.float x).ReadsBack) :
    ∀ e ∈ t.toEntries, ∀ n ∈ e.2.numbers, n.ReadsBack := by
  intro e he n hn
  rcases List.mem_append.mp he with he | he
  · obtain ⟨c, hc, rfl⟩ := List.mem_map.mp he
    cases c with
    | minLength length | maxLength length =>
      cases List.mem_singleton.mp hn
      exact Number.readsBack_integer length.toNat_lt
    | minimum x | maximum x =>
      cases List.mem_singleton.mp hn
      exact h _ hc x rfl
    | oneOf ss =>
      obtain ⟨v, hv, hn⟩ := Value.mem_numbers_array.mp hn
      obtain ⟨s, -, rfl⟩ := List.mem_map.mp hv
      cases hn
    | _ => cases hn
  · obtain ⟨s, hs⟩ := exists_text_of_extras he
    rw [hs] at hn
    cases hn

/-- The numbers that are written are read back. -/
theorem readsBack_of_mem_document (h : m.BoundsReadBack) :
    ∀ n ∈ m.document.numbers, n.ReadsBack := by
  have htraits := readsBack_of_mem_traits (h m (self_mem_nodes m))
  induction m with
  | scalar type t =>
    intro n hn
    obtain ⟨e, he, hn⟩ := Value.mem_numbers_object.mp hn
    rcases List.mem_cons.mp he with rfl | he
    · cases hn
    · exact htraits e he n hn
  | list element t ih =>
    intro n hn
    have hbelow : element.BoundsReadBack := fun k hk => h k (mem_nodes_of_element hk)
    obtain ⟨e, he, hn⟩ := Value.mem_numbers_object.mp hn
    rcases List.mem_cons.mp he with rfl | he
    · cases hn
    rcases List.mem_cons.mp he with rfl | he
    · exact ih hbelow (readsBack_of_mem_traits (hbelow _ (self_mem_nodes _))) n hn
    · exact htraits e he n hn
  | object fields t ih =>
    intro n hn
    obtain ⟨e, he, hn⟩ := Value.mem_numbers_object.mp hn
    rcases List.mem_cons.mp he with rfl | he
    · cases hn
    rcases List.mem_cons.mp he with rfl | he
    · rw [fieldDocuments_eq] at hn
      obtain ⟨e, he, hn⟩ := Value.mem_numbers_object.mp hn
      obtain ⟨f, hf, rfl⟩ := List.mem_map.mp he
      have hbelow : f.2.BoundsReadBack := fun k hk => h k (mem_nodes_of_field hf hk)
      exact ih f hf hbelow (readsBack_of_mem_traits (hbelow _ (self_mem_nodes _))) n hn
    · exact htraits e he n hn

end Mapping

namespace Document

/-- A text that spells a written mapping holds it. -/
theorem mappingOfJson_of_spells {m : Mapping} {text : String} (h : m.IsCanonical)
    (hdepth : m.document.depth ≤ jsonNesting) (hspells : Json.Spells text m.document.node) :
    mappingOfJson text = .ok m := by
  obtain ⟨d, hread, hmapping⟩ := m.ofJson_document h hdepth
  exact mappingOfJson_eq_ok.mpr ⟨_, d, hspells, hread, hmapping []⟩

/-- **The JSON format is complete.** A mapping with distinct field names, with tags and constraints
as a document has them and with bounds that are read back can be written as a document. If no more
than 127 containers are open at a time, every text that spells the document holds exactly this
mapping, and both the text on one line and the indented text spell it. -/
theorem mapping_written_and_read {m : Mapping} (h : m.IsCanonical) (hbounds : m.BoundsReadBack)
    (hdepth : m.document.depth ≤ jsonNesting) :
    (∀ text, Json.Spells text m.document.node → mappingOfJson text = .ok m) ∧
      mappingOfJson m.document.compact = .ok m ∧ mappingOfJson m.document.pretty = .ok m := by
  have hnumbers := m.readsBack_of_mem_document hbounds
  have hread {text : String} (hspells : Json.Spells text m.document.node) :=
    mappingOfJson_of_spells h hdepth hspells
  exact ⟨fun _ => hread, hread (Value.compact_spells hnumbers),
    hread (Value.pretty_spells hnumbers)⟩

/-- A list of readings with a code of a type of its own, texts that have to be escaped and bounds in
both notations. -/
def readings : Mapping :=
  .object
    [("größe", .scalar (.custom "geo\"hash")
        ⟨[.required, .pattern "^[a-z]\\d+$", .minLength 1, .maxLength 18446744073709551615],
          { description := some "first\nsecond", sample := some "😀" }⟩),
      ("values", .list
        (.scalar .double ⟨[.minimum (.ofDecimal true 15 (-1)), .maximum (.ofDecimal false 1 22)], {}⟩)
        ⟨[], { refName := some "Values" }⟩),
      ("unit", .scalar .text ⟨[.email, .oneOf ["", "°C"]], { format := some "unit" }⟩)]
    ⟨[.required], { location := some .body }⟩

theorem mapping_written_and_read_readings :
    readings.IsCanonical ∧ readings.BoundsReadBack ∧ readings.document.depth ≤ jsonNesting ∧
      mappingOfJson readings.document.compact = .ok readings ∧
      mappingOfJson readings.document.pretty = .ok readings := by
  have hcanonical : readings.IsCanonical := ⟨by decide, by decide, by decide⟩
  have hbounds : readings.BoundsReadBack := by decide +kernel
  have hdepth : readings.document.depth ≤ jsonNesting := by decide
  exact ⟨hcanonical, hbounds, hdepth, (mapping_written_and_read hcanonical hbounds hdepth).2⟩

end Document

end FieldSchema
