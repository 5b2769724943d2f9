import FieldSchema.Document.File
import FieldSchema.Proofs.JsonRecords
import FieldSchema.Proofs.NumberRange
import FieldSchema.Proofs.Tree

/-!
# Bounds of documents

A mapping that a JSON document holds has finite bounds only, because the numbers in the text are
finite. In YAML there are words for the other numbers.

* `Mapping.DeclaresBound`: a node declares a number as a bound. `Mapping.BoundsFinite`: all bounds
  that are declared in a tree are finite.
* `Json.Node.InRange`: the numbers in a node are in range, as those that a text spells are
  (`Json.Spells.inRange`).
* `Document.Definition.boundsFinite_of_ofJson`: so the bounds of a record read from JSON are finite,
  at any depth.
* `Document.boundsFinite_of_json`: and those of the mapping.
-/

namespace FieldSchema

/-! ## Bounds in trees -/

/-- The node declares the number as its least or its greatest value. -/
def Mapping.DeclaresBound (n : Mapping) (x : Binary64) : Prop :=
  .minimum x ∈ n.constraints ∨ .maximum x ∈ n.constraints

/-- All bounds that are declared in a tree are finite. -/
def Mapping.BoundsFinite (m : Mapping) : Prop :=
  ∀ n ∈ m.nodes, ∀ x, n.DeclaresBound x → x.isFinite

/-! ## Numbers in nodes -/

namespace Json

/-- The numbers in a node are in range. -/
def Node.InRange (node : Node) : Prop := ∀ n, Token.number n ∈ node.tokens → n.InRange

namespace Node

variable {n : Node} {closed : Bool}

theorem mem_intercalate {α : Type} {x : α} {sep xs : List α} {xss : List (List α)} (h : xs ∈ xss)
    (hx : x ∈ xs) : x ∈ sep.intercalate xss := by
  induction xss with
  | nil => cases h
  | cons ys xss ih =>
    cases xss with
    | nil =>
      rw [List.intercalate_singleton, ← List.mem_singleton.mp h]
      exact hx
    | cons zs xss =>
      rw [List.intercalate_cons_cons, List.mem_append, List.mem_append]
      rcases List.mem_cons.mp h with rfl | h
      · exact .inl (.inl hx)
      · exact .inr (ih h)

theorem InRange.item {items : List Node} (h : (array items closed).InRange) (hn : n ∈ items) :
    n.InRange := by
  intro x hx
  apply h x
  rw [tokens_array]
  have hmem : Token.number x ∈ [Token.comma].intercalate (items.map tokens) :=
    mem_intercalate (List.mem_map_of_mem hn) hx
  exact List.mem_append_left _ (List.mem_cons_of_mem _ hmem)

theorem InRange.entry {entries : List (String × Node)} {e : String × Node}
    (h : (object entries closed).InRange) (he : e ∈ entries) : e.2.InRange := by
  intro x hx
  apply h x
  rw [tokens_object]
  have hentry : Token.number x ∈ tokensOfEntry e :=
    List.mem_cons_of_mem _ (List.mem_cons_of_mem _ hx)
  have hmem : Token.number x ∈ [Token.comma].intercalate (entries.map tokensOfEntry) :=
    mem_intercalate (List.mem_map_of_mem he) hentry
  exact List.mem_append_left _ (List.mem_cons_of_mem _ hmem)

/-- A number in range is read as a finite bound. -/
theorem isFinite_of_asBound {x : Binary64} (h : n.InRange) (hx : n.asBound = .ok x) :
    x.isFinite := by
  cases n with
  | number k =>
    have hk := h k (List.mem_singleton_self _)
    cases k with
    | integer i =>
      cases hx
      have hle : i.natAbs ≤ 2 ^ 64 * 1 := by
        rw [Nat.mul_one]
        exact Nat.le_of_lt hk
      exact (Binary64.within_ofRatio (by decide) Nat.one_pos hle).isFinite
    | float y =>
      cases hx
      exact hk
  | _ => cases hx

end Node

/-- The numbers that a text spells are in range. -/
theorem Spells.inRange {text : String} {n : Node} (h : Spells text n) : n.InRange := by
  intro x hx
  rw [← h.scan_eq] at hx
  exact Token.inRange_of_scan hx

end Json

/-! ## Records -/

namespace Document

open Json (Node)

/-- All bounds in a record are finite, at any depth. -/
inductive Definition.BoundsFinite : Definition → Prop
  | mk {type : String} {items : Option Definition} {fields : Option (List (String × Definition))}
      {keywords : Keywords} (minimum : ∀ x ∈ keywords.minimum, x.isFinite)
      (maximum : ∀ x ∈ keywords.maximum, x.isFinite) (item : ∀ d ∈ items, BoundsFinite d)
      (field : ∀ ds ∈ fields, ∀ e ∈ ds, BoundsFinite e.2) :
      BoundsFinite (.mk type items fields keywords)

/-- All bounds in what a slot holds are finite. -/
def Slot.BoundsFinite : Slot → Prop
  | .items d => ∀ a ∈ d, a.BoundsFinite
  | .fields ds => ∀ es ∈ ds, ∀ e ∈ es, e.2.BoundsFinite
  | .minimum x | .maximum x => ∀ b ∈ x, b.isFinite
  | _ => True

variable {slots : List Slot} {slot : Slot} {depth : Nat} {node : Node} {k : Key}

theorem Keywords.bounds_set {w : Keywords} (hmin : ∀ x ∈ w.minimum, x.isFinite)
    (hmax : ∀ x ∈ w.maximum, x.isFinite) (h : slot.BoundsFinite) :
    (∀ x ∈ (w.set slot).minimum, x.isFinite) ∧ ∀ x ∈ (w.set slot).maximum, x.isFinite := by
  cases slot with
  | minimum x => exact ⟨h, hmax⟩
  | maximum x => exact ⟨hmin, h⟩
  | _ => exact ⟨hmin, hmax⟩

theorem Keywords.bounds_foldl {w : Keywords} (hmin : ∀ x ∈ w.minimum, x.isFinite)
    (hmax : ∀ x ∈ w.maximum, x.isFinite) (h : ∀ slot ∈ slots, slot.BoundsFinite) :
    (∀ x ∈ (slots.foldl Keywords.set w).minimum, x.isFinite) ∧
      ∀ x ∈ (slots.foldl Keywords.set w).maximum, x.isFinite := by
  induction slots generalizing w with
  | nil => exact ⟨hmin, hmax⟩
  | cons slot slots ih =>
    obtain ⟨hmin, hmax⟩ := bounds_set hmin hmax (h slot List.mem_cons_self)
    exact ih hmin hmax fun s hs => h s (List.mem_cons_of_mem _ hs)

namespace Definition

variable {d : Definition}

theorem boundsFinite_ofSlots? (h : ∀ slot ∈ slots, slot.BoundsFinite)
    (hd : ofSlots? slots = some d) : d.BoundsFinite := by
  obtain ⟨type, -, rfl⟩ := ofSlots?_eq_some.mp hd
  obtain ⟨hmin, hmax⟩ := Keywords.bounds_foldl (w := {}) nofun nofun h
  refine .mk hmin hmax (fun a ha => ?_) fun ds hds => ?_
  · obtain ⟨slot, hslot, heq⟩ := List.exists_of_findSome?_eq_some ha
    have hs := h slot hslot
    cases slot with
    | items b => exact hs a heq
    | _ => cases heq
  · obtain ⟨slot, hslot, heq⟩ := List.exists_of_findSome?_eq_some hds
    have hs := h slot hslot
    cases slot with
    | fields b => exact hs ds heq
    | _ => cases heq

/-- A node with numbers in range is read as a slot with finite bounds, if its children are. -/
theorem boundsFinite_of_readJson (hnode : node.InRange)
    (hitem : ∀ d, ofJson depth node = .ok d → d.BoundsFinite)
    (hfields : ∀ ds, fieldsOfJson depth node = .ok ds → ∀ e ∈ ds, e.2.BoundsFinite)
    (h : Slot.readJson depth k node = .ok slot) : slot.BoundsFinite := by
  have hoption {α : Type} {read : Node → Read α} {a : Option α} {P : α → Prop}
      (ha : node.asOption read = .ok a) (hread : ∀ b, read node = .ok b → P b) : ∀ b ∈ a, P b := by
    intro b hb
    obtain ⟨-, rfl⟩ | ⟨-, c, hc, rfl⟩ := asOption_eq_ok.mp ha
    · cases hb
    · cases hb
      exact hread _ hc
  unfold Slot.readJson Slot.ofJson at h
  cases k <;> obtain ⟨_, hread, rfl⟩ := map_eq_ok.mp h
  case items => exact hoption hread hitem
  case fields => exact hoption hread hfields
  case minimum | maximum => exact hoption hread fun _ => Node.isFinite_of_asBound hnode
  all_goals trivial

/-- Records and fields that are read from a node with numbers in range have finite bounds. -/
theorem boundsFinite_of_read (depth : Nat) :
    (∀ node d, node.InRange → ofJson depth node = .ok d → d.BoundsFinite) ∧
      ∀ node ds, node.InRange → fieldsOfJson depth node = .ok ds →
        ∀ e ∈ ds, e.2.BoundsFinite := by
  induction depth with
  | zero =>
    refine ⟨fun node d _ h => ?_, fun node ds _ h => ?_⟩
    · cases node <;> cases h
    · cases node <;> cases h
  | succ depth ih =>
    obtain ⟨hitem, hfields⟩ := ih
    have hslot {k : Key} {node : Node} {slot : Slot} (hnode : node.InRange)
        (h : Slot.readJson depth k node = .ok slot) : slot.BoundsFinite :=
      boundsFinite_of_readJson hnode (fun d => hitem node d hnode)
        (fun ds => hfields node ds hnode) h
    refine ⟨fun node d hnode h => ?_, fun node ds hnode h => ?_⟩
    · rcases container_of_ofJson h with ⟨entries, closed, rfl⟩ | ⟨items, closed, rfl⟩
      · obtain ⟨_, slots, ⟨⟩, -, hreads, -, hd⟩ := ofJson_object_eq_ok.mp h
        refine boundsFinite_ofSlots? (fun slot hs => ?_) hd
        obtain ⟨e, he, -, hread⟩ := exists_partner hreads.flip hs
        exact hslot (hnode.entry he) hread
      · obtain ⟨_, told, untold, ⟨⟩, -, -, htold, huntold, hd⟩ := ofJson_array_eq_ok.mp h
        refine boundsFinite_ofSlots? (fun slot hs => ?_) hd
        rcases List.mem_append.mp hs with hs | hs
        · obtain ⟨e, he, hread⟩ := exists_partner htold.flip hs
          exact hslot (hnode.item (List.of_mem_zip he).2) hread
        · obtain ⟨k, -, hdefault⟩ := exists_partner huntold.flip hs
          cases k <;> cases hdefault <;> trivial
    · obtain ⟨_, entries, pairs, ⟨⟩, rfl, hpairs, rfl⟩ := fieldsOfJson_eq_ok.mp h
      intro e he
      obtain ⟨k, hk, hread⟩ := hpairs.exists_left (Entries.mem_of_mem_ofList he)
      exact hitem k e.2 (hnode.entry hk) hread

theorem declaresBound_iff {w : Keywords} {n : Mapping} {x : Binary64} (hn : n.traits = w.traits) :
    n.DeclaresBound x ↔ w.minimum = some x ∨ w.maximum = some x := by
  unfold Mapping.DeclaresBound Mapping.constraints
  rw [hn]
  simp [Keywords.traits, Keywords.constraints, Keywords.declared]

/-- The mapping of a record with finite bounds has finite bounds. -/
theorem boundsFinite_of_toMapping {path : Path} {m : Mapping} (hd : d.BoundsFinite)
    (h : d.toMapping path = .ok m) : m.BoundsFinite := by
  induction hd generalizing path m with
  | @mk type items fields keywords hmin hmax _ _ hitem hfield =>
    have hroot (hm : m.traits = keywords.traits) (x : Binary64) (hx : m.DeclaresBound x) :
        x.isFinite := by
      rcases (declaresBound_iff hm).mp hx with hx | hx
      · exact hmin x hx
      · exact hmax x hx
    intro n hn
    rcases toMapping_eq_ok.mp h with
      ⟨-, element, k, hitems, -, hk, rfl⟩ | ⟨-, ds, ms, -, hds, hms, rfl⟩ | ⟨-, -, -, -, rfl⟩
    · rcases Mapping.mem_nodes.mp hn with rfl | hn
      · exact hroot rfl
      · exact hitem element hitems hk n hn
    · rcases Mapping.mem_nodes.mp hn with rfl | hn
      · exact hroot rfl
      · obtain ⟨f, hf, hn⟩ := Mapping.mem_nodesBelow_object.mp hn
        obtain ⟨d, hd, _, hdf⟩ := (agree_of_fieldMappings hms).exists_left hf
        exact hfield ds hds _ hd hdf n hn
    · rcases Mapping.mem_nodes.mp hn with rfl | hn
      · exact hroot rfl
      · cases hn

end Definition

/-- The bounds of a mapping that a JSON document holds are finite. -/
theorem boundsFinite_of_json {text : String} {m : Mapping} (h : mappingOfJson text = .ok m) :
    m.BoundsFinite := by
  obtain ⟨node, d, hspells, hread, hm⟩ := mappingOfJson_eq_ok.mp h
  have hd := (Definition.boundsFinite_of_read jsonNesting).1 node d hspells.inRange hread
  exact Definition.boundsFinite_of_toMapping hd hm

end Document

end FieldSchema
