import FieldSchema.Document.Json
import FieldSchema.Proofs.JsonNodes
import FieldSchema.Proofs.RecordMappings
import Mathlib.Data.List.Perm.Basic

/-!
# Reading records from JSON

What a reader of a record did, read off its result.

* `readSlots_eq_ok`: entries are read one by one, each as the slot of its key, and no key comes
  twice.
* `asSequence_eq_ok`: the items of an array are read in order, and keys with a default may be left
  out at the end.
* `Definition.ofSlots?_perm`: the order of slots of distinct keys does not matter;
  `Definition.ofSlots?_cons_absent`: neither does a slot that a `null` is read as.
* `Definition.isWhole_of_ofJson`: nothing is missing from a node that is read as a record.
* `mappingOfJson_eq_ok`: a text holds a mapping exactly if it spells a node of a record that has it.
-/

namespace FieldSchema.Document

open Json (Node)

/-! ## Entries and slots -/

/-- The slot that a node is read as, under a key and when so many containers may be opened. -/
def Slot.readJson (depth : Nat) (k : Key) (node : Node) : Read Slot :=
  Slot.ofJson depth (Definition.ofJson depth) (fieldsOfJson depth) k node

/-- An entry is read as a slot. -/
def EntryReads (depth : Nat) (e : String × Node) (slot : Slot) : Prop :=
  e.1 = slot.key.name ∧ Slot.readJson depth slot.key e.2 = .ok slot

variable {depth : Nat} {k : Key} {node : Node} {slot : Slot} {slots : List Slot}
  {entries : List (String × Node)} {d : Definition}

theorem Slot.key_of_readJson (h : Slot.readJson depth k node = .ok slot) : slot.key = k := by
  unfold Slot.readJson Slot.ofJson at h
  cases k <;> obtain ⟨_, -, rfl⟩ := map_eq_ok.mp h <;> rfl

theorem keys_find?_eq_some {name : String} : keys.find? name = some k ↔ name = k.name := by
  constructor
  · intro h
    have hname := List.find?_some h
    exact (of_decide_eq_true hname).symm
  · rintro rfl
    exact find?_name k

theorem newKey_eq_ok {seen : List Key} {name : String} :
    keys.newKey seen name = .ok k ↔ name = k.name ∧ k ∉ seen := by
  rw [KeySet.newKey, ← keys_find?_eq_some]
  cases keys.find? name with
  | none => simp [Read.refuse]
  | some k' => by_cases hk : k' ∈ seen <;> simp [Read.refuse, hk] <;> grind

theorem readSlots_cons {seen : List Key} {name : String} :
    readSlots keys .ok (Slot.readJson depth) seen ((name, node) :: entries) = (do
      let k ← keys.newKey seen name
      let slot ← Slot.readJson depth k node
      let slots ← readSlots keys .ok (Slot.readJson depth) (k :: seen) entries
      return slot :: slots : Read (List Slot)) := rfl

/-- Entries are read as slots one by one, and no key comes twice. -/
theorem readSlots_eq_ok {seen : List Key} :
    readSlots keys .ok (Slot.readJson depth) seen entries = .ok slots ↔
      List.Forall₂ (EntryReads depth) entries slots ∧ (slots.map Slot.key).Nodup ∧
        ∀ slot ∈ slots, slot.key ∉ seen := by
  induction entries generalizing seen slots with
  | nil =>
    rw [readSlots, pure_eq_ok, List.forall₂_nil_left_iff]
    constructor
    · rintro rfl
      exact ⟨rfl, List.nodup_nil, nofun⟩
    · exact fun h => h.1.symm
  | cons e entries ih =>
    obtain ⟨name, node⟩ := e
    rw [readSlots_cons, List.forall₂_cons_left_iff]
    simp only [bind_eq_ok, pure_eq_ok, newKey_eq_ok]
    constructor
    · rintro ⟨k, ⟨hname, hnew⟩, slot, hslot, rest, hrest, rfl⟩
      obtain ⟨hreads, hnodup, hseen⟩ := ih.mp hrest
      cases Slot.key_of_readJson hslot
      refine ⟨⟨slot, rest, ⟨hname, hslot⟩, hreads, rfl⟩, ?_, ?_⟩
      · rw [List.map_cons, List.nodup_cons, List.mem_map]
        refine ⟨?_, hnodup⟩
        rintro ⟨s, hs, heq⟩
        exact hseen s hs (heq ▸ List.mem_cons_self)
      · intro s hs
        rcases List.mem_cons.mp hs with rfl | hs
        · exact hnew
        · exact fun hmem => hseen s hs (List.mem_cons_of_mem _ hmem)
    · rintro ⟨⟨slot, rest, ⟨hname, hslot⟩, hreads, rfl⟩, hnodup, hseen⟩
      rw [List.map_cons, List.nodup_cons, List.mem_map] at hnodup
      have hrest :
          readSlots keys .ok (Slot.readJson depth) (slot.key :: seen) entries = .ok rest := by
        refine ih.mpr ⟨hreads, hnodup.2, fun s hs hmem => ?_⟩
        rcases List.mem_cons.mp hmem with heq | hmem
        · exact hnodup.1 ⟨s, hs, heq⟩
        · exact hseen s (List.mem_cons_of_mem _ hs) hmem
      exact ⟨slot.key, ⟨hname, hseen slot List.mem_cons_self⟩, slot, hslot, rest, hrest, rfl⟩

/-- A value that may be absent is absent exactly if it is `null`. -/
theorem asOption_eq_ok {α : Type} {read : Node → Read α} {a : Option α} :
    node.asOption read = .ok a ↔
      (node = .null ∧ a = none) ∨ (node ≠ .null ∧ ∃ b, read node = .ok b ∧ a = some b) := by
  cases node with
  | null => simp [Node.asOption, eq_comm (a := a)]
  | _ => simp [Node.asOption, map_eq_ok, eq_comm (a := a)]

theorem asOption_of_ok {α : Type} {read : Node → Read α} {a : α} (h : read node = .ok a)
    (hnode : node ≠ .null) : node.asOption read = .ok (some a) :=
  asOption_eq_ok.mpr (.inr ⟨hnode, a, h, rfl⟩)

/-! ## Arrays -/

section Sequence

variable {κ σ : Type} {read : κ → Node → Read σ} {default? : κ → Option σ} {expected : String}
  {closed : Bool} {n : Nat} {ks : List κ} {items : List Node} {values : List σ}

/-- The items of an array are read in order; the keys that are left without an item, at the end,
have their defaults. -/
theorem asSequence_eq_ok :
    Node.asSequence read default? expected closed n ks items = .ok values ↔
      closed ∧ items.length ≤ ks.length ∧ ∃ told untold, values = told ++ untold ∧
        List.Forall₂ (fun e value => read e.1 e.2 = .ok value) (ks.zip items) told ∧
        List.Forall₂ (fun k value => default? k = some value) (ks.drop items.length) untold := by
  fun_induction Node.asSequence read default? expected closed n ks items generalizing values with
  | case1 n hclosed =>
    rw [Except.ok.injEq]
    constructor
    · rintro rfl
      exact ⟨hclosed, Nat.le_refl _, [], [], rfl, .nil, .nil⟩
    · rintro ⟨-, -, _, _, rfl, ⟨⟩, ⟨⟩⟩
      rfl
  | case2 n hclosed => simp [hclosed, Read.malformed]
  | case3 n node nodes => simp [Read.malformed]
  | case4 n k ks hclosed value hvalue ih =>
    simp only [bind_eq_ok, pure_eq_ok, ih]
    constructor
    · rintro ⟨rest, ⟨-, -, told, untold, rfl, htold, huntold⟩, rfl⟩
      rw [List.zip_nil_right, List.forall₂_nil_left_iff] at htold
      subst htold
      exact ⟨hclosed, Nat.zero_le _, [], _, rfl, .nil, .cons hvalue huntold⟩
    · rintro ⟨-, -, _, _, rfl, ⟨⟩, hall⟩
      obtain ⟨v, untold, hv, huntold, rfl⟩ := List.forall₂_cons_left_iff.mp hall
      rw [hvalue] at hv
      cases hv
      refine ⟨untold, ⟨hclosed, Nat.zero_le _, [], untold, rfl, ?_, huntold⟩, rfl⟩
      rw [List.zip_nil_right]
      exact .nil
  | case5 n k ks hclosed hdefault =>
    simp only [Read.refuse, reduceCtorEq, false_iff]
    rintro ⟨-, -, _, _, rfl, ⟨⟩, huntold⟩
    obtain ⟨v, untold, hv, -, -⟩ := List.forall₂_cons_left_iff.mp huntold
    rw [hdefault] at hv
    cases hv
  | case6 n k ks hclosed => simp [hclosed, Read.malformed]
  | case7 n k ks node nodes ih =>
    simp only [bind_eq_ok, pure_eq_ok, ih]
    constructor
    · rintro ⟨value, hvalue, rest, ⟨hclosed, hlength, told, untold, rfl, htold, huntold⟩, rfl⟩
      exact ⟨hclosed, Nat.succ_le_succ hlength, value :: told, untold, rfl, .cons hvalue htold,
        huntold⟩
    · rintro ⟨hclosed, hlength, _, untold, rfl, hall, huntold⟩
      obtain ⟨value, told, hvalue, htold, rfl⟩ := List.forall₂_cons_left_iff.mp hall
      exact ⟨value, hvalue, told ++ untold,
        ⟨hclosed, Nat.le_of_succ_le_succ hlength, told, untold, rfl, htold, huntold⟩, rfl⟩

end Sequence

/-! ## The record of slots -/

namespace Definition

/-- Slots of one key in a list of distinct keys are one slot. -/
theorem eq_of_key_eq (hnodup : (slots.map Slot.key).Nodup) {a b : Slot} (ha : a ∈ slots)
    (hb : b ∈ slots) (h : a.key = b.key) : a = b :=
  List.inj_on_of_nodup_map hnodup ha hb h

/-- What is looked up among slots of distinct keys, under one key, does not depend on their order.
-/
theorem findSome?_perm {α : Type} {f : Slot → Option α} {k : Key} {others : List Slot}
    (hf : ∀ slot a, f slot = some a → slot.key = k) (hnodup : (slots.map Slot.key).Nodup)
    (hperm : slots.Perm others) : slots.findSome? f = others.findSome? f := by
  cases hfound : slots.findSome? f with
  | none =>
    rw [List.findSome?_eq_none_iff] at hfound
    exact (List.findSome?_eq_none_iff.mpr fun slot hslot =>
      hfound slot (hperm.mem_iff.mpr hslot)).symm
  | some a =>
    obtain ⟨slot, hslot, ha⟩ := List.exists_of_findSome?_eq_some hfound
    cases hother : others.findSome? f with
    | none =>
      rw [List.findSome?_eq_none_iff] at hother
      rw [hother slot (hperm.mem_iff.mp hslot)] at ha
      cases ha
    | some b =>
      obtain ⟨other, hmem, hb⟩ := List.exists_of_findSome?_eq_some hother
      have heq := eq_of_key_eq hnodup hslot (hperm.mem_iff.mpr hmem)
        ((hf slot a ha).trans (hf other b hb).symm)
      rw [← ha, ← hb, heq]

/-- The order of slots of distinct keys does not matter. -/
theorem ofSlots?_perm {others : List Slot} (hnodup : (slots.map Slot.key).Nodup)
    (hperm : slots.Perm others) : ofSlots? slots = ofSlots? others := by
  have htype : typeOf? slots = typeOf? others :=
    findSome?_perm (k := .type) (fun slot a h => by cases slot <;> first | rfl | cases h) hnodup
      hperm
  have hitems : itemsOf slots = itemsOf others :=
    findSome?_perm (k := .items) (fun slot a h => by cases slot <;> first | rfl | cases h) hnodup
      hperm
  have hfields : fieldsOf slots = fieldsOf others :=
    findSome?_perm (k := .fields) (fun slot a h => by cases slot <;> first | rfl | cases h) hnodup
      hperm
  have hkeywords : slots.foldl Keywords.set {} = others.foldl Keywords.set {} := by
    refine hperm.foldl_eq' (fun a ha b hb w => ?_) _
    by_cases h : a.key = b.key
    · rw [eq_of_key_eq hnodup ha hb h]
    · exact Keywords.set_comm w h
  rw [ofSlots?, ofSlots?, htype, hitems, hfields, hkeywords]

/-- A slot that a `null` is read as may be left out. -/
theorem ofSlots?_cons_absent (h : Slot.readJson depth slot.key .null = .ok slot) :
    ofSlots? (slot :: slots) = ofSlots? slots := by
  unfold Slot.readJson Slot.ofJson at h
  cases slot <;> cases h <;> rfl

end Definition

/-! ## Records and fields -/

namespace Definition

theorem ofSlots?_eq_some :
    ofSlots? slots = some d ↔
      ∃ type, typeOf? slots = some type ∧
        d = .mk type (itemsOf slots) (fieldsOf slots) (slots.foldl Keywords.set {}) := by
  rw [ofSlots?, Option.map_eq_some_iff]
  simp only [eq_comm]

theorem ofSlots_eq_ok : ofSlots slots = .ok d ↔ ofSlots? slots = some d := by
  rw [ofSlots]
  cases ofSlots? slots <;> simp [Read.refuse]

/-- An object is read as a record when its entries are read as slots of distinct keys. -/
theorem ofJson_object_eq_ok {closed : Bool} :
    ofJson depth (.object entries closed) = .ok d ↔
      ∃ below slots, depth = below + 1 ∧ closed ∧ List.Forall₂ (EntryReads below) entries slots ∧
        (slots.map Slot.key).Nodup ∧ ofSlots? slots = some d := by
  cases depth with
  | zero => simp [ofJson, Read.malformed]
  | succ depth =>
    rw [ofJson]
    change (readSlots keys .ok (Slot.readJson depth) [] entries >>= _) = _ ↔ _
    simp only [bind_eq_ok, readSlots_eq_ok]
    constructor
    · rintro ⟨slots, ⟨hreads, hnodup, -⟩, h⟩
      split at h
      · rename_i hclosed
        exact ⟨depth, slots, rfl, hclosed, hreads, hnodup, ofSlots_eq_ok.mp h⟩
      · cases h
    · rintro ⟨_, slots, ⟨⟩, hclosed, hreads, hnodup, h⟩
      exact ⟨slots, ⟨hreads, hnodup, nofun⟩, by rw [if_pos hclosed, ofSlots_eq_ok.mpr h]⟩

/-- An array is read as a record when its items are read as slots, in the order of the keys. -/
theorem ofJson_array_eq_ok {items : List Node} {closed : Bool} :
    ofJson depth (.array items closed) = .ok d ↔
      ∃ below told untold, depth = below + 1 ∧ closed ∧ items.length ≤ Key.all.length ∧
        List.Forall₂ (fun e slot => Slot.readJson below e.1 e.2 = .ok slot)
          (Key.all.zip items) told ∧
        List.Forall₂ (fun k slot => Slot.default? k = some slot)
          (Key.all.drop items.length) untold ∧
        ofSlots? (told ++ untold) = some d := by
  cases depth with
  | zero => simp [ofJson, Read.malformed]
  | succ depth =>
    rw [ofJson]
    change (Node.asSequence (Slot.readJson depth) _ _ _ _ _ _ >>= _) = _ ↔ _
    simp only [bind_eq_ok, asSequence_eq_ok, ofSlots_eq_ok]
    constructor
    · rintro ⟨_, ⟨hclosed, hlength, told, untold, rfl, htold, huntold⟩, h⟩
      exact ⟨depth, told, untold, rfl, hclosed, hlength, htold, huntold, h⟩
    · rintro ⟨_, told, untold, ⟨⟩, hclosed, hlength, htold, huntold, h⟩
      exact ⟨_, ⟨hclosed, hlength, told, untold, rfl, htold, huntold⟩, h⟩

/-- Only objects and arrays are read as records. -/
theorem container_of_ofJson (h : ofJson depth node = .ok d) :
    (∃ entries closed, node = .object entries closed) ∨
      ∃ items closed, node = .array items closed := by
  cases node with
  | object entries closed => exact .inl ⟨entries, closed, rfl⟩
  | array items closed => exact .inr ⟨items, closed, rfl⟩
  | _ => cases depth <;> cases h

end Definition

theorem readNamed_eq_ok {read : Node → Read Definition} {pairs : List (String × Definition)} :
    readNamed .ok read entries = .ok pairs ↔
      Entries.Agree (fun node d => read node = .ok d) entries pairs := by
  induction entries generalizing pairs with
  | nil => rw [readNamed, pure_eq_ok, Entries.Agree, List.forall₂_nil_left_iff, eq_comm]
  | cons e entries ih =>
    obtain ⟨name, node⟩ := e
    change (read node >>= fun d => readNamed .ok read entries >>= fun more =>
      pure ((name, d) :: more)) = _ ↔ _
    rw [Entries.Agree, List.forall₂_cons_left_iff]
    simp only [bind_eq_ok, pure_eq_ok, ih]
    constructor
    · rintro ⟨d, hd, more, hmore, rfl⟩
      exact ⟨(name, d), more, ⟨rfl, hd⟩, hmore, rfl⟩
    · rintro ⟨⟨_, d⟩, more, ⟨rfl, hd⟩, hmore, rfl⟩
      exact ⟨d, hd, more, hmore, rfl⟩

/-- Fields are read record by record. -/
theorem fieldsOfJson_eq_ok {ds : Entries Definition} :
    fieldsOfJson depth node = .ok ds ↔
      ∃ below entries pairs, depth = below + 1 ∧ node = .object entries true ∧
        Entries.Agree (fun node d => Definition.ofJson below node = .ok d) entries pairs ∧
        ds = Entries.ofList pairs := by
  cases node with
  | object entries closed =>
    cases depth with
    | zero => simp [fieldsOfJson, Read.malformed]
    | succ depth =>
      rw [fieldsOfJson]
      simp only [bind_eq_ok, readNamed_eq_ok]
      constructor
      · rintro ⟨pairs, hpairs, h⟩
        split at h
        · rename_i hclosed
          exact ⟨depth, entries, pairs, rfl, by rw [hclosed], hpairs, (pure_eq_ok.mp h).symm⟩
        · cases h
      · rintro ⟨_, _, pairs, ⟨⟩, ⟨⟩, hpairs, rfl⟩
        exact ⟨pairs, hpairs, rfl⟩
  | _ =>
    constructor
    · intro h
      cases depth <;> cases h
    · rintro ⟨_, _, _, -, ⟨⟩, -⟩

/-! ## Nothing is missing from what is read -/

theorem refuse_ne_ok {α : Type} (expected : String) (a : α) : node.refuse expected ≠ .ok a := by
  cases node <;> simp [Node.refuse, Read.refuse, Read.malformed]

theorem asString_eq_ok {s : String} : node.asString = .ok s ↔ node = .string s := by
  cases node with
  | string t => simp [Node.asString]
  | _ => simp [Node.asString, refuse_ne_ok]

theorem isWhole_of_asOption {α : Type} {read : Node → Read α} {a : Option α}
    (h : node.asOption read = .ok a) (hread : ∀ a, read node = .ok a → node.isWhole) :
    node.isWhole := by
  rcases asOption_eq_ok.mp h with ⟨rfl, -⟩ | ⟨-, b, hb, -⟩
  · rfl
  · exact hread b hb

theorem isWhole_of_asStrings {ss : List String} (h : node.asStrings depth = .ok ss) :
    node.isWhole := by
  cases node with
  | array items closed =>
    rw [Node.asStrings] at h
    split at h
    · cases h
    · obtain ⟨xs, hxs, h⟩ := bind_eq_ok.mp h
      split at h
      · rename_i hclosed
        refine Node.isWhole_array.mpr ⟨hclosed, fun n hn => ?_⟩
        obtain ⟨x, -, hx⟩ := exists_partner (mapM_eq_ok.mp hxs) hn
        rw [asString_eq_ok.mp hx]
        rfl
      · cases h
  | _ => cases h

theorem isWhole_of_asChoice {α : Type} {choices : List (String × α)} {a : α}
    (h : node.asChoice choices depth = .ok a) : node.isWhole := by
  unfold Node.asChoice at h
  split at h
  · rfl
  · split at h
    · cases h
    · obtain ⟨a, -, h⟩ := bind_eq_ok.mp h
      split at h
      · split at h
        · rename_i hlast
          obtain ⟨hmore, hclosed⟩ := Bool.and_eq_true_iff.mp hlast
          rw [List.isEmpty_iff.mp hmore, hclosed]
          rfl
        · cases h
      · exact absurd h (refuse_ne_ok _ _)
  · cases h

/-- Nothing is missing from a node that is read as a slot, if nothing is from the children. -/
theorem isWhole_of_readJson (h : Slot.readJson depth k node = .ok slot)
    (hitem : ∀ d, Definition.ofJson depth node = .ok d → node.isWhole)
    (hfields : ∀ ds, fieldsOfJson depth node = .ok ds → node.isWhole) : node.isWhole := by
  unfold Slot.readJson Slot.ofJson at h
  have hstring (s : String) (hs : node.asString = .ok s) : node.isWhole := by
    rw [asString_eq_ok.mp hs]
    rfl
  have hbool (b : Bool) (hb : node.asBool = .ok b) : node.isWhole := by
    cases node <;> first | rfl | cases hb
  have hlength (n : UInt64) (hn : node.asLength = .ok n) : node.isWhole := by
    cases node <;> first | rfl | cases hn
  have hbound (x : Binary64) (hx : node.asBound = .ok x) : node.isWhole := by
    cases node <;> first | rfl | cases hx
  cases k <;> obtain ⟨_, h, -⟩ := map_eq_ok.mp h
  case type => exact hstring _ h
  case items => exact isWhole_of_asOption h hitem
  case fields => exact isWhole_of_asOption h hfields
  case required | email => exact hbool _ h
  case minLength | maxLength => exact isWhole_of_asOption h hlength
  case minimum | maximum => exact isWhole_of_asOption h hbound
  case oneOf => exact isWhole_of_asOption h fun _ => isWhole_of_asStrings
  case location => exact isWhole_of_asOption h fun _ => isWhole_of_asChoice
  all_goals exact isWhole_of_asOption h hstring

/-- Nothing is missing from a node that is read as a record, or as fields. -/
theorem isWhole_of_read (depth : Nat) :
    (∀ node d, Definition.ofJson depth node = .ok d → node.isWhole) ∧
      ∀ node ds, fieldsOfJson depth node = .ok ds → node.isWhole := by
  induction depth with
  | zero =>
    refine ⟨fun node d h => ?_, fun node ds h => ?_⟩
    · cases node <;> cases h
    · cases node <;> cases h
  | succ depth ih =>
    obtain ⟨hitem, hfields⟩ := ih
    have hslot {k : Key} {node : Node} {slot : Slot} (h : Slot.readJson depth k node = .ok slot) :=
      isWhole_of_readJson h (hitem node) (hfields node)
    refine ⟨fun node d h => ?_, fun node ds h => ?_⟩
    · rcases Definition.container_of_ofJson h with ⟨entries, closed, rfl⟩ | ⟨items, closed, rfl⟩
      · obtain ⟨_, slots, ⟨⟩, hclosed, hreads, -, -⟩ := Definition.ofJson_object_eq_ok.mp h
        refine Node.isWhole_object.mpr ⟨hclosed, fun e he => ?_⟩
        obtain ⟨slot, -, -, hread⟩ := exists_partner hreads he
        exact hslot hread
      · obtain ⟨_, told, _, ⟨⟩, hclosed, hlength, htold, -, -⟩ := Definition.ofJson_array_eq_ok.mp h
        refine Node.isWhole_array.mpr ⟨hclosed, fun n hn => ?_⟩
        obtain ⟨k, hk⟩ : ∃ k, (k, n) ∈ Key.all.zip items := by
          rw [← List.map_snd_zip hlength, List.mem_map] at hn
          obtain ⟨⟨k, n⟩, hk, rfl⟩ := hn
          exact ⟨k, hk⟩
        obtain ⟨slot, -, hread⟩ := exists_partner htold hk
        exact hslot hread
    · obtain ⟨_, entries, pairs, ⟨⟩, rfl, hpairs, -⟩ := fieldsOfJson_eq_ok.mp h
      refine Node.isWhole_object.mpr ⟨rfl, fun e he => ?_⟩
      obtain ⟨d, -, hd⟩ := hpairs.exists_right he
      exact hitem e.2 d hd

/-! ## Texts -/

theorem readText_eq_ok {α : Type} {read : Node → Read α} {text : String} {a : α} :
    Json.readText read text = .ok a ↔ ∃ n, Node.ofText text = (n, true) ∧ read n = .ok a := by
  rw [Json.readText]
  cases Node.ofText text with
  | mk n whole =>
    simp only [bind_eq_ok]
    constructor
    · rintro ⟨b, hb, h⟩
      split at h
      · rename_i hwhole
        cases pure_eq_ok.mp h
        exact ⟨n, by rw [hwhole], hb⟩
      · cases h
    · rintro ⟨_, ⟨⟩, hb⟩
      exact ⟨a, hb, rfl⟩

/-- A text holds a mapping exactly if it spells a node of a record that has it. -/
theorem mappingOfJson_eq_ok {text : String} {m : Mapping} :
    mappingOfJson text = .ok m ↔
      ∃ n d, Json.Spells text n ∧ Definition.ofJson jsonNesting n = .ok d ∧
        d.toMapping [] = .ok m := by
  rw [mappingOfJson]
  simp only [bind_eq_ok]
  constructor
  · rintro ⟨d, hd, hm⟩
    cases htext : Definition.ofJsonText text with
    | error fault => rw [htext] at hd; cases hd
    | ok d' =>
      rw [htext] at hd
      cases hd
      obtain ⟨n, hn, hread⟩ := readText_eq_ok.mp htext
      exact ⟨n, d, Json.spells_iff.mpr ⟨hn, (isWhole_of_read _).1 n d hread⟩, hread, hm⟩
  · rintro ⟨n, d, hspells, hread, hm⟩
    have htext : Definition.ofJsonText text = .ok d :=
      readText_eq_ok.mpr ⟨n, (Json.spells_iff.mp hspells).1, hread⟩
    exact ⟨d, by rw [htext]; rfl, hm⟩

end FieldSchema.Document
