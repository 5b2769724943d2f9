import FieldSchema.Document.File
import FieldSchema.Proofs.Pointers
import FieldSchema.Proofs.RecordMappings
import Mathlib

/-!
# Field names of documents

A name may come twice among the fields of a document, but a record that is read holds it once, in
either format.

* `Definition.DistinctNames`: no name comes twice among the fields of a record, at any depth.
* `Definition.ofJson_distinct`, `Definition.ofYaml_distinct`: records that are read are so. What all
  results of a reader satisfy is stated with `SatisfiesM`, since readers of the two formats run in
  different monads.
* `Definition.distinctFields_of_toMapping`: the mapping of such a record has distinct field names.
* `Document.Loaded`: a mapping that some document holds; `Document.Loaded.distinctFields`.
-/

namespace FieldSchema.Document

/-! ## Records -/

/-- No name comes twice among the fields of a record, at any depth. -/
inductive Definition.DistinctNames : Definition → Prop
  | mk {type : String} {items : Option Definition} {fields : Option (List (String × Definition))}
      {keywords : Keywords} (item : ∀ d ∈ items, DistinctNames d)
      (nodup : ∀ ds ∈ fields, (Entries.keys ds).Nodup)
      (field : ∀ ds ∈ fields, ∀ e ∈ ds, DistinctNames e.2) :
      DistinctNames (.mk type items fields keywords)

/-- Fields without a repeated name, whose records have none either. -/
structure DistinctFieldNames (ds : Entries Definition) : Prop where
  nodup : (Entries.keys ds).Nodup
  field : ∀ e ∈ ds, e.2.DistinctNames

/-- What a slot holds has no repeated name. -/
def Slot.DistinctNames : Slot → Prop
  | .items d => ∀ a ∈ d, a.DistinctNames
  | .fields ds => ∀ es ∈ ds, DistinctFieldNames es
  | _ => True

theorem Definition.itemsOf_distinct {slots : List Slot} (h : ∀ slot ∈ slots, slot.DistinctNames) :
    ∀ d ∈ itemsOf slots, d.DistinctNames := by
  intro d hd
  obtain ⟨slot, hslot, heq⟩ := List.exists_of_findSome?_eq_some hd
  have hs := h slot hslot
  cases slot with
  | items a => exact hs d heq
  | _ => cases heq

theorem Definition.fieldsOf_distinct {slots : List Slot}
    (h : ∀ slot ∈ slots, slot.DistinctNames) : ∀ ds ∈ fieldsOf slots, DistinctFieldNames ds := by
  intro ds hds
  obtain ⟨slot, hslot, heq⟩ := List.exists_of_findSome?_eq_some hds
  have hs := h slot hslot
  cases slot with
  | fields a => exact hs ds heq
  | _ => cases heq

theorem Definition.ofSlots_distinct {slots : List Slot} (h : ∀ slot ∈ slots, slot.DistinctNames) :
    SatisfiesM DistinctNames (ofSlots slots) := by
  rw [SatisfiesM_Except_eq]
  intro d hd
  rw [ofSlots, ofSlots?] at hd
  cases htype : typeOf? slots with
  | none => rw [htype] at hd; cases hd
  | some type =>
    rw [htype] at hd
    cases hd
    have hfields := fieldsOf_distinct h
    exact .mk (itemsOf_distinct h) (fun ds hds => (hfields ds hds).nodup)
      fun ds hds => (hfields ds hds).field

theorem distinctFieldNames_ofList {pairs : List (String × Definition)}
    (h : ∀ e ∈ pairs, e.2.DistinctNames) : DistinctFieldNames (Entries.ofList pairs) :=
  ⟨Entries.keys_nodup_ofList pairs, fun e he => h e (Entries.mem_of_mem_ofList he)⟩

/-! ## Readers -/

section Readers

variable {κ η ν σ α β : Type} {m : Type → Type} [Monad m] [LawfulMonad m]

/-- What holds of the second of two computations holds of both together. -/
theorem satisfiesM_bind {P : β → Prop} {x : m α} {f : α → m β} (h : ∀ a, SatisfiesM P (f a)) :
    SatisfiesM P (x >>= f) :=
  .bind_pre (.of_true h)

/-- The slots of a record satisfy what each slot does. -/
theorem readSlots_satisfies [MonadLiftT (Except Fault) m] [DecidableEq κ] {keys : KeySet κ}
    {name : η → m String} {read : κ → ν → m σ} {P : σ → Prop}
    (h : ∀ k node, SatisfiesM P (read k node)) (seen : List κ) (entries : List (η × ν)) :
    SatisfiesM (fun slots => ∀ slot ∈ slots, P slot) (readSlots keys name read seen entries) := by
  induction entries generalizing seen with
  | nil => exact .pure nofun
  | cons e entries ih =>
    obtain ⟨n, node⟩ := e
    rw [readSlots]
    refine satisfiesM_bind fun _ => satisfiesM_bind fun k => ?_
    refine (h k node).bind fun slot hslot => (ih _).bind fun slots hslots => .pure ?_
    exact List.forall_mem_cons.mpr ⟨hslot, hslots⟩

/-- Named values satisfy what each value does. -/
theorem readNamed_satisfies {name : η → m String} {read : ν → m α} {P : α → Prop}
    (h : ∀ node, SatisfiesM P (read node)) (entries : List (η × ν)) :
    SatisfiesM (fun pairs => ∀ e ∈ pairs, P e.2) (readNamed name read entries) := by
  induction entries with
  | nil => exact .pure nofun
  | cons e entries ih =>
    obtain ⟨n, node⟩ := e
    rw [readNamed]
    refine satisfiesM_bind fun n => (h node).bind fun a ha => ih.bind fun more hmore => .pure ?_
    exact List.forall_mem_cons.mpr ⟨ha, hmore⟩

end Readers

theorem satisfiesM_error {ε α : Type} {P : α → Prop} (e : ε) :
    SatisfiesM P (.error e : Except ε α) :=
  SatisfiesM_Except_eq.mpr nofun

/-! ## Records in JSON -/

section Json

open Json (Node)

theorem asOption_satisfies {α : Type} {read : Node → Read α} {P : α → Prop}
    (h : ∀ node, SatisfiesM P (read node)) (node : Node) :
    SatisfiesM (fun a => ∀ x ∈ a, P x) (node.asOption read) := by
  unfold Node.asOption
  split
  · exact .pure nofun
  · exact (h _).map fun ha => by simpa using ha

theorem Slot.ofJson_distinct (depth : Nat) {readItem : Node → Read Definition}
    {readFields : Node → Read (Entries Definition)}
    (hitem : ∀ node, SatisfiesM Definition.DistinctNames (readItem node))
    (hfields : ∀ node, SatisfiesM DistinctFieldNames (readFields node)) (k : Key) (node : Node) :
    SatisfiesM Slot.DistinctNames (Slot.ofJson depth readItem readFields k node) := by
  cases k with
  | items => exact (asOption_satisfies hitem node).map fun h => h
  | fields => exact (asOption_satisfies hfields node).map fun h => h
  | _ => exact (SatisfiesM.trivial).map fun _ => trivial

theorem asSequence_satisfies {κ σ : Type} {read : κ → Node → Read σ} {default? : κ → Option σ}
    {expected : String} {closed : Bool} {P : σ → Prop} (h : ∀ k node, SatisfiesM P (read k node))
    (hdefault : ∀ k, ∀ slot ∈ default? k, P slot) (n : Nat) (ks : List κ) (items : List Node) :
    SatisfiesM (fun slots => ∀ slot ∈ slots, P slot)
      (Node.asSequence read default? expected closed n ks items) := by
  fun_induction Node.asSequence read default? expected closed n ks items with
  | case1 => exact .pure nofun
  | case2 | case3 => exact satisfiesM_error _
  | case4 n k ks _ slot hslot ih =>
    refine ih.bind fun slots hslots => .pure ?_
    exact List.forall_mem_cons.mpr ⟨hdefault k slot hslot, hslots⟩
  | case5 | case6 => exact satisfiesM_error _
  | case7 n k ks node nodes ih =>
    refine (h k node).bind fun slot hslot => ih.bind fun slots hslots => .pure ?_
    exact List.forall_mem_cons.mpr ⟨hslot, hslots⟩

/-- Records and fields that are read from JSON have no repeated names. The two readers call each
other one level further down. -/
theorem Definition.ofJson_distinct (depth : Nat) :
    (∀ node, SatisfiesM DistinctNames (ofJson depth node)) ∧
      ∀ node, SatisfiesM DistinctFieldNames (fieldsOfJson depth node) := by
  induction depth with
  | zero =>
    refine ⟨fun node => ?_, fun node => ?_⟩
    · cases node <;> exact satisfiesM_error _
    · cases node <;> exact satisfiesM_error _
  | succ depth ih =>
    obtain ⟨hitem, hfields⟩ := ih
    have hslot := Slot.ofJson_distinct depth hitem hfields
    refine ⟨fun node => ?_, fun node => ?_⟩
    · cases node with
      | object entries closed =>
        rw [ofJson]
        refine (readSlots_satisfies hslot [] entries).bind fun slots hslots => ?_
        split
        · exact ofSlots_distinct hslots
        · exact satisfiesM_error _
      | array items closed =>
        rw [ofJson]
        refine (asSequence_satisfies hslot ?_ 0 Key.all items).bind fun slots hslots =>
          ofSlots_distinct hslots
        intro k slot hdefault
        cases k <;> cases hdefault <;> trivial
      | _ => exact satisfiesM_error _
    · cases node with
      | object entries closed =>
        rw [fieldsOfJson]
        refine (readNamed_satisfies hitem entries).bind fun ds hds => ?_
        split
        · exact .pure (distinctFieldNames_ofList hds)
        · exact satisfiesM_error _
      | _ => exact satisfiesM_error _

theorem Definition.ofJsonText_distinct (text : String) :
    SatisfiesM DistinctNames (ofJsonText text) := by
  unfold ofJsonText Json.readText
  refine ((ofJson_distinct jsonNesting).1 _).bind fun d hd => ?_
  split
  · exact .pure hd
  · exact satisfiesM_error _

end Json

/-! ## Records in YAML -/

section Yaml

open Yaml (Aliases Node Reader)

variable {a : Aliases}

theorem satisfiesM_throw {α : Type} {P : α → Prop} (fault : Fault) :
    SatisfiesM P (throw fault : Reader α) := by
  rw [SatisfiesM_StateT_eq]
  intro s
  exact satisfiesM_error fault

theorem satisfiesM_lift {α : Type} {P : α → Prop} {x : Read α} (h : SatisfiesM P x) :
    SatisfiesM P (liftM x : Reader α) := by
  rw [SatisfiesM_StateT_eq]
  intro s
  exact h.bind fun b hb => .pure hb

theorem yaml_asOption_satisfies {α : Type} {read : Node → Reader α} {P : α → Prop}
    (h : ∀ node, SatisfiesM P (read node)) (node : Node) :
    SatisfiesM (fun x => ∀ b ∈ x, P b) (a.asOption read node) := by
  have hsome (node : Node) : SatisfiesM (fun x => ∀ b ∈ x, P b) (some <$> read node) :=
    (h node).map fun ha => by simpa using ha
  unfold Aliases.asOption
  refine satisfiesM_bind fun node => ?_
  split
  · -- only a plain scalar can stand for no value
    dsimp only
    split
    · split
      · exact .pure nofun
      · exact hsome _
    · split
      · exact hsome _
      · split
        · exact .pure nofun
        · exact satisfiesM_throw _
  · exact satisfiesM_throw _
  · exact hsome _

theorem Slot.ofYaml_distinct (depth : Nat) {readItem : Node → Reader Definition}
    {readFields : Node → Reader (Entries Definition)}
    (hitem : ∀ node, SatisfiesM Definition.DistinctNames (readItem node))
    (hfields : ∀ node, SatisfiesM DistinctFieldNames (readFields node)) (k : Key) (node : Node) :
    SatisfiesM Slot.DistinctNames (Slot.ofYaml a depth readItem readFields k node) := by
  cases k with
  | items => exact (yaml_asOption_satisfies hitem node).map fun h => h
  | fields => exact (yaml_asOption_satisfies hfields node).map fun h => h
  | _ => exact (SatisfiesM.trivial).map fun _ => trivial

/-- Records and fields that are read from YAML have no repeated names. -/
theorem Definition.ofYaml_distinct (depth : Nat) :
    (∀ node, SatisfiesM DistinctNames (ofYaml a depth node)) ∧
      ∀ node, SatisfiesM DistinctFieldNames (fieldsOfYaml a depth node) := by
  induction depth with
  | zero =>
    refine ⟨fun node => ?_, fun node => ?_⟩
    · rw [ofYaml]
      exact satisfiesM_bind fun _ => satisfiesM_lift (ofSlots_distinct nofun)
    · rw [fieldsOfYaml]
      exact satisfiesM_bind fun _ => .pure ⟨List.nodup_nil, nofun⟩
  | succ depth ih =>
    obtain ⟨hitem, hfields⟩ := ih
    have hslot := Slot.ofYaml_distinct (a := a) depth hitem hfields
    refine ⟨fun node => ?_, fun node => ?_⟩
    · rw [ofYaml]
      refine satisfiesM_bind fun ⟨entries, closed⟩ => ?_
      refine (readSlots_satisfies hslot [] entries).bind fun slots hslots => ?_
      split
      · exact satisfiesM_lift (ofSlots_distinct hslots)
      · exact satisfiesM_throw _
    · rw [fieldsOfYaml]
      refine satisfiesM_bind fun ⟨entries, closed⟩ => ?_
      refine (readNamed_satisfies hitem entries).bind fun ds hds => ?_
      split
      · exact .pure (distinctFieldNames_ofList hds)
      · exact satisfiesM_throw _

theorem yaml_readText_satisfies {α : Type} {read : Aliases → Node → Reader α} {P : α → Prop}
    (h : ∀ a node, SatisfiesM P (read a node)) (text : String) :
    SatisfiesM P (Yaml.readText read text) := by
  unfold Yaml.readText
  split
  rename_i root whole hdocument
  have hx := SatisfiesM_Except_eq.mp
    (SatisfiesM_StateT_eq.mp (h ⟨root.target?, root.events * 100⟩ root) 0)
  dsimp only
  split
  · rename_i x next hrun
    split
    · exact .pure (hx _ hrun)
    · exact satisfiesM_error _
  · exact satisfiesM_error _

theorem Definition.ofYamlText_distinct (text : String) :
    SatisfiesM DistinctNames (ofYamlText text) :=
  yaml_readText_satisfies (fun _ node => (ofYaml_distinct Yaml.nesting).1 node) text

end Yaml

/-! ## Mappings of documents -/

/-- The mapping of a record without repeated names has distinct field names. -/
theorem Definition.distinctFields_of_toMapping {d : Definition} {path : Path} {m : Mapping}
    (hd : d.DistinctNames) (h : d.toMapping path = .ok m) : m.DistinctFields := by
  induction hd generalizing path m with
  | @mk type items fields keywords _ hnodup _ hitem hfield =>
    intro n hn
    rcases toMapping_eq_ok.mp h with
      ⟨-, element, k, hitems, -, hk, rfl⟩ | ⟨-, ds, ms, -, hds, hms, rfl⟩ | ⟨-, -, -, -, rfl⟩
    · rcases Mapping.mem_nodes.mp hn with rfl | hn
      · exact nofun
      · exact hitem element hitems hk n hn
    · have hagree := agree_of_fieldMappings hms
      rcases Mapping.mem_nodes.mp hn with rfl | hn
      · rintro _ ⟨⟩
        rw [← hagree.keys_eq]
        exact hnodup ds hds
      · obtain ⟨f, hf, hn⟩ := Mapping.mem_nodesBelow_object.mp hn
        obtain ⟨d, hd, _, hdf⟩ := hagree.exists_left hf
        exact hfield ds hds _ hd hdf n hn
    · rcases Mapping.mem_nodes.mp hn with rfl | hn
      · exact nofun
      · cases hn

/-- A mapping that a document holds, given as a text or as the bytes of a file. -/
inductive Loaded : Mapping → Prop
  | text {format : Format} {text : String} {m : Mapping} (h : mappingOfText format text = .ok m) :
      Loaded m
  | file {path : String} {bytes : Option ByteArray} {m : Mapping}
      (h : mappingOfFile path bytes = .ok m) : Loaded m

namespace Loaded

variable {m : Mapping}

/-- What a text holds is the mapping of a record without repeated names. -/
theorem exists_record_of_text {format : Format} {text : String}
    (h : mappingOfText format text = .ok m) :
    ∃ d : Definition, d.DistinctNames ∧ d.toMapping [] = .ok m := by
  have hmapping {x : Read Definition} {toError : Fault → Error}
      (hx : SatisfiesM Definition.DistinctNames x)
      (h : (do let d ← x.mapError toError; d.toMapping []) = .ok m) :
      ∃ d : Definition, d.DistinctNames ∧ d.toMapping [] = .ok m := by
    obtain ⟨d, hd, hm⟩ := bind_eq_ok.mp h
    cases x with
    | error fault => cases hd
    | ok d' => cases hd; exact ⟨d, SatisfiesM_Except_eq.mp hx d rfl, hm⟩
  cases format with
  | json => exact hmapping (Definition.ofJsonText_distinct text) h
  | yaml => exact hmapping (Definition.ofYamlText_distinct text) h

theorem exists_record (h : Loaded m) :
    ∃ d : Definition, d.DistinctNames ∧ d.toMapping [] = .ok m := by
  cases h with
  | text h => exact exists_record_of_text h
  | @file path bytes m h =>
    cases bytes with
    | none => cases h
    | some bytes =>
      rw [mappingOfFile] at h
      split at h
      · exact exists_record_of_text h
      · cases h

/-- The field names in a mapping that a document holds are distinct. -/
theorem distinctFields (h : Loaded m) : m.DistinctFields := by
  obtain ⟨d, hd, hm⟩ := h.exists_record
  exact d.distinctFields_of_toMapping hd hm

end Loaded

end FieldSchema.Document
