import FieldSchema.Schema.Definitions
import FieldSchema.Proofs.Entries
import Mathlib.Data.List.Induction

/-!
# Merged definitions

What `Definitions.add` does with one definition, and from it what `Definitions.assemble` makes of a
list.

* `Definitions.find?_assemble`: the definition kept under a name is the first one of that name, so
  the kept names are those of the list (`Definitions.mem_keys_assemble`).
* `Definitions.mem_of_mem_assemble`: a kept definition is one of the list.
* `Definitions.exists_earlier`: a later definition of a name is compared with the one that is kept
  under the name, and is a conflict if it does not compare the same.
* `Definitions.exists_kept`: without a conflict, what is kept under the name of a listed definition
  is that definition or compares the same.
* `Definitions.DiffersFromFirst`: the places of a list whose definition is a conflict.
* `Definitions.assemble_first_wins`: the whole result of merging, and that merging more definitions
  only adds to it.
-/

namespace FieldSchema

namespace Definitions

variable {d : Definitions} {ds : List (String × Model)} {named : String × Model} {key : String}

/-! ## One definition -/

theorem find?_add (d : Definitions) (named : String × Model) (key : String) :
    (d.add named).entries.find? key =
      (d.entries.find? key).or (Entries.find? [named] key) := by
  rw [add]
  split
  · exact Entries.find?_append _
  · rename_i kept hkept
    have hentries : (if kept.same named.2 then d else
        { d with conflicts := d.conflicts + 1 }).entries = d.entries := by
      split <;> rfl
    rw [hentries]
    by_cases hk : named.1 = key
    · rw [← hk, hkept, Option.some_or]
    · rw [show Entries.find? [named] key = none from if_neg hk, Option.or_none]

/-- One more conflict is counted exactly where the definition differs from the kept one. -/
theorem conflicts_add_eq (d : Definitions) (named : String × Model) :
    (d.add named).conflicts = d.conflicts +
      if ∃ kept ∈ d.entries.find? named.1, ¬ kept.same named.2 then 1 else 0 := by
  rw [add]
  cases hfind : d.entries.find? named.1 with
  | none => simp
  | some kept => by_cases hsame : kept.same named.2 <;> simp [hsame]

/-- A later definition of a name is a conflict exactly if it does not compare the same as the kept
one. -/
theorem conflicts_add {kept : Model} (h : d.entries.find? named.1 = some kept) :
    (d.add named).conflicts = d.conflicts ↔ kept.same named.2 := by
  rw [conflicts_add_eq, h]
  simp

theorem mem_of_mem_add {e : String × Model} (h : e ∈ (d.add named).entries) :
    e ∈ d.entries ∨ e = named := by
  rw [add] at h
  split at h
  · exact (List.mem_append.mp h).imp id List.mem_singleton.mp
  · split at h <;> exact .inl h

/-- A definition that is taken in without a conflict is kept, or one that compares the same is. -/
theorem exists_kept_add (h : (d.add named).conflicts = 0) :
    d.conflicts = 0 ∧ ∃ kept, (d.add named).entries.find? named.1 = some kept ∧
      (kept = named.2 ∨ kept.same named.2) := by
  rw [find?_add]
  rw [add] at h
  split at h
  · rename_i hnone
    exact ⟨h, named.2, by rw [hnone, Option.none_or]; exact if_pos rfl, .inl rfl⟩
  · rename_i kept hkept
    split at h
    · rename_i hsame
      exact ⟨h, kept, by rw [hkept, Option.some_or], .inr hsame⟩
    · cases h

/-! ## A list of definitions -/

theorem find?_foldl_add (ds : List (String × Model)) (d : Definitions) (key : String) :
    (ds.foldl add d).entries.find? key = (d.entries.find? key).or (Entries.find? ds key) := by
  induction ds generalizing d with
  | nil => exact Option.or_none.symm
  | cons named ds ih =>
    rw [List.foldl_cons, ih, find?_add, Option.or_assoc, ← Entries.find?_append]
    rfl

/-- The first definition of a name is kept. -/
theorem find?_assemble (ds : List (String × Model)) (key : String) :
    (assemble ds).entries.find? key = Entries.find? ds key := by
  rw [assemble, find?_foldl_add]
  exact Option.none_or

theorem mem_keys_assemble : key ∈ (assemble ds).entries.keys ↔ key ∈ Entries.keys ds := by
  rw [← Entries.find?_isSome_iff, find?_assemble, Entries.find?_isSome_iff]

theorem mem_of_mem_foldl_add {e : String × Model} (h : e ∈ (ds.foldl add d).entries) :
    e ∈ d.entries ∨ e ∈ ds := by
  induction ds generalizing d with
  | nil => exact .inl h
  | cons named ds ih =>
    rcases ih h with h | h
    · rcases mem_of_mem_add h with h | rfl
      · exact .inl h
      · exact .inr List.mem_cons_self
    · exact .inr (List.mem_cons_of_mem _ h)

theorem mem_of_mem_assemble {e : String × Model} (h : e ∈ (assemble ds).entries) : e ∈ ds :=
  (mem_of_mem_foldl_add h).resolve_left List.not_mem_nil

/-- What is kept when a later definition of a name comes is kept in the end. -/
theorem exists_earlier {before : List (String × Model)} (hlater : named.1 ∈ Entries.keys before)
    (after : List (String × Model)) :
    ∃ kept, (named.1, kept) ∈ before ∧
      (assemble (before ++ named :: after)).entries.find? named.1 = some kept ∧
      ((assemble (before ++ [named])).conflicts = (assemble before).conflicts ↔
        kept.same named.2) := by
  obtain ⟨kept, hkept⟩ := Option.isSome_iff_exists.mp ((Entries.find?_isSome_iff _ _).mpr hlater)
  refine ⟨kept, Entries.mem_of_find? hkept, ?_, ?_⟩
  · rw [find?_assemble, Entries.find?_append, hkept, Option.some_or]
  · rw [assemble, List.foldl_append]
    exact conflicts_add ((find?_assemble before _).trans hkept)

theorem exists_kept_foldl_add (h : (ds.foldl add d).conflicts = 0) :
    d.conflicts = 0 ∧ ∀ e ∈ ds, ∃ kept, (ds.foldl add d).entries.find? e.1 = some kept ∧
      (kept = e.2 ∨ kept.same e.2) := by
  induction ds generalizing d with
  | nil => exact ⟨h, fun e he => absurd he List.not_mem_nil⟩
  | cons named ds ih =>
    obtain ⟨hstep, hrest⟩ := ih h
    obtain ⟨hd, kept, hkept, hsame⟩ := exists_kept_add hstep
    refine ⟨hd, fun e he => ?_⟩
    rcases List.mem_cons.mp he with rfl | he
    · -- what the step keeps, the rest of the run keeps
      exact ⟨kept, by rw [List.foldl_cons, find?_foldl_add, hkept, Option.some_or], hsame⟩
    · exact hrest e he

/-- Without a conflict, each listed definition is kept, or one that compares the same is. -/
theorem exists_kept {e : String × Model} (h : (assemble ds).conflicts = 0) (he : e ∈ ds) :
    ∃ kept, (assemble ds).entries.find? e.1 = some kept ∧ (kept = e.2 ∨ kept.same e.2) :=
  (exists_kept_foldl_add h).2 e he

/-! ## Names in order -/

/-- Taking in a definition adds its name at the end, unless the name is present. -/
theorem keys_add (d : Definitions) (named : String × Model) :
    (d.add named).entries.keys =
      if named.1 ∈ d.entries.keys then d.entries.keys else d.entries.keys ++ [named.1] := by
  have hmem := Entries.find?_isSome_iff d.entries named.1
  rw [add]
  cases hfind : d.entries.find? named.1 with
  | none =>
    have hnew : named.1 ∉ d.entries.keys := fun hm => by simpa [hfind] using hmem.mpr hm
    rw [if_neg hnew]
    exact List.map_append
  | some kept =>
    have hold : named.1 ∈ d.entries.keys := hmem.mp (by rw [hfind]; rfl)
    by_cases hsame : kept.same named.2 <;> simp [hsame, hold]

theorem keys_nodup_add (h : d.entries.keys.Nodup) : (d.add named).entries.keys.Nodup := by
  rw [keys_add]
  by_cases hmem : named.1 ∈ d.entries.keys
  · rwa [if_pos hmem]
  · rw [if_neg hmem, ← List.concat_eq_append]
    exact List.Nodup.concat hmem h

theorem assemble_append_singleton (ds : List (String × Model)) (named : String × Model) :
    assemble (ds ++ [named]) = (assemble ds).add named := by
  rw [assemble, List.foldl_append]
  rfl

/-- No name is kept twice. -/
theorem keys_nodup_assemble (ds : List (String × Model)) : (assemble ds).entries.keys.Nodup := by
  induction ds using List.reverseRecOn with
  | nil => exact List.nodup_nil
  | append_singleton ds named ih =>
    rw [assemble_append_singleton]
    exact keys_nodup_add ih

/-- The kept names are those of the list, in the order in which they first occur. -/
theorem keys_assemble (ds : List (String × Model)) :
    (assemble ds).entries.keys = (Entries.keys ds).eraseDups := by
  induction ds using List.reverseRecOn with
  | nil => rfl
  | append_singleton ds named ih =>
    have hkeys : Entries.keys (ds ++ [named]) = Entries.keys ds ++ [named.1] := List.map_append
    rw [assemble_append_singleton, keys_add, ih, hkeys, Entries.eraseDups_append_singleton]

/-! ## Conflicts, place by place -/

/-- The definition in a place comes after others of its name, and does not compare the same as the
first of them. -/
def DiffersFromFirst (ds : List (String × Model)) (i : Nat) : Prop :=
  ∃ later ∈ ds[i]?, ∃ first ∈ Entries.find? (ds.take i) later.1, ¬ first.same later.2

instance (ds : List (String × Model)) (i : Nat) : Decidable (DiffersFromFirst ds i) :=
  inferInstanceAs (Decidable (∃ later ∈ ds[i]?, _))

theorem differsFromFirst_length :
    DiffersFromFirst (ds ++ [named]) ds.length ↔
      ∃ kept ∈ (assemble ds).entries.find? named.1, ¬ kept.same named.2 := by
  simp [DiffersFromFirst, find?_assemble]

/-- What comes later does not matter. -/
theorem differsFromFirst_append {i : Nat} (hi : i < ds.length) (es : List (String × Model)) :
    DiffersFromFirst (ds ++ es) i ↔ DiffersFromFirst ds i := by
  rw [DiffersFromFirst, DiffersFromFirst, List.getElem?_append_left hi,
    List.take_append_of_le_length (Nat.le_of_lt hi)]

/-- The conflicts are the places in which a definition differs from the first of its name. -/
theorem conflicts_assemble (ds : List (String × Model)) :
    (assemble ds).conflicts = (List.range ds.length).countP (DiffersFromFirst ds ·) := by
  induction ds using List.reverseRecOn with
  | nil => rfl
  | append_singleton ds named ih =>
    have hbefore : (List.range ds.length).countP (DiffersFromFirst (ds ++ [named]) ·) =
        (List.range ds.length).countP (DiffersFromFirst ds ·) :=
      List.countP_congr fun i hi => by
        simpa using differsFromFirst_append (List.mem_range.mp hi) [named]
    rw [assemble_append_singleton, conflicts_add_eq, ih, List.length_append, List.length_singleton,
      List.range_succ, List.countP_append, hbefore, List.countP_singleton]
    simp only [decide_eq_true_eq, differsFromFirst_length]

/-! ## More definitions -/

/-- A step leaves what is kept in place, and takes no conflict back. -/
theorem entries_prefix_add (d : Definitions) (named : String × Model) :
    d.entries <+: (d.add named).entries ∧ d.conflicts ≤ (d.add named).conflicts := by
  rw [add]
  cases hfind : d.entries.find? named.1 with
  | none => exact ⟨List.prefix_append _ _, Nat.le_refl _⟩
  | some kept => by_cases hsame : kept.same named.2 <;> simp [hsame]

theorem entries_prefix_foldl_add (es : List (String × Model)) (d : Definitions) :
    d.entries <+: (es.foldl add d).entries ∧ d.conflicts ≤ (es.foldl add d).conflicts := by
  induction es generalizing d with
  | nil => exact ⟨List.prefix_rfl, Nat.le_refl _⟩
  | cons named es ih =>
    obtain ⟨hentries, hconflicts⟩ := entries_prefix_add d named
    obtain ⟨hentries', hconflicts'⟩ := ih (d.add named)
    exact ⟨hentries.trans hentries', Nat.le_trans hconflicts hconflicts'⟩

/-- **The first definition of a name wins.** The merged names are those of the list, without
repeats and in the order in which they first occur, each with its first definition. A conflict is
counted for each place whose definition differs from the first one of its name. Merging more
definitions leaves the entries in place and takes no conflict back. -/
theorem assemble_first_wins (ds es : List (String × Model)) :
    (assemble ds).entries.keys = (Entries.keys ds).eraseDups ∧
    (assemble ds).entries.keys.Nodup ∧
    (∀ name, (assemble ds).entries.find? name = Entries.find? ds name) ∧
    (assemble ds).conflicts = (List.range ds.length).countP (DiffersFromFirst ds ·) ∧
    (assemble ds).entries <+: (assemble (ds ++ es)).entries ∧
    (assemble ds).conflicts ≤ (assemble (ds ++ es)).conflicts := by
  have happend : assemble (ds ++ es) = es.foldl add (assemble ds) := List.foldl_append
  obtain ⟨hentries, hconflicts⟩ := entries_prefix_foldl_add es (assemble ds)
  rw [happend]
  exact ⟨keys_assemble ds, keys_nodup_assemble ds, find?_assemble ds, conflicts_assemble ds,
    hentries, hconflicts⟩

/-- A definition is compared with the first one of its name, not with the one right before it. -/
example :
    let text := Model.primitive .string none none
    let number := Model.primitive .number none none
    (assemble [("Id", text), ("Id", number), ("Id", text), ("Id", number)]).conflicts = 2 := rfl

end Definitions

end FieldSchema
