import FieldSchema.Entries
import Mathlib.Data.List.Forall2
import Mathlib.Data.List.Induction
import Mathlib.Data.List.Nodup
import Mathlib.Data.List.Perm.Subperm

/-!
# Looking up and collecting entries

* `Entries.mem_of_find?`, `Entries.find?_of_mem`: looking a name up and being listed, which agree
  where no name is listed twice.
  `Entries.find?_reverse_eq_some` says what is found from the end.
* `Entries.keys_nodup_ofList`: collected entries list no name twice.
* `Entries.mem_of_mem_ofList`: every collected entry is one of the given pairs.
* `Entries.ofList_of_nodup`: pairs with distinct names are collected as they are.
* `Entries.find?_ofList`: the collected value of a name is the last one given.
  `Entries.keys_ofList`: the names stand in the order in which they are first given.
* `Entries.Agree`: two lists have the same names in the same places, with related values; collecting
  keeps that (`Entries.Agree.ofList`).
* `Entries.Found`: two lists have equally many entries, and each of the first is found, related, in
  the second. Where no name is listed twice, this is agreement up to order
  (`Entries.Found.exists_perm`).
-/

namespace FieldSchema

namespace Entries

variable {α β : Type} {es : Entries α} {key : String} {value : α}

/-! ## Looking up -/

@[simp] theorem find?_nil : find? ([] : Entries α) key = none := rfl

@[simp] theorem find?_cons (e : String × α) (es : Entries α) :
    find? (e :: es) key = if e.1 = key then some e.2 else find? es key := rfl

theorem mem_of_find? (h : find? es key = some value) : (key, value) ∈ es := by
  induction es with
  | nil => cases h
  | cons e es ih =>
    obtain ⟨k, v⟩ := e
    rw [find?] at h
    split at h
    · rename_i hk; cases h; subst hk; exact List.mem_cons_self
    · exact List.mem_cons_of_mem _ (ih h)

theorem mem_keys_of_mem {e : String × α} (h : e ∈ es) : e.1 ∈ keys es := List.mem_map_of_mem h

/-- A listed entry is found, unless another one of its name stands before it. -/
theorem find?_of_mem (hn : (keys es).Nodup) (h : (key, value) ∈ es) :
    find? es key = some value := by
  induction es with
  | nil => cases h
  | cons e es ih =>
    obtain ⟨k, v⟩ := e
    rw [keys_cons, List.nodup_cons] at hn
    rw [find?]
    rcases List.mem_cons.mp h with h | h
    · cases h; rw [if_pos rfl]
    · have hne : k ≠ key := fun hk => hn.1 (hk ▸ mem_keys_of_mem h)
      rw [if_neg hne]
      exact ih hn.2 h

theorem find?_map (f : α → β) :
    find? (es.map fun e => (e.1, f e.2)) key = (find? es key).map f := by
  induction es with
  | nil => rfl
  | cons e es ih =>
    rw [List.map_cons, find?, find?]
    split
    · rfl
    · exact ih

@[simp] theorem find?_append (fs : Entries α) :
    find? (es ++ fs) key = (find? es key).or (find? fs key) := by
  induction es with
  | nil => rfl
  | cons e es ih =>
    rw [List.cons_append, find?, find?]
    split
    · rfl
    · exact ih

theorem find?_eq_none_iff : find? es key = none ↔ key ∉ keys es := by
  rw [← find?_isSome_iff, Option.not_isSome_iff_eq_none]

/-- What is found from the end is the last value that is listed under the name. -/
theorem find?_reverse_eq_some :
    find? es.reverse key = some value ↔
      ∃ before after, es = before ++ (key, value) :: after ∧ key ∉ keys after := by
  constructor
  · intro h
    induction es with
    | nil => cases h
    | cons e es ih =>
      rw [List.reverse_cons, find?_append] at h
      rcases Option.or_eq_some_iff.mp h with h | ⟨hnone, he⟩
      · obtain ⟨before, after, rfl, hafter⟩ := ih h
        exact ⟨e :: before, after, rfl, hafter⟩
      · obtain rfl := List.mem_singleton.mp (mem_of_find? he)
        rw [find?_eq_none_iff, keys, List.map_reverse, List.mem_reverse] at hnone
        exact ⟨[], es, rfl, hnone⟩
  · rintro ⟨before, after, rfl, hafter⟩
    have hnone : find? after.reverse key = none := by
      rwa [find?_eq_none_iff, keys, List.map_reverse, List.mem_reverse]
    rw [List.reverse_append, List.reverse_cons, find?_append, find?_append, hnone, find?_cons,
      if_pos rfl]
    rfl

/-! ## Collecting -/

theorem mem_of_mem_insert {e : String × α} (h : e ∈ es.insert key value) :
    e ∈ es ∨ e = (key, value) := by
  induction es with
  | nil => exact .inr (List.mem_singleton.mp h)
  | cons d es ih =>
    rw [insert] at h
    split at h
    · rcases List.mem_cons.mp h with h | h
      · exact .inr h
      · exact .inl (List.mem_cons_of_mem _ h)
    · rcases List.mem_cons.mp h with h | h
      · exact .inl (h ▸ List.mem_cons_self)
      · exact (ih h).imp (List.mem_cons_of_mem _) id

theorem insert_of_notMem (h : key ∉ keys es) : es.insert key value = es ++ [(key, value)] := by
  induction es with
  | nil => rfl
  | cons e es ih =>
    rw [keys_cons, List.mem_cons, not_or] at h
    rw [insert, if_neg (Ne.symm h.1), ih h.2, List.cons_append]

theorem keys_nodup_insert (h : (keys es).Nodup) : (keys (es.insert key value)).Nodup := by
  rw [keys_insert]
  split
  · exact h
  · rename_i hk
    exact List.nodup_append.mpr ⟨h, List.nodup_singleton key,
      fun a ha b hb => by rw [List.mem_singleton.mp hb]; exact fun hab => hk (hab ▸ ha)⟩

theorem insertAll_cons (e : String × α) (pairs : List (String × α)) :
    es.insertAll (e :: pairs) = (es.insert e.1 e.2).insertAll pairs := rfl

theorem keys_nodup_insertAll (pairs : List (String × α)) (h : (keys es).Nodup) :
    (keys (es.insertAll pairs)).Nodup := by
  induction pairs generalizing es with
  | nil => exact h
  | cons e pairs ih => exact ih (keys_nodup_insert h)

/-- Collected entries list no name twice. -/
theorem keys_nodup_ofList (pairs : List (String × α)) : (keys (ofList pairs)).Nodup :=
  keys_nodup_insertAll pairs List.nodup_nil

theorem mem_of_mem_insertAll {e : String × α} {pairs : List (String × α)}
    (h : e ∈ es.insertAll pairs) : e ∈ es ∨ e ∈ pairs := by
  induction pairs generalizing es with
  | nil => exact .inl h
  | cons d pairs ih =>
    rcases ih h with h | h
    · rcases mem_of_mem_insert h with h | h
      · exact .inl h
      · exact .inr (h ▸ List.mem_cons_self)
    · exact .inr (List.mem_cons_of_mem _ h)

/-- Every collected entry is one of the pairs. -/
theorem mem_of_mem_ofList {e : String × α} {pairs : List (String × α)} (h : e ∈ ofList pairs) :
    e ∈ pairs :=
  (mem_of_mem_insertAll h).resolve_left List.not_mem_nil

theorem insertAll_of_nodup {pairs : List (String × α)} (h : (keys es ++ keys pairs).Nodup) :
    es.insertAll pairs = es ++ pairs := by
  induction pairs generalizing es with
  | nil => exact (List.append_nil es).symm
  | cons e pairs ih =>
    have hk : e.1 ∉ keys es := fun hm =>
      (List.nodup_append.mp h).2.2 e.1 hm e.1 List.mem_cons_self rfl
    rw [insertAll_cons, insert_of_notMem hk, ih]
    · exact List.append_assoc es [e] pairs
    · simpa [keys] using h

/-- Pairs with distinct names are collected as they are. -/
theorem ofList_of_nodup {pairs : List (String × α)} (h : (keys pairs).Nodup) :
    ofList pairs = pairs :=
  insertAll_of_nodup h

theorem find?_insertAll (pairs : List (String × α)) :
    find? (es.insertAll pairs) key = (find? pairs.reverse key).or (find? es key) := by
  induction pairs generalizing es with
  | nil => rfl
  | cons e pairs ih =>
    rw [insertAll_cons, ih, find?_insert, List.reverse_cons, find?_append, Option.or_assoc]
    congr 1
    rw [find?]
    split <;> rfl

/-- The collected value of a name is the last one given. -/
theorem find?_ofList (pairs : List (String × α)) :
    find? (ofList pairs) key = find? pairs.reverse key := by
  rw [ofList, find?_insertAll]
  exact Option.or_none

theorem ofList_append_singleton (pairs : List (String × α)) (e : String × α) :
    ofList (pairs ++ [e]) = (ofList pairs).insert e.1 e.2 := by
  rw [ofList, insertAll, List.foldl_append]
  rfl

/-- A name that is added at the end of a list is its first occurrence, or is left out. -/
theorem eraseDups_append_singleton (names : List String) (key : String) :
    (names ++ [key]).eraseDups =
      if key ∈ names.eraseDups then names.eraseDups else names.eraseDups ++ [key] := by
  rw [List.eraseDups_append]
  by_cases hmem : key ∈ names
  · simp [hmem, List.removeAll]
  · simp [hmem, List.removeAll, List.eraseDups_cons]

/-- The collected names are those of the pairs, in the order in which they first occur. -/
theorem keys_ofList (pairs : List (String × α)) : keys (ofList pairs) = (keys pairs).eraseDups := by
  induction pairs using List.reverseRecOn with
  | nil => rfl
  | append_singleton pairs e ih =>
    have hkeys : keys (pairs ++ [e]) = keys pairs ++ [e.1] := List.map_append
    rw [ofList_append_singleton, keys_insert, ih, hkeys, eraseDups_append_singleton]

/-! ## Entries with related values -/

/-- The same names in the same places, with related values. -/
def Agree (R : α → β → Prop) (es : Entries α) (fs : Entries β) : Prop :=
  List.Forall₂ (fun e f => e.1 = f.1 ∧ R e.2 f.2) es fs

namespace Agree

variable {R : α → β → Prop} {fs : Entries β}

theorem keys_eq (h : Agree R es fs) : keys es = keys fs := by
  induction h with
  | nil => rfl
  | cons hef _ ih => rw [keys, keys, List.map_cons, List.map_cons, hef.1]; exact congrArg _ ih

theorem length_eq (h : Agree R es fs) : es.length = fs.length := List.Forall₂.length_eq h

theorem flip (h : Agree R es fs) : Agree (fun b a => R a b) fs es :=
  List.Forall₂.flip (h.imp fun _ _ hef => ⟨hef.1.symm, hef.2⟩)

/-- What follows for each pair of values follows for the lists. -/
theorem imp_of_mem {S : α → β → Prop} (h : Agree R es fs)
    (hRS : ∀ key a b, (key, a) ∈ es → R a b → S a b) : Agree S es fs := by
  induction h with
  | nil => exact .nil
  | @cons e f es fs hef _ ih =>
    exact .cons ⟨hef.1, hRS e.1 e.2 f.2 List.mem_cons_self hef.2⟩
      (ih fun key a b ha => hRS key a b (List.mem_cons_of_mem _ ha))

/-- An entry has a counterpart of its name. -/
theorem exists_right (h : Agree R es fs) (hm : (key, value) ∈ es) :
    ∃ w, (key, w) ∈ fs ∧ R value w := by
  induction h with
  | nil => cases hm
  | @cons e f es fs hef _ ih =>
    rcases List.mem_cons.mp hm with rfl | hm
    · exact ⟨f.2, by rw [show key = f.1 from hef.1]; exact List.mem_cons_self, hef.2⟩
    · obtain ⟨w, hw, hr⟩ := ih hm
      exact ⟨w, List.mem_cons_of_mem _ hw, hr⟩

theorem exists_left {w : β} (h : Agree R es fs) (hm : (key, w) ∈ fs) :
    ∃ value, (key, value) ∈ es ∧ R value w :=
  h.flip.exists_right hm

theorem reverse (h : Agree R es fs) : Agree R es.reverse fs.reverse :=
  List.forall₂_reverse_iff.mpr h

/-- The entry in the same place on the other side. -/
theorem exists_getElem? {i : Nat} {e : String × α} (h : Agree R es fs) (he : es[i]? = some e) :
    ∃ w, fs[i]? = some (e.1, w) ∧ R e.2 w := by
  induction h generalizing i with
  | nil => cases he
  | @cons d f es fs hdf _ ih =>
    cases i with
    | zero =>
      cases he
      exact ⟨f.2, by rw [hdf.1]; rfl, hdf.2⟩
    | succ i => exact ih he

/-- A value found on one side has a counterpart found on the other. -/
theorem exists_find? {w : β} (h : Agree R es fs) (hw : find? fs key = some w) :
    ∃ value, find? es key = some value ∧ R value w := by
  induction h with
  | nil => cases hw
  | @cons e f es fs hef _ ih =>
    rw [find?] at hw ⊢
    rw [hef.1]
    split at hw
    · rename_i hk
      cases hw
      exact ⟨e.2, if_pos hk, hef.2⟩
    · rename_i hk
      rw [if_neg hk]
      exact ih hw

/-- What is found under a name on the two sides is related, or nothing is found on either. -/
theorem find?_rel (h : Agree R es fs) (key : String) :
    Option.Rel R (find? es key) (find? fs key) := by
  induction h with
  | nil => exact .none
  | @cons e f es fs hef _ ih =>
    rw [find?_cons, find?_cons, hef.1]
    split
    · exact .some hef.2
    · exact ih

/-- Where each value has a third that goes with both of its pair, so have the lists. -/
theorem exists_agree {γ : Type} {S : α → γ → Prop} {T : β → γ → Prop} (h : Agree R es fs)
    (hST : ∀ key a b, (key, a) ∈ es → R a b → ∃ c, S a c ∧ T b c) :
    ∃ gs, Agree S es gs ∧ Agree T fs gs := by
  induction h with
  | nil => exact ⟨[], .nil, .nil⟩
  | @cons e f es fs hef _ ih =>
    obtain ⟨c, hs, ht⟩ := hST e.1 e.2 f.2 List.mem_cons_self hef.2
    obtain ⟨gs, hgs, hgt⟩ := ih fun key a b ha => hST key a b (List.mem_cons_of_mem _ ha)
    exact ⟨(e.1, c) :: gs, .cons ⟨rfl, hs⟩ hgs, .cons ⟨hef.1.symm, ht⟩ hgt⟩

/-- What is made of the values, each under its name, is the same where it is for each value. -/
theorem map_eq {γ : Type} {f : α → γ} {g : β → γ} (h : Agree R es fs)
    (hfg : ∀ key a b, (key, a) ∈ es → R a b → f a = g b) :
    es.map (fun e => (e.1, f e.2)) = fs.map fun e => (e.1, g e.2) := by
  induction h with
  | nil => rfl
  | @cons e d es fs hed _ ih =>
    rw [List.map_cons, List.map_cons, hed.1, hfg e.1 e.2 d.2 List.mem_cons_self hed.2,
      ih fun key a b ha => hfg key a b (List.mem_cons_of_mem _ ha)]

/-- What is read off the values, one after the other, is the same where it is for each value. -/
theorem flatMap_eq {γ : Type} {f : α → List γ} {g : β → List γ} (h : Agree R es fs)
    (hfg : ∀ key a b, (key, a) ∈ es → R a b → f a = g b) :
    (es.flatMap fun e => f e.2) = fs.flatMap fun e => g e.2 := by
  induction h with
  | nil => rfl
  | @cons e d es fs hed _ ih =>
    rw [List.flatMap_cons, List.flatMap_cons, hfg e.1 e.2 d.2 List.mem_cons_self hed.2,
      ih fun key a b ha => hfg key a b (List.mem_cons_of_mem _ ha)]

theorem insert {w : β} (h : Agree R es fs) (hr : R value w) :
    Agree R (es.insert key value) (fs.insert key w) := by
  induction h with
  | nil => exact .cons ⟨rfl, hr⟩ .nil
  | @cons e f es fs hef hes ih =>
    rw [Entries.insert, Entries.insert, hef.1]
    split
    · exact .cons ⟨rfl, hr⟩ hes
    · exact .cons ⟨rfl, hef.2⟩ ih

theorem insertAll {ps : List (String × α)} {qs : List (String × β)} (h : Agree R es fs)
    (hpq : Agree R ps qs) : Agree R (es.insertAll ps) (fs.insertAll qs) := by
  induction hpq generalizing es fs with
  | nil => exact h
  | @cons p q ps qs hp _ ih =>
    rw [insertAll_cons, insertAll_cons, hp.1]
    exact ih (h.insert hp.2)

/-- Collecting keeps entries in agreement. -/
theorem ofList {ps : List (String × α)} {qs : List (String × β)} (h : Agree R ps qs) :
    Agree R (Entries.ofList ps) (Entries.ofList qs) :=
  insertAll .nil h

end Agree

/-! ## Entries found in others -/

/-- Equally many entries, and each of the first is found, related, in the second. -/
def Found (R : α → β → Prop) (es : Entries α) (fs : Entries β) : Prop :=
  es.length = fs.length ∧ ∀ e ∈ es, ∃ w, find? fs e.1 = some w ∧ R e.2 w

theorem isSome_iff_of_rel {R : α → β → Prop} {a : Option α} {b : Option β}
    (h : Option.Rel R a b) : a.isSome ↔ b.isSome := by
  cases h <;> simp

namespace Found

variable {R : α → β → Prop} {fs : Entries β}

/-- Entries that agree, place for place, are found. -/
theorem of_agree (h : Agree R es fs) (hn : (keys fs).Nodup) : Found R es fs := by
  refine ⟨h.length_eq, fun e he => ?_⟩
  obtain ⟨w, hw, hr⟩ := h.exists_right he
  exact ⟨w, find?_of_mem hn hw, hr⟩

/-- Mapped values are found exactly if the values are, related as their images are. -/
theorem map_iff {γ δ : Type} {S : γ → δ → Prop} (f : α → γ) (g : β → δ) :
    Found S (es.map fun e => (e.1, f e.2)) (fs.map fun e => (e.1, g e.2)) ↔
      Found (fun a b => S (f a) (g b)) es fs := by
  simp only [Found, List.length_map, List.forall_mem_map, find?_map, Option.map_eq_some_iff,
    exists_exists_and_eq_and]

theorem exists_agree_subset (h : ∀ e ∈ es, ∃ w, find? fs e.1 = some w ∧ R e.2 w) :
    ∃ gs, gs ⊆ fs ∧ Agree R es gs := by
  induction es with
  | nil => exact ⟨[], List.nil_subset fs, .nil⟩
  | cons e es ih =>
    obtain ⟨w, hw, hr⟩ := h e List.mem_cons_self
    obtain ⟨gs, hgs, hagree⟩ := ih fun d hd => h d (List.mem_cons_of_mem _ hd)
    exact ⟨(e.1, w) :: gs, List.cons_subset.mpr ⟨mem_of_find? hw, hgs⟩, .cons ⟨rfl, hr⟩ hagree⟩

/-- Where no name is listed twice, the second entries are in another order what agrees with the
first. -/
theorem exists_perm (h : Found R es fs) (hn : (keys es).Nodup) :
    ∃ gs, gs.Perm fs ∧ Agree R es gs := by
  obtain ⟨gs, hgs, hagree⟩ := exists_agree_subset h.2
  have hnodup : gs.Nodup := by
    rw [hagree.keys_eq] at hn
    exact hn.of_map
  have hlength : fs.length ≤ gs.length :=
    Nat.le_of_eq (h.1.symm.trans hagree.length_eq)
  exact ⟨gs, (List.subperm_of_subset hnodup hgs).perm_of_length_le hlength, hagree⟩

/-- What is found under a name on the two sides is related, or nothing is found on either. -/
theorem find?_rel (h : Found R es fs) (hn : (keys es).Nodup) (key : String) :
    Option.Rel R (find? es key) (find? fs key) := by
  cases hv : find? es key with
  | some value =>
    obtain ⟨w, hw, hr⟩ := h.2 _ (mem_of_find? hv)
    rw [hw]
    exact .some hr
  | none =>
    cases hw : find? fs key with
    | none => exact .none
    | some w =>
      obtain ⟨gs, hperm, hagree⟩ := h.exists_perm hn
      obtain ⟨value, hmem, -⟩ := hagree.exists_left (hperm.symm.subset (mem_of_find? hw))
      rw [find?_of_mem hn hmem] at hv
      cases hv

end Found

end Entries

end FieldSchema
