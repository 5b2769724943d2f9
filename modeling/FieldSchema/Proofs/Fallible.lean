import Mathlib.Data.List.Forall2

/-!
# Computations that may fail

What a computation in `Except` did, read off its result.

* `bind_eq_ok`: a sequence returns when its first part does and the rest does with that result.
* `mapM_eq_ok`: a run over a list returns the results of its members, one for each, in order.
  `mapM_eq_of_forall₂` and `mapM_map` compare two runs, errors included.
* `failure?`: the error of a computation, if it has one. `failure?_mapM` says that a run over a list
  has the error of the first member that has one.
-/

namespace FieldSchema

variable {ε α β γ : Type}

theorem bind_eq_ok {x : Except ε α} {f : α → Except ε β} {b : β} :
    x >>= f = .ok b ↔ ∃ a, x = .ok a ∧ f a = .ok b := by
  cases x <;> simp [bind, Except.bind]

theorem pure_eq_ok {a b : α} : (pure a : Except ε α) = .ok b ↔ a = b := by
  simp [pure, Except.pure]

theorem map_eq_ok {x : Except ε α} {f : α → β} {b : β} :
    x.map f = .ok b ↔ ∃ a, x = .ok a ∧ f a = b := by
  cases x <;> simp [Except.map]

/-- A run over a list returns exactly the results of its members. -/
theorem mapM_eq_ok {f : α → Except ε β} {xs : List α} {ys : List β} :
    xs.mapM f = .ok ys ↔ List.Forall₂ (fun x y => f x = .ok y) xs ys := by
  induction xs generalizing ys with
  | nil => rw [List.mapM_nil, pure_eq_ok, List.forall₂_nil_left_iff, eq_comm]
  | cons x xs ih =>
    rw [List.mapM_cons, List.forall₂_cons_left_iff]
    simp only [bind_eq_ok, pure_eq_ok, ih]
    constructor
    · rintro ⟨y, hy, rest, hrest, rfl⟩
      exact ⟨y, rest, hy, hrest, rfl⟩
    · rintro ⟨y, rest, hy, hrest, rfl⟩
      exact ⟨y, hy, rest, hrest, rfl⟩

/-- Each member of the first of two related lists has a partner in the second. -/
theorem exists_partner {R : α → β → Prop} {xs : List α} {ys : List β} {x : α}
    (h : List.Forall₂ R xs ys) (hx : x ∈ xs) : ∃ y ∈ ys, R x y := by
  induction h with
  | nil => cases hx
  | cons hxy _ ih =>
    rcases List.mem_cons.mp hx with rfl | hx
    · exact ⟨_, List.mem_cons_self, hxy⟩
    · obtain ⟨y, hy, hr⟩ := ih hx
      exact ⟨y, List.mem_cons_of_mem _ hy, hr⟩

/-- A member that goes with all that another goes with can take its place. -/
theorem forall₂_replace {R : α → β → Prop} {x z : α} {before after : List α} {ys : List β}
    (h : List.Forall₂ R (before ++ x :: after) ys) (hx : ∀ y, R x y → R z y) :
    List.Forall₂ R (before ++ z :: after) ys := by
  induction before generalizing ys with
  | nil =>
    obtain ⟨y, rest, hy, hrest, rfl⟩ := List.forall₂_cons_left_iff.mp h
    exact .cons (hx y hy) hrest
  | cons b before ih =>
    obtain ⟨y, rest, hy, hrest, rfl⟩ := List.forall₂_cons_left_iff.mp h
    exact .cons hy (ih hrest)

/-- Each result of a run is that of a member. -/
theorem exists_of_mem_mapM {f : α → Except ε β} {xs : List α} {ys : List β} {y : β}
    (h : xs.mapM f = .ok ys) (hy : y ∈ ys) : ∃ x ∈ xs, f x = .ok y := by
  rw [mapM_eq_ok] at h
  induction h with
  | nil => cases hy
  | @cons a b xs ys hab _ ih =>
    rcases List.mem_cons.mp hy with rfl | hy
    · exact ⟨a, List.mem_cons_self, hab⟩
    · obtain ⟨x, hx, hxy⟩ := ih hy
      exact ⟨x, List.mem_cons_of_mem _ hx, hxy⟩

/-- Where a result is there exactly if its argument is, it is the one that the argument gives. -/
theorem eq_some_iff_of_rel {f : α → Except ε β} {a : Option α} {b : Option β}
    (h : Option.Rel (fun x y => f x = .ok y) a b) {y : β} :
    b = some y ↔ ∃ x, a = some x ∧ f x = .ok y := by
  cases h with
  | none => simp
  | @some x z hxz => simp [hxz]

/-- Runs over two lists are equal if they are so member by member. -/
theorem mapM_eq_of_forall₂ {f : α → Except ε γ} {g : β → Except ε γ} {xs : List α} {ys : List β}
    (h : List.Forall₂ (fun x y => f x = g y) xs ys) : xs.mapM f = ys.mapM g := by
  induction h with
  | nil => rfl
  | cons hxy _ ih => rw [List.mapM_cons, List.mapM_cons, hxy, ih]

/-- A run whose results are changed one by one is a run with its list of results changed. -/
theorem mapM_map (f : α → Except ε β) (k : β → γ) (xs : List α) :
    (xs.mapM fun x => (f x).map k) = (xs.mapM f).map (List.map k) := by
  induction xs with
  | nil => rfl
  | cons x xs ih =>
    rw [List.mapM_cons, List.mapM_cons, ih]
    cases f x with
    | error e => rfl
    | ok y => cases xs.mapM f <;> rfl

theorem map_injective {f : α → β} (hf : f.Injective) :
    Function.Injective (Except.map f : Except ε α → Except ε β) := by
  intro x y h
  cases x with
  | error e =>
    cases y with
    | error e' => exact congrArg Except.error (Except.error.inj h)
    | ok b => cases h
  | ok a =>
    cases y with
    | error e' => cases h
    | ok b => exact congrArg Except.ok (hf (Except.ok.inj h))

/-! ## Errors -/

/-- The error of a computation that did not return. -/
def failure? : Except ε α → Option ε
  | .error e => some e
  | .ok _ => none

theorem failure?_eq_some {x : Except ε α} {e : ε} : failure? x = some e ↔ x = .error e := by
  cases x <;> simp [failure?]

theorem failure?_eq_none {x : Except ε α} : failure? x = none ↔ ∃ a, x = .ok a := by
  cases x <;> simp [failure?]

theorem failure?_ne_none {x : Except ε α} : failure? x ≠ none ↔ ∃ e, x = .error e := by
  cases x <;> simp [failure?]

@[simp] theorem failure?_map (x : Except ε α) (f : α → β) : failure? (x.map f) = failure? x := by
  cases x <;> rfl

/-- A result that is only wrapped up brings no error of its own. -/
@[simp] theorem failure?_bind_pure (x : Except ε α) (f : α → β) :
    failure? (do let a ← x; return f a) = failure? x := by
  cases x <;> rfl

/-- Of two computations, the second one's error counts if the first one has none. -/
@[simp] theorem failure?_bind_bind_pure (x : Except ε α) (y : Except ε β) (f : α → β → γ) :
    failure? (do let a ← x; let b ← y; return f a b) = (failure? x).or (failure? y) := by
  cases x <;> cases y <;> rfl

/-- A run over a list has the error of the first member that has one. -/
theorem failure?_mapM (f : α → Except ε β) (xs : List α) :
    failure? (xs.mapM f) = xs.findSome? fun x => failure? (f x) := by
  induction xs with
  | nil => rfl
  | cons x xs ih =>
    rw [List.mapM_cons, failure?_bind_bind_pure, ih, List.findSome?_cons]
    cases failure? (f x) <;> rfl

end FieldSchema
