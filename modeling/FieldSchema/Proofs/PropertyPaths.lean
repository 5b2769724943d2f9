import FieldSchema.Proofs.Metadata

/-!
# The description at a path

The description of a tree has, at a path, the description of the node at that path. It ends at a
named node in a pointer, so there is nothing below one, except below the root, whose own name is not
looked at.

* `Property.at?`: the property at a path; no pointer is followed.
* `Mapping.OpenTo`: no node strictly between the root and the end of a path is named.
* `Mapping.child?_rel`: one step down, there is a property exactly if there is a node, and it
  describes the node in its nested place.
* `Mapping.at?_rel`, `Mapping.at?_eq_none`: so there is along an open path, and there is nothing at
  the end of another one.
* `Property.Describes`: what an inline description says of the node itself.
* `Mapping.described_along_paths`: what is found at each path.
-/

namespace FieldSchema

/-- The property at a path. -/
def Property.at? : Property → Path → Option Property
  | p, [] => some p
  | p, step :: path => (p.child? step).bind fun q => q.at? path

/-- What an inline description says of the node itself, whatever stands below. -/
structure Property.Describes (q : Property) (n : Mapping) : Prop where
  typeName : ∃ typeName, n.typeName = .ok typeName ∧ q.typeName? = some typeName
  description : q.description? = n.extras.description
  required : q.isRequired = n.isRequired
  /-- A single value has its format, its example and its keywords. -/
  single : ∀ type t, n = .scalar type t → ∃ s, q = .scalar s ∧ n.format = .ok s.format ∧
    s.sample = n.extras.sample ∧ s.validation = n.validation
  list : ∀ element t, n = .list element t → ∃ items description required,
    q = .array items description required
  object : ∀ fields t, n = .object fields t → ∃ names properties description required,
    q = .object names properties description required

namespace Mapping

variable {m n c : Mapping} {p q : Property} {step next : Step} {path : Path}

/-! ## Open paths -/

/-- No node strictly between the root and the end of a path is named. -/
def OpenTo (m : Mapping) (path : Path) : Prop :=
  ∀ before after n, path = before ++ after → before ≠ [] → after ≠ [] →
    m.at? before = some n → n.refName = none

theorem openTo_nil (m : Mapping) : m.OpenTo [] := by
  intro before after n heq hbefore
  exact absurd (List.append_eq_nil_iff.mp heq.symm).1 hbefore

theorem openTo_singleton (m : Mapping) (step : Step) : m.OpenTo [step] := by
  intro before after n heq hbefore hafter
  rcases List.append_eq_singleton_iff.mp heq.symm with ⟨hnil, -⟩ | ⟨-, hnil⟩
  · exact absurd hnil hbefore
  · exact absurd hnil hafter

/-- The way goes on below the first node if that one is not named. -/
theorem openTo_cons_cons (hc : m.child? step = some c) :
    m.OpenTo (step :: next :: path) ↔ c.refName = none ∧ c.OpenTo (next :: path) := by
  have hat (before : Path) : m.at? (step :: before) = c.at? before := by rw [at?, hc]; rfl
  constructor
  · intro h
    refine ⟨h [step] (next :: path) c rfl (List.cons_ne_nil _ _) (List.cons_ne_nil _ _) ?_, ?_⟩
    · rw [hat]; rfl
    · intro before after n heq hbefore hafter hn
      exact h (step :: before) after n (congrArg (step :: ·) heq) (List.cons_ne_nil _ _) hafter
        (by rw [hat]; exact hn)
  · rintro ⟨hname, hopen⟩ before after n heq hbefore hafter hn
    cases before with
    | nil => exact absurd rfl hbefore
    | cons first before =>
      obtain ⟨rfl, hrest⟩ := List.cons.inj heq
      rw [hat] at hn
      cases before with
      | nil => cases hn; exact hname
      | cons second before =>
        exact hopen _ after n hrest (List.cons_ne_nil _ _) hafter hn

/-! ## Down the description -/

/-- One step down, a description has the description of the node there. -/
theorem child?_rel (h : m.toProperty = .ok p) (step : Step) :
    Option.Rel (fun n q => n.nestedProperty = .ok q) (m.child? step) (p.child? step) := by
  cases m with
  | scalar type t =>
    obtain ⟨_, _, -, -, rfl⟩ := toProperty_scalar_eq_ok.mp h
    cases step <;> exact .none
  | list element t =>
    obtain ⟨items, hitems, rfl⟩ := toProperty_list_eq_ok.mp h
    cases step with
    | element => exact .some hitems
    | field name => exact .none
  | object fields t =>
    obtain ⟨ps, hps, rfl⟩ := toProperty_object_eq_ok.mp h
    cases step with
    | element => exact .none
    | field name =>
      have hfind : (Property.object (requiredNames fields) (Entries.ofList ps)
          t.extras.description t.isRequired).child? (.field name) = Entries.find? ps.reverse name :=
        Entries.find?_ofList ps
      rw [hfind]
      exact hps.reverse.find?_rel name

/-- There is nothing below a pointer. -/
theorem at?_of_named (h : n.nestedProperty = .ok q) (hname : n.refName ≠ none) :
    q.at? (step :: path) = none := by
  obtain ⟨name, hname⟩ := Option.ne_none_iff_exists'.mp hname
  rw [nestedProperty_of_refName hname] at h
  cases h
  cases step <;> rfl

/-- Along an open path, a description has the description of the node there. -/
theorem at?_rel (h : m.toProperty = .ok p) (hopen : m.OpenTo (step :: path)) :
    Option.Rel (fun n q => n.nestedProperty = .ok q) (m.at? (step :: path))
      (p.at? (step :: path)) := by
  have hchild := child?_rel h step
  rw [at?, Property.at?]
  induction path generalizing m p step with
  | nil => simpa only [Property.at?, at?, Option.bind_fun_some] using hchild
  | cons next path ih =>
    generalize hc : m.child? step = mc at hchild
    generalize p.child? step = pc at hchild
    cases hchild with
    | none => exact .none
    | some hcr =>
      obtain ⟨hname, hbelow⟩ := (openTo_cons_cons hc).mp hopen
      rw [nestedProperty_of_unnamed hname] at hcr
      exact ih hcr hbelow (child?_rel hcr next)

/-- A description has nothing at the end of a path that leads past a named node. -/
theorem at?_eq_none (h : m.toProperty = .ok p) (hclosed : ¬ m.OpenTo (step :: path)) :
    p.at? (step :: path) = none := by
  induction path generalizing m p step with
  | nil => exact absurd (openTo_singleton m step) hclosed
  | cons next path ih =>
    have hchild := child?_rel h step
    rw [Property.at?]
    generalize hc : m.child? step = mc at hchild
    generalize p.child? step = pc at hchild
    cases hchild with
    | none => rfl
    | @some c r hcr =>
      rw [openTo_cons_cons hc] at hclosed
      by_cases hname : c.refName = none
      · rw [nestedProperty_of_unnamed hname] at hcr
        exact ih hcr fun hbelow => hclosed ⟨hname, hbelow⟩
      · exact at?_of_named hcr hname

/-! ## What is found -/

theorem describes_of_toProperty (h : n.toProperty = .ok q) : q.Describes n := by
  cases n with
  | scalar type t =>
    obtain ⟨typeName, format, htype, hformat, rfl⟩ := toProperty_scalar_eq_ok.mp h
    exact {
      typeName := ⟨typeName, htype, rfl⟩
      description := rfl
      required := rfl
      single := fun _ _ _ => ⟨_, rfl, hformat, rfl, rfl⟩
      list := fun _ _ hkind => by cases hkind
      object := fun _ _ hkind => by cases hkind }
  | list element t =>
    obtain ⟨items, -, rfl⟩ := toProperty_list_eq_ok.mp h
    exact {
      typeName := ⟨.array, rfl, rfl⟩
      description := rfl
      required := rfl
      single := fun _ _ hkind => by cases hkind
      list := fun _ _ _ => ⟨_, _, _, rfl⟩
      object := fun _ _ hkind => by cases hkind }
  | object fields t =>
    obtain ⟨ps, -, rfl⟩ := toProperty_object_eq_ok.mp h
    exact {
      typeName := ⟨.object, rfl, rfl⟩
      description := rfl
      required := rfl
      single := fun _ _ hkind => by cases hkind
      list := fun _ _ hkind => by cases hkind
      object := fun _ _ _ => ⟨_, _, _, _, rfl⟩ }

/-- **A description follows its tree, path by path.** There is a property at a path exactly if there
is a node and no node strictly between the root and that one is named; of several fields of one name
the last one counts. Below the root, a named node is found as the pointer to its definition. Every
other node is found as a property of its kind with its type, its description and whether it must be
present, and a single value also with its format, its example and its keywords. -/
theorem described_along_paths (h : m.toProperty = .ok p) (path : Path) :
    ((p.at? path).isSome ↔ (m.at? path).isSome ∧ m.OpenTo path) ∧
    ∀ q n, p.at? path = some q → m.at? path = some n →
      (∀ name, path ≠ [] → n.refName = some name →
        q = .ref (definitionRef name) n.isRequired) ∧
      (path = [] ∨ n.refName = none → q.Describes n) := by
  cases path with
  | nil =>
    refine ⟨by simp [Property.at?, at?, openTo_nil], ?_⟩
    rintro q n ⟨⟩ ⟨⟩
    exact ⟨fun _ hne => absurd rfl hne, fun _ => describes_of_toProperty h⟩
  | cons step path =>
    by_cases hopen : m.OpenTo (step :: path)
    · have hrel := at?_rel h hopen
      refine ⟨by rw [Entries.isSome_iff_of_rel hrel, and_iff_left hopen], fun q n hq hn => ?_⟩
      rw [hq, hn] at hrel
      cases hrel with
      | some hnq =>
        refine ⟨fun name _ hname => ?_, fun hinline => ?_⟩
        · rw [nestedProperty_of_refName hname] at hnq
          exact (Except.ok.inj hnq).symm
        · rw [nestedProperty_of_unnamed (hinline.resolve_left (List.cons_ne_nil _ _))] at hnq
          exact describes_of_toProperty hnq
    · have hnone := at?_eq_none h hopen
      rw [hnone]
      exact ⟨by simp [hopen], fun q n hq => by cases hq⟩

/-- A named object with two fields of one name and rows of named values. -/
def catalogue : Mapping :=
  let maker := (objectOf [("name", text.required)]).withName "Maker"
  let code := (text.constrained (.pattern "[A-Z]+")).withExtras
    { description := some "the code", format := some "code", sample := some "AB" }
  (objectOf [("code", int.required), ("rows", listOf (listOf maker.required)),
    ("code", code)]).withName "Catalogue"

/-- The second code is described, the makers are pointed to, and their names are not reached. -/
theorem described_along_paths_catalogue :
    ∃ p q s, catalogue.toProperty = .ok p ∧
      p.at? [.field "rows", .element] = some q ∧ q.typeName? = some .array ∧
      p.at? [.field "code"] = some (.scalar s) ∧ s.type = .string ∧ s.format = some "code" ∧
      s.description = some "the code" ∧ s.sample = some "AB" ∧ s.required = false ∧
      s.validation = { pattern := some "[A-Z]+" } ∧
      p.at? [.field "rows", .element, .element] = some (.ref (definitionRef "Maker") true) ∧
      p.at? [.field "rows", .element, .element, .field "name"] = none := by
  obtain ⟨p, hp⟩ : ∃ p, catalogue.toProperty = .ok p := ⟨_, rfl⟩
  have hpaths := described_along_paths hp
  have hfound {path : Path} (hat : (catalogue.at? path).isSome) (hopen : catalogue.OpenTo path) :
      ∃ q, p.at? path = some q :=
    Option.isSome_iff_exists.mp ((hpaths path).1.mpr ⟨hat, hopen⟩)
  have hrows : catalogue.OpenTo [.field "rows", .element] :=
    (openTo_cons_cons rfl).mpr ⟨rfl, openTo_singleton _ _⟩
  have hmakers : catalogue.OpenTo [.field "rows", .element, .element] :=
    (openTo_cons_cons rfl).mpr ⟨rfl, (openTo_cons_cons rfl).mpr ⟨rfl, openTo_singleton _ _⟩⟩
  have hnames : ¬ catalogue.OpenTo [.field "rows", .element, .element, .field "name"] := by
    intro hopen
    obtain ⟨-, hbelow⟩ := (openTo_cons_cons rfl).mp hopen
    obtain ⟨-, hbelow⟩ := (openTo_cons_cons rfl).mp hbelow
    obtain ⟨hname, -⟩ := (openTo_cons_cons rfl).mp hbelow
    cases hname
  obtain ⟨q, hq⟩ := hfound rfl hrows
  obtain ⟨r, hr⟩ := @hfound [.field "code"] rfl (openTo_singleton _ _)
  obtain ⟨maker, hmaker⟩ := hfound rfl hmakers
  -- the row, the second code and the maker, as the theorem describes them
  obtain ⟨_, ⟨⟩, htype⟩ := (((hpaths _).2 q _ hq rfl).2 (.inr rfl)).typeName
  have hcode := ((hpaths _).2 r _ hr rfl).2 (.inr rfl)
  obtain ⟨s, rfl, hformat, hsample, hvalidation⟩ := hcode.single _ _ rfl
  obtain ⟨_, ⟨⟩, hstring⟩ := hcode.typeName
  obtain rfl := ((hpaths _).2 maker _ hmaker rfl).1 "Maker" (List.cons_ne_nil _ _) rfl
  refine ⟨p, q, s, hp, hq, htype, hr, Option.some.inj hstring, (Except.ok.inj hformat).symm,
    hcode.description, hsample, hcode.required, hvalidation, hmaker, ?_⟩
  rw [← Option.not_isSome_iff_eq_none, (hpaths _).1]
  exact fun h => hnames h.2

end Mapping

end FieldSchema
