import FieldSchema.Proofs.RecordTrees

/-!
# Declared keywords

The keywords of a record become a list of constraints, which is read off again wherever the node is
described. What is read is what was declared.

* `Document.Keywords.ofConstraints_constraints`: the validation keywords of the constraints are the
  declared ones. `Document.Keywords.isRequired_traits` and `Document.Keywords.isEmail_traits` say
  so for presence and for being an email address.
* `Document.Definition.Keeps`: a node says what its record declares.
* `Document.Definition.declared_keywords_kept`: every node of the mapping of a document does.
-/

namespace FieldSchema

/-! ## Constraints -/

namespace Document

namespace Keywords

/-- The validation keywords that are declared. No choice is a choice from no values. -/
def validation (w : Keywords) : Validation where
  pattern := w.pattern
  minLength := w.minLength
  maxLength := w.maxLength
  minimum := w.minimum
  maximum := w.maximum
  oneOf := w.oneOf.getD []

theorem foldl_declare_declared {c : Constraint} (h : ∀ v : Validation, v.declare c = v) (b : Bool)
    (v : Validation) : (declared b c).foldl Validation.declare v = v := by
  cases b with
  | false => rfl
  | true => exact h v

/-- A keyword that is given or not is put in its place. -/
theorem foldl_declare_given {α : Type} (c : α → Constraint)
    (put : Validation → Option α → Validation) (a : Option α) {v : Validation}
    (hnone : put v none = v) (hsome : ∀ x, v.declare (c x) = put v (some x)) :
    (a.map c).toList.foldl Validation.declare v = put v a := by
  cases a with
  | none => exact hnone.symm
  | some x => exact hsome x

/-- The validation keywords of declared constraints are those that were declared. -/
theorem ofConstraints_constraints (w : Keywords) :
    Validation.ofConstraints w.constraints = w.validation := by
  rw [Validation.ofConstraints, constraints]
  simp only [List.foldl_append]
  rw [foldl_declare_declared fun _ => rfl, foldl_declare_declared fun _ => rfl,
    foldl_declare_given .pattern fun v p => { v with pattern := p },
    foldl_declare_given .minLength fun v n => { v with minLength := n },
    foldl_declare_given .maxLength fun v n => { v with maxLength := n },
    foldl_declare_given .minimum fun v x => { v with minimum := x },
    foldl_declare_given .maximum fun v x => { v with maximum := x },
    foldl_declare_given .oneOf fun v values => { v with oneOf := values.getD [] }]
  · rfl
  -- a place in which nothing was put is left alone by what is not given
  all_goals intros; rfl

theorem isRequired_traits (w : Keywords) : w.traits.isRequired = w.required := by
  rw [Traits.isRequired, traits, constraints]
  cases w.required <;> simp [declared]

theorem isEmail_traits (w : Keywords) : w.traits.isEmail = w.email := by
  rw [Traits.isEmail, traits, constraints]
  cases w.email <;> simp [declared]

end Keywords

end Document

/-! ## Formats -/

theorem ScalarType.ofTag_eq_text {tag : String} :
    ofTag tag = .text ↔ tag = "text" ∨ tag = "string" := by
  constructor
  · intro h
    unfold ofTag at h
    split at h <;> simp_all
  · rintro (rfl | rfl) <;> rfl

/-- The type of a known tag implies a format, or none, but it does not imply that of an email
address. -/
theorem ScalarType.exists_impliedFormat {type : ScalarType} (h : type.isCustom = false) :
    ∃ f, type.impliedFormat = .ok f ∧ f ≠ some "email" := by
  cases type with
  | custom tag => cases h
  | _ => exact ⟨_, rfl, by decide⟩

namespace Mapping

variable {m : Mapping} {type : ScalarType} {t : Traits} {f : String}

theorem format_of_declared (h : m.extras.format = some f) (hf : f ≠ "") :
    m.format = .ok (some f) := by
  have hsome : m.extras.format.filter (· ≠ "") = some f := by
    rw [h, Option.filter_some, if_pos (decide_eq_true hf)]
  rw [format.eq_def, hsome]

theorem format_scalar (h : ∀ f, t.extras.format = some f → f = "") :
    (scalar type t).format =
      if type = .text ∧ t.isEmail then .ok (some "email") else type.impliedFormat := by
  have hnone : (scalar type t).extras.format.filter (· ≠ "") = none :=
    Option.filter_eq_none_iff.mpr fun f hf => by simp [h f hf]
  rw [format.eq_def, hnone]
  cases type with
  | text =>
    show Except.ok (if t.isEmail then some "email" else none) = _
    by_cases hemail : t.isEmail <;> simp [hemail, ScalarType.impliedFormat]
  | _ => rfl

end Mapping

/-! ## Records and nodes -/

namespace Document.Definition

/-- No format is declared, or an empty one. -/
def LacksFormat (d : Definition) : Prop := ∀ f, d.keywords.extras.format = some f → f = ""

/-- An email address is asked for: a text with that keyword. -/
def AsksForEmail (d : Definition) : Prop :=
  (d.type = "text" ∨ d.type = "string") ∧ d.keywords.email

/-- A node has the format that its record declares, then that of an email address if the record asks
for one, then the one that the tag implies. -/
structure KeepsFormat (d : Definition) (n : Mapping) : Prop where
  declared : ∀ f, d.keywords.extras.format = some f → f ≠ "" → n.format = .ok (some f)
  email : d.LacksFormat → (n.format = .ok (some "email") ↔ d.AsksForEmail)
  implied : d.LacksFormat → ¬ d.AsksForEmail →
    ∃ f, (ScalarType.ofTag d.type).impliedFormat = .ok f ∧ n.format = .ok f

/-- A node says what its record declares. -/
structure Keeps (d : Definition) (n : Mapping) : Prop where
  validation : n.validation = d.keywords.validation
  isRequired : n.isRequired = d.keywords.required
  isEmail : n.isEmail = d.keywords.email
  format : ∀ type t, n = .scalar type t → type.isCustom = false → d.KeepsFormat n

variable {d : Definition} {n : Mapping} {path : Path} {type : ScalarType} {t : Traits}

theorem keepsFormat_of_toMapping (h : d.toMapping path = .ok (.scalar type t))
    (htype : type.isCustom = false) : d.KeepsFormat (.scalar type t) := by
  obtain ⟨tag, w, rfl, -, -, rfl, rfl⟩ := toMapping_eq_scalar.mp h
  obtain ⟨f, hf, hne⟩ := ScalarType.exists_impliedFormat htype
  have hasks : (mk tag none none w).AsksForEmail ↔
      ScalarType.ofTag tag = .text ∧ w.traits.isEmail := by
    rw [ScalarType.ofTag_eq_text, w.isEmail_traits]
    rfl
  have hformat (hlacks : (mk tag none none w).LacksFormat) :
      (Mapping.scalar (.ofTag tag) w.traits).format =
        if ScalarType.ofTag tag = .text ∧ w.traits.isEmail then .ok (some "email")
        else (ScalarType.ofTag tag).impliedFormat :=
    Mapping.format_scalar (t := w.traits) hlacks
  refine ⟨fun f hf hne => ?_, fun hlacks => ?_, fun hlacks hno => ?_⟩
  · exact Mapping.format_of_declared (m := .scalar _ w.traits) hf hne
  · rw [hformat hlacks, hasks, hf]
    split
    · rename_i hyes
      exact iff_of_true rfl hyes
    · rename_i hno
      exact iff_of_false (fun heq => hne (Except.ok.inj heq)) hno
  · rw [hasks] at hno
    rw [hformat hlacks, if_neg hno]
    exact ⟨f, hf, hf⟩

/-- The mapping of a record says what the record declares. -/
theorem keeps_of_toMapping (h : d.toMapping path = .ok n) : d.Keeps n := by
  have htraits := traits_of_toMapping h
  refine ⟨?_, ?_, ?_, ?_⟩
  · rw [Mapping.validation, Mapping.constraints, htraits]
    exact d.keywords.ofConstraints_constraints
  · rw [Mapping.isRequired, htraits, Keywords.isRequired_traits]
  · rw [Mapping.isEmail, htraits, Keywords.isEmail_traits]
  · rintro type t rfl htype
    exact keepsFormat_of_toMapping h htype

/-- **Declared keywords are kept.** The nodes of the mapping of a document are the mappings of its
records, one for each, in order. Each has exactly the validation keywords that its record declares,
with the same values, is required or an email address exactly if the record says so, and, if it is a
single value of a known type, has the format of the record. -/
theorem declared_keywords_kept {m : Mapping} (h : d.toMapping [] = .ok m) :
    List.Forall₂ (fun e n => e.2.toMapping e.1 = .ok n ∧ e.2.Keeps n) d.located m.nodes :=
  (forall₂_located h).imp fun _ _ hn => ⟨hn, keeps_of_toMapping hn⟩

/-- Somebody's mail address, and a code with a format of its own. -/
def contact : Definition :=
  .mk "object" none (some
    [("mail", .mk "string" none none
        { required := true, email := true, pattern := some ".+@.+", maxLength := some 80 }),
      ("code", .mk "long" none none
        { minimum := some (.zero true), extras := { format := some "code" } }),
      ("size", .mk "int" none none { email := true, oneOf := some ["1", "2"] })]) {}

theorem declared_keywords_kept_contact :
    ∃ mail code size, contact.toMapping [] =
        .ok (.object [("mail", mail), ("code", code), ("size", size)] {}) ∧
      mail.validation = { pattern := some ".+@.+", maxLength := some 80 } ∧
      mail.isRequired ∧ mail.format = .ok (some "email") ∧
      code.validation = { minimum := some (.zero true) } ∧ code.format = .ok (some "code") ∧
      size.validation = { oneOf := ["1", "2"] } ∧ size.isEmail ∧
      size.format = .ok (some "int32") := by
  have hkept := declared_keywords_kept (rfl : contact.toMapping [] = .ok _)
  obtain ⟨-, hkept⟩ := List.forall₂_cons.mp hkept
  obtain ⟨⟨-, hmail⟩, hkept⟩ := List.forall₂_cons.mp hkept
  obtain ⟨⟨-, hcode⟩, hkept⟩ := List.forall₂_cons.mp hkept
  obtain ⟨⟨-, hsize⟩, -⟩ := List.forall₂_cons.mp hkept
  have hnone {w : Keywords} (h : w.extras.format = none) (tag : String) :
      (mk tag none none w).LacksFormat := by
    intro f hf
    rw [show (mk tag none none w).keywords.extras.format = none from h] at hf
    cases hf
  refine ⟨_, _, _, rfl, hmail.validation, hmail.isRequired, ?_, hcode.validation, ?_,
    hsize.validation, hsize.isEmail, ?_⟩
  · exact ((hmail.format _ _ rfl rfl).email (hnone rfl _)).mpr ⟨.inr rfl, rfl⟩
  · exact (hcode.format _ _ rfl rfl).declared "code" rfl (by decide)
  · obtain ⟨f, himplied, hf⟩ := (hsize.format _ _ rfl rfl).implied (hnone rfl _) (by
      rintro ⟨htext | htext, -⟩ <;> exact absurd htext (by decide))
    cases himplied
    exact hf

end Document.Definition

end FieldSchema
