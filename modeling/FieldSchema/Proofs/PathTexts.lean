import FieldSchema.Proofs.Misfits

/-!
# Paths from messages

Which record a message complains about. The text of a path is plain concatenation, so a field may
have a name that reads like several steps. Where no field has such a name, a path is known from its
text and an error from its message.

* `Document.PlainName`: a name that cannot be taken for anything else in a path.
* `Document.Path.text_injective`: a path of plain names is known from its text, read from the end:
  the last step is an element or the name after the last dot.
* `Document.message?_eq_iff`: so are path and reason from the message, of which the reason is
  what follows the last colon.
* `Document.Definition.messages_identify_records`: errors of documents of plain names are told apart
  by their messages.
-/

namespace FieldSchema.Document

/-- What follows the last occurrence of a mark, and what stands before it. -/
theorem append_cons_inj_of_last {α : Type} {x : α} {a b c d : List α} (hb : x ∉ b) (hd : x ∉ d)
    (h : a ++ x :: b = c ++ x :: d) : a = c ∧ b = d := by
  rcases List.append_eq_append_iff.mp h with ⟨middle, rfl, htail⟩ | ⟨middle, rfl, htail⟩
  · cases middle with
    | nil => exact ⟨(List.append_nil a).symm, (List.cons.inj htail).2⟩
    | cons y middle =>
      obtain ⟨-, rfl⟩ := List.cons.inj htail
      exact absurd (List.mem_append_right _ List.mem_cons_self) hb
  · cases middle with
    | nil => exact ⟨List.append_nil c, (List.cons.inj htail).2.symm⟩
    | cons y middle =>
      obtain ⟨-, rfl⟩ := List.cons.inj htail
      exact absurd (List.mem_append_right _ List.mem_cons_self) hd

/-! ## Plain names -/

/-- A name that is none of the texts with a meaning in paths, and has none in it. -/
structure PlainName (name : String) : Prop where
  ne_empty : name ≠ ""
  ne_root : name ≠ "<root>"
  no_dot : '.' ∉ name.toList
  no_brackets : ¬ "[]".toList <:+ name.toList

namespace Path

/-- All names on a path are plain. -/
def IsPlain (p : Path) : Prop := ∀ name, .field name ∈ p → PlainName name

variable {p q : Path} {name other : String} {step : Step}

theorem text_append_element (p : Path) : text (p ++ [Step.element]) = text p ++ "[]" := by
  rw [text, List.foldl_append]
  rfl

theorem text_append_field (p : Path) (name : String) :
    text (p ++ [Step.field name]) = if text p = "" then name else text p ++ "." ++ name := by
  rw [text, List.foldl_append]
  rfl

namespace IsPlain

theorem init (h : IsPlain (p ++ [step])) : IsPlain p :=
  fun name hname => h name (List.mem_append_left _ hname)

theorem last (h : IsPlain (p ++ [Step.field name])) : PlainName name :=
  h name (List.mem_append_right _ List.mem_cons_self)

end IsPlain

/-- Only the root has no text. -/
theorem text_eq_empty_iff (h : p.IsPlain) : text p = "" ↔ p = [] := by
  refine ⟨fun htext => ?_, by rintro rfl; rfl⟩
  rcases List.eq_nil_or_concat' p with rfl | ⟨p, step, rfl⟩
  · rfl
  · cases step with
    | element => simp [text_append_element] at htext
    | field name =>
      rw [text_append_field] at htext
      split at htext
      · exact absurd htext h.last.ne_empty
      · simp at htext

/-- The text of a field is its name, alone below the root and after a dot elsewhere. -/
theorem toList_text_append_field (h : IsPlain (p ++ [Step.field name])) :
    p = [] ∧ (text (p ++ [Step.field name])).toList = name.toList ∨
      p ≠ [] ∧ (text (p ++ [Step.field name])).toList = (text p).toList ++ '.' :: name.toList := by
  rw [text_append_field]
  by_cases hp : p = []
  · subst hp
    exact .inl ⟨rfl, rfl⟩
  · rw [if_neg (by rwa [text_eq_empty_iff h.init])]
    exact .inr ⟨hp, by simp⟩

/-- A path that ends in a field does not read as one that ends in an element. -/
theorem not_brackets_suffix (h : IsPlain (p ++ [Step.field name])) :
    ¬ "[]".toList <:+ (text (p ++ [Step.field name])).toList := by
  intro hbrackets
  rcases toList_text_append_field h with ⟨-, htext⟩ | ⟨-, htext⟩
  · rw [htext] at hbrackets
    exact h.last.no_brackets hbrackets
  · have hname : '.' :: name.toList <:+ (text (p ++ [Step.field name])).toList := by
      rw [htext]
      exact List.suffix_append _ _
    rcases List.suffix_or_suffix_of_suffix hbrackets hname with hlong | hshort
    · rcases List.suffix_cons_iff.mp hlong with heq | hlong
      · exact absurd (List.cons.inj heq).1 (by decide)
      · exact h.last.no_brackets hlong
    · exact absurd (hshort.subset List.mem_cons_self) (by decide)

theorem text_element_ne_field (hq : IsPlain (q ++ [Step.field other])) :
    text (p ++ [Step.element]) ≠ text (q ++ [Step.field other]) := by
  intro h
  refine not_brackets_suffix hq ?_
  rw [← h, text_append_element, String.toList_append]
  exact List.suffix_append _ _

/-- Paths that end in fields and read alike do so step by step. -/
theorem text_append_field_inj (hp : IsPlain (p ++ [Step.field name]))
    (hq : IsPlain (q ++ [Step.field other]))
    (h : text (p ++ [Step.field name]) = text (q ++ [Step.field other])) :
    text p = text q ∧ name = other := by
  have hlist := congrArg String.toList h
  have hname := hp.last.no_dot
  have hother := hq.last.no_dot
  rcases toList_text_append_field hp with ⟨rfl, hl⟩ | ⟨-, hl⟩ <;>
    rcases toList_text_append_field hq with ⟨rfl, hr⟩ | ⟨-, hr⟩ <;> rw [hl, hr] at hlist
  · exact ⟨rfl, String.toList_inj.mp hlist⟩
  · rw [hlist] at hname
    exact absurd (List.mem_append_right _ List.mem_cons_self) hname
  · rw [← hlist] at hother
    exact absurd (List.mem_append_right _ List.mem_cons_self) hother
  · obtain ⟨htext, heq⟩ := append_cons_inj_of_last hname hother hlist
    exact ⟨String.toList_inj.mp htext, String.toList_inj.mp heq⟩

/-- A path is known from its text. -/
theorem text_injective (hp : p.IsPlain) (hq : q.IsPlain) (h : text p = text q) : p = q := by
  -- the last steps of both paths are the ends of the texts
  induction p using List.reverseRecOn generalizing q with
  | nil => exact ((text_eq_empty_iff hq).mp h.symm).symm
  | append_singleton p step ih =>
    rcases List.eq_nil_or_concat' q with rfl | ⟨q, last, rfl⟩
    · exact (text_eq_empty_iff hp).mp h
    · cases step with
      | element =>
        cases last with
        | element =>
          rw [text_append_element, text_append_element] at h
          rw [ih hp.init hq.init (by simpa using h)]
        | field other => exact absurd h (text_element_ne_field hq)
      | field name =>
        cases last with
        | element => exact absurd h.symm (text_element_ne_field hp)
        | field other =>
          obtain ⟨htext, rfl⟩ := text_append_field_inj hp hq h
          rw [ih hp.init hq.init htext]

/-- The name of the root in messages is the text of no path. -/
theorem text_ne_root (h : p.IsPlain) : text p ≠ "<root>" := by
  intro htext
  have hroot : (text p).toList = "<root>".toList := congrArg String.toList htext
  rcases List.eq_nil_or_concat' p with rfl | ⟨p, step, rfl⟩
  · exact absurd hroot (by decide)
  · cases step with
    | element =>
      rw [text_append_element, String.toList_append] at hroot
      have hbrackets : "[]".toList <:+ "<root>".toList := by
        rw [← hroot]
        exact List.suffix_append _ _
      exact absurd hbrackets (by decide)
    | field name =>
      rcases toList_text_append_field h with ⟨rfl, hl⟩ | ⟨-, hl⟩
      · exact h.last.ne_root htext
      · rw [hl] at hroot
        have hdot : '.' ∈ "<root>".toList := by
          rw [← hroot]
          exact List.mem_append_right _ List.mem_cons_self
        exact absurd hdot (by decide)

theorem shown_injective (hp : p.IsPlain) (hq : q.IsPlain) (h : shown p = shown q) : p = q := by
  rw [shown, shown] at h
  split at h <;> split at h
  · exact text_injective hp hq (by simp [*])
  · exact absurd h.symm (text_ne_root hq)
  · exact absurd h (text_ne_root hp)
  · exact text_injective hp hq h

end Path

/-! ## Messages -/

theorem Misfit.reason_injective : Function.Injective Misfit.reason := by
  intro r s h
  cases r <;> cases s <;> first | rfl | exact absurd h (by decide)

theorem Misfit.no_colon (r : Misfit) : ':' ∉ (" " ++ r.reason).toList := by
  cases r <;> decide

/-- A misfit and its path are known from the message. -/
theorem message?_eq_iff {p q : Path} {r s : Misfit} (hp : p.IsPlain) (hq : q.IsPlain) :
    (Error.misfit p r).message? = (Error.misfit q s).message? ↔ p = q ∧ r = s := by
  have htail (p : Path) (r : Misfit) :
      ("Invalid mapping: " ++ p.shown ++ ": " ++ r.reason).toList =
        ("Invalid mapping: " ++ p.shown).toList ++ ':' :: (" " ++ r.reason).toList := by
    simp
  constructor
  · intro h
    have hlist := congrArg String.toList (Option.some.inj h)
    rw [htail, htail] at hlist
    obtain ⟨hpath, hreason⟩ := append_cons_inj_of_last r.no_colon s.no_colon hlist
    have hshown : p.shown = q.shown := String.toList_inj.mp (by simpa using hpath)
    have heq : r.reason = s.reason := String.toList_inj.mp (by simpa using hreason)
    exact ⟨Path.shown_injective hp hq hshown, Misfit.reason_injective heq⟩
  · rintro ⟨rfl, rfl⟩
    rfl

/-! ## Documents of plain names -/

namespace Definition

/-- All field names of a document are plain. -/
def HasPlainNames (d : Definition) : Prop :=
  ∀ n ∈ d.located, ∀ ds, n.2.fields = some ds → ∀ name ∈ Entries.keys ds, PlainName name

theorem HasPlainNames.isPlain {d : Definition} (h : d.HasPlainNames) {n : Path × Definition}
    (hn : n ∈ d.located) : n.1.IsPlain := by
  intro name hname
  rcases exists_field_of_mem hn hname with hroot | ⟨k, hk, ds, hds, hkey⟩
  · cases hroot
  · exact h k hk ds hds name hkey

/-- **Messages identify records.** Where all field names are plain, the message of a misfit tells
the path of the record that has it and which misfit it is: records at different paths, in one
document or in two, have different messages. So two documents that are refused have the same message
exactly if they have the same error. -/
theorem messages_identify_records {d e : Definition} (hd : d.HasPlainNames) (he : e.HasPlainNames) :
    (∀ n ∈ d.located, ∀ k ∈ e.located, ∀ r s,
      (Error.misfit n.1 r).message? = (Error.misfit k.1 s).message? ↔ n.1 = k.1 ∧ r = s) ∧
    ∀ x y, d.toMapping [] = .error x → e.toMapping [] = .error y →
      (x.message? = y.message? ↔ x = y) := by
  refine ⟨fun n hn k hk r s => message?_eq_iff (hd.isPlain hn) (he.isPlain hk), ?_⟩
  intro x y hx hy
  obtain ⟨p, r, hfirst, rfl⟩ := toMapping_eq_error.mp hx
  obtain ⟨q, s, hother, rfl⟩ := toMapping_eq_error.mp hy
  obtain ⟨n, hn, -⟩ := hfirst.exists_record
  obtain ⟨k, hk, -⟩ := hother.exists_record
  rw [message?_eq_iff (hd.isPlain hn) (he.isPlain hk), Error.misfit.injEq]

/-- Rows without an item. -/
def rows : Definition := .mk "list" (some (.mk "list" none none {})) none {}

/-- Bins under a name that has brackets and a colon in it. -/
def bins : Definition := .mk "object" none (some [("[]: left", .mk "list" none none {})]) {}

theorem messages_identify_records_rows :
    rows.HasPlainNames ∧ bins.HasPlainNames ∧
    rows.toMapping [] = .error (.misfit [.element] .listWithoutItems) ∧
    bins.toMapping [] = .error (.misfit [.field "[]: left"] .listWithoutItems) ∧
    (Error.misfit [.element] .listWithoutItems).message? ≠
      (Error.misfit [.field "[]: left"] .listWithoutItems).message? := by
  have hrows : rows.HasPlainNames := by
    intro n hn ds hds
    rcases List.mem_pair.mp hn with rfl | rfl <;> cases hds
  have hbins : bins.HasPlainNames := by
    intro n hn ds hds name hname
    rcases List.mem_pair.mp hn with rfl | rfl
    · cases hds
      obtain rfl := List.mem_singleton.mp hname
      exact ⟨by decide, by decide, by decide, by decide⟩
    · cases hds
  have herrors := (messages_identify_records hrows hbins).2 _ _ rfl rfl
  exact ⟨hrows, hbins, rfl, rfl, fun h => by cases herrors.mp h⟩

end Definition

end FieldSchema.Document
