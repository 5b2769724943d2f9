import FieldSchema.Proofs.JsonText
import FieldSchema.Proofs.NumberTexts

/-!
# JSON values and their texts

Every text of a value ends where the value ends, so that a value and what follows it are known from
the text of both.

* `Json.quote_append_injective`: this for strings, whatever characters they have.
* `Json.sepBy_append_injective`: this for parts with commas between them, if it holds for each part.
* `Json.Value.head_chars`: the first character tells the kind of a value.
* `Json.Value.chars_append_injective`: this for values, if their numbers have digits.
  `Json.Value.compact_injective`: values with equal texts are equal.
-/

namespace FieldSchema.Json

variable {r s : List Char}

/-! ## Strings and lists of parts -/

/-- A string is known from a text that begins with it. -/
theorem quote_append_injective {a b : String} (h : quote a ++ r = quote b ++ s) :
    a = b ∧ r = s := by
  have hread (c : String) (t : List Char) :
      Token.readString (quote c ++ t).tail = some (c.toList, t) := by
    rw [quote, List.append_assoc]
    exact Token.readString_quote c t
  have hboth := hread a r
  rw [h, hread, Option.some.injEq, Prod.mk.injEq] at hboth
  exact ⟨String.toList_inj.mp hboth.1.symm, hboth.2.symm⟩

theorem sepBy_cons (x : List Char) (xs : List (List Char)) :
    sepBy [','] (x :: xs) = x ++ xs.flatMap (',' :: ·) := by
  induction xs generalizing x with
  | nil => rw [sepBy, List.flatMap_nil, List.append_nil]
  | cons y ys ih => rw [sepBy, ih, List.flatMap_cons, List.append_assoc]; rfl

section Parts

variable {α : Type} {text : α → List Char} {closing : Char} {xs ys : List α}

/-- What follows a part: a comma and the next one, or what closes the list. -/
theorem ends_parts (hclosing : closing ∈ [']', '\x7d']) (xs : List (List Char)) (r : List Char) :
    Ends (xs.flatMap (',' :: ·) ++ closing :: r) := by
  cases xs with
  | nil =>
    have hends : [']', '\x7d'] ⊆ [',', ']', '\x7d', '\n'] := by decide
    exact Value.ends_cons (hends hclosing) r
  | cons x xs => exact Value.ends_cons (by decide) _

/-- Parts that each begin with a comma. -/
theorem flatMap_append_injective (hclosing : closing ∈ [']', '\x7d'])
    (hparts : ∀ x ∈ xs, ∀ y ∈ ys, ∀ r s, Ends r → Ends s → text x ++ r = text y ++ s →
      x = y ∧ r = s)
    (h : (xs.map text).flatMap (',' :: ·) ++ closing :: r =
      (ys.map text).flatMap (',' :: ·) ++ closing :: s) : xs = ys ∧ r = s := by
  have hcomma : closing ≠ ',' := by
    rintro rfl
    revert hclosing
    decide
  induction xs generalizing ys with
  | nil =>
    cases ys with
    | nil => exact ⟨rfl, (List.cons.inj h).2⟩
    | cons y ys => exact absurd (List.cons.inj h).1 hcomma
  | cons x xs ih =>
    cases ys with
    | nil => exact absurd (List.cons.inj h).1.symm hcomma
    | cons y ys =>
      rw [List.map_cons, List.map_cons, List.flatMap_cons, List.flatMap_cons, List.append_assoc,
        List.append_assoc] at h
      obtain ⟨rfl, hrest⟩ := hparts x List.mem_cons_self y List.mem_cons_self _ _
        (ends_parts hclosing _ _) (ends_parts hclosing _ _) (List.cons.inj h).2
      obtain ⟨rfl, hr⟩ := ih (fun a ha b hb => hparts a (List.mem_cons_of_mem x ha) b
        (List.mem_cons_of_mem x hb)) hrest
      exact ⟨rfl, hr⟩

/-- A list of parts is known from a text that begins with it, if each part is and no part begins
with what closes the list. -/
theorem sepBy_append_injective (hclosing : closing ∈ [']', '\x7d'])
    (hopens : ∀ x, x ∈ xs ∨ x ∈ ys → ∀ r, (text x ++ r).head? ≠ some closing)
    (hparts : ∀ x ∈ xs, ∀ y ∈ ys, ∀ r s, Ends r → Ends s → text x ++ r = text y ++ s →
      x = y ∧ r = s)
    (h : sepBy [','] (xs.map text) ++ closing :: r = sepBy [','] (ys.map text) ++ closing :: s) :
    xs = ys ∧ r = s := by
  cases xs with
  | nil =>
    cases ys with
    | nil => exact ⟨rfl, (List.cons.inj h).2⟩
    | cons y ys =>
      rw [List.map_cons, sepBy_cons, List.append_assoc] at h
      exact absurd (congrArg List.head? h).symm (hopens y (.inr List.mem_cons_self) _)
  | cons x xs =>
    cases ys with
    | nil =>
      rw [List.map_cons, sepBy_cons, List.append_assoc] at h
      exact absurd (congrArg List.head? h) (hopens x (.inl List.mem_cons_self) _)
    | cons y ys =>
      rw [List.map_cons, List.map_cons, sepBy_cons, sepBy_cons, List.append_assoc,
        List.append_assoc] at h
      obtain ⟨rfl, hrest⟩ := hparts x List.mem_cons_self y List.mem_cons_self _ _
        (ends_parts hclosing _ _) (ends_parts hclosing _ _) h
      obtain ⟨rfl, hr⟩ := flatMap_append_injective hclosing (fun a ha b hb =>
        hparts a (List.mem_cons_of_mem x ha) b (List.mem_cons_of_mem x hb)) hrest
      exact ⟨rfl, hr⟩

end Parts

/-! ## Values -/

namespace Value

variable {v w : Value}

/-- The kinds of values. -/
inductive Kind where
  | null
  | bool
  | number
  | string
  | array
  | object
  deriving DecidableEq

/-- The kind of a value. -/
def kind : Value → Kind
  | .null => .null
  | .bool _ => .bool
  | .number _ => .number
  | .string _ => .string
  | .array _ => .array
  | .object _ => .object

/-- The kind of the values that begin with a character. -/
def kindOf? (c : Char) : Option Kind :=
  if c = 'n' then some .null
  else if c = 't' ∨ c = 'f' then some .bool
  else if c = '-' ∨ c.isDigit then some .number
  else if c = '\"' then some .string
  else if c = '[' then some .array
  else if c = '\x7b' then some .object
  else none

/-- Every number in a value has digits. -/
def Legible (v : Value) : Prop := ∀ n ∈ v.numbers, n.Legible

theorem kindOf?_number {c : Char} (hc : c = '-' ∨ c.isDigit) : kindOf? c = some .number := by
  have hne (d : Char) (hminus : d ≠ '-') (hdigit : d.isDigit = false) : c ≠ d := by
    rintro rfl
    rcases hc with hc | hc
    · exact hminus hc
    · rw [hdigit] at hc
      cases hc
  rw [kindOf?, if_neg (hne 'n' (by decide) rfl),
    if_neg (not_or.mpr ⟨hne 't' (by decide) rfl, hne 'f' (by decide) rfl⟩), if_pos hc]

/-- The first character of a text tells the kind of the value. -/
theorem head_chars (h : v.Legible) : ∃ c r, v.chars = c :: r ∧ kindOf? c = some v.kind := by
  cases v with
  | null => exact ⟨_, _, rfl, rfl⟩
  | bool b =>
    cases b
    · exact ⟨_, _, rfl, rfl⟩
    · exact ⟨_, _, rfl, rfl⟩
  | number n =>
    obtain ⟨l, hread, -⟩ := Number.exists_literal (h n List.mem_cons_self)
    rw [chars]
    cases hchars : n.chars with
    | nil =>
      rw [hchars] at hread
      cases hread
    | cons c r =>
      rw [hchars] at hread
      exact ⟨c, r, rfl, kindOf?_number (Literal.head_of_read? hread)⟩
  | string s => exact ⟨_, _, rfl, rfl⟩
  | array items => exact ⟨_, _, rfl, rfl⟩
  | object entries => exact ⟨_, _, rfl, rfl⟩

/-- Where two texts begin with values, the values are of one kind. -/
theorem kind_eq (hv : v.Legible) (hw : w.Legible) (h : v.chars ++ r = w.chars ++ s) :
    v.kind = w.kind := by
  obtain ⟨c, t, hc, hkind⟩ := head_chars hv
  obtain ⟨d, u, hd, hkind'⟩ := head_chars hw
  rw [hc, hd] at h
  rw [(List.cons.inj h).1] at hkind
  exact Option.some.inj (hkind.symm.trans hkind')

theorem head?_chars_ne {c : Char} (hv : v.Legible) (hc : kindOf? c = none) (r : List Char) :
    (v.chars ++ r).head? ≠ some c := by
  obtain ⟨d, t, hd, hkind⟩ := head_chars hv
  rw [hd]
  intro h
  rw [Option.some.inj h, hc] at hkind
  cases hkind

theorem Legible.item {items : List Value} (h : (array items).Legible) (hv : v ∈ items) :
    v.Legible :=
  fun n hn => h n (mem_numbers_array.mpr ⟨v, hv, hn⟩)

theorem Legible.entry {entries : List (String × Value)} {e : String × Value}
    (h : (object entries).Legible) (he : e ∈ entries) : e.2.Legible :=
  fun n hn => h n (mem_numbers_object.mpr ⟨e, he, hn⟩)

/-- A value is known from a text that begins with it, and so is what follows. -/
theorem chars_append_injective (hv : v.Legible) (hw : w.Legible) (hr : Ends r) (hs : Ends s)
    (h : v.chars ++ r = w.chars ++ s) : v = w ∧ r = s := by
  have hkind := kind_eq hv hw h
  induction v generalizing w r s with
  | null =>
    cases w <;> cases hkind
    exact ⟨rfl, List.append_cancel_left h⟩
  | bool a =>
    cases w <;> cases hkind
    rename_i b
    cases a <;> cases b
    · exact ⟨rfl, List.append_cancel_left h⟩
    · cases h
    · cases h
    · exact ⟨rfl, List.append_cancel_left h⟩
  | number m =>
    cases w <;> cases hkind
    rename_i n
    obtain ⟨rfl, hrest⟩ := Number.chars_append_injective (hv m List.mem_cons_self)
      (hw n List.mem_cons_self) hr hs h
    exact ⟨rfl, hrest⟩
  | string a =>
    cases w <;> cases hkind
    obtain ⟨rfl, hrest⟩ := quote_append_injective h
    exact ⟨rfl, hrest⟩
  | array items ih =>
    cases w <;> cases hkind
    rename_i others
    have hclosed (xs : List Value) (t : List Char) :
        (array xs).chars ++ t = '[' :: (sepBy [','] (xs.map chars) ++ ']' :: t) := by
      rw [chars, itemChars_eq, List.cons_append, List.cons_append, List.append_assoc,
        List.singleton_append]
    rw [hclosed, hclosed] at h
    have hopens (x : Value) (hx : x ∈ items ∨ x ∈ others) (t : List Char) :
        (x.chars ++ t).head? ≠ some ']' :=
      hx.elim (fun hx => head?_chars_ne (hv.item hx) rfl t)
        (fun hx => head?_chars_ne (hw.item hx) rfl t)
    obtain ⟨rfl, hrest⟩ := sepBy_append_injective (by decide) hopens
      (fun x hx y hy t u ht hu heq => ih x hx (hv.item hx) (hw.item hy) ht hu heq
        (kind_eq (hv.item hx) (hw.item hy) heq))
      (List.cons.inj h).2
    exact ⟨rfl, hrest⟩
  | object entries ih =>
    cases w <;> cases hkind
    rename_i others
    have hclosed (es : List (String × Value)) (t : List Char) : (object es).chars ++ t =
        '\x7b' :: (sepBy [','] (es.map fun e => quote e.1 ++ ':' :: e.2.chars) ++ '\x7d' :: t) := by
      rw [chars, entryChars_eq, List.cons_append, List.cons_append, List.append_assoc,
        List.singleton_append]
    rw [hclosed, hclosed] at h
    have hparts : ∀ x ∈ entries, ∀ y ∈ others, ∀ t u, Ends t → Ends u →
        quote x.1 ++ ':' :: x.2.chars ++ t = quote y.1 ++ ':' :: y.2.chars ++ u →
        x = y ∧ t = u := by
      rintro ⟨a, x⟩ hx ⟨b, y⟩ hy t u ht hu heq
      rw [List.append_assoc, List.append_assoc] at heq
      obtain ⟨rfl, hcolon⟩ := quote_append_injective heq
      have hvalues : x.chars ++ t = y.chars ++ u := (List.cons.inj hcolon).2
      obtain ⟨rfl, hrest⟩ := ih (a, x) hx (hv.entry hx) (hw.entry hy) ht hu hvalues
        (kind_eq (hv.entry hx) (hw.entry hy) hvalues)
      exact ⟨rfl, hrest⟩
    have hopens (x : String × Value) (_ : x ∈ entries ∨ x ∈ others) (t : List Char) :
        (quote x.1 ++ ':' :: x.2.chars ++ t).head? ≠ some '\x7d' := by
      rintro ⟨⟩
    obtain ⟨rfl, hrest⟩ := sepBy_append_injective (by decide) hopens hparts (List.cons.inj h).2
    exact ⟨rfl, hrest⟩

/-- **Values are known from their texts.** Values with equal texts are equal, the order of entries
included, if their numbers have digits. -/
theorem compact_injective (hv : v.Legible) (hw : w.Legible) (h : v.compact = w.compact) :
    v = w := by
  have hchars : v.chars ++ [] = w.chars ++ [] := by
    rw [List.append_nil, List.append_nil]
    exact String.ofList_injective h
  exact (chars_append_injective hv hw ends_nil ends_nil hchars).1

end Value

end FieldSchema.Json
