import FieldSchema.Json.Printer
import FieldSchema.Json.Numeral
import Mathlib.Data.List.TakeWhile
import Mathlib.Data.Nat.Digits.Defs
import Mathlib.Tactic.Ring

/-!
# Numerals

* `digitsValue_toDigits`: the digits of a number have its value.
* `Json.Ends`: a text with which no numeral goes on. `Json.Literal.read?_append`: a numeral is taken
  from a text as it is taken alone, if what follows ends it.
* `Json.Literal.readWhole?_digits`, `readFraction?_digits`: digits are taken as the part of a
  numeral they are written as.
* `Json.Number.ReadsBack`: the number reader takes the text of a number for the number.
  `Json.Number.readsBack_integer` says so of whole numbers of 64 bits.
-/

namespace FieldSchema

/-! ## Digits -/

/-- A text of digits. -/
def AllDigits (cs : List Char) : Prop := ∀ c ∈ cs, c.isDigit

theorem allDigits_toDigits (n : Nat) : AllDigits (Nat.toDigits 10 n) :=
  fun _ hc => Nat.isDigit_of_mem_toDigits (by decide) (by decide) hc

theorem allDigits_zeros (n : Nat) : AllDigits (List.replicate n '0') := by
  intro c hc
  rw [List.eq_of_mem_replicate hc]
  rfl

theorem AllDigits.append {cs ds : List Char} (hcs : AllDigits cs) (hds : AllDigits ds) :
    AllDigits (cs ++ ds) :=
  fun c hc => (List.mem_append.mp hc).elim (hcs c) (hds c)

/-- The value of digits is that of the first ones, moved up, and that of the last ones. -/
theorem digitsValue_append (cs ds : List Char) :
    digitsValue (cs ++ ds) = digitsValue cs * 10 ^ ds.length + digitsValue ds := by
  have hfrom (n : Nat) : ds.foldl (fun n c => n * 10 + (c.toNat - '0'.toNat)) n =
      n * 10 ^ ds.length + digitsValue ds := by
    rw [digitsValue]
    induction ds generalizing n with
    | nil => simp
    | cons d ds ih =>
      rw [List.foldl_cons, List.foldl_cons, ih, ih (0 * 10 + _), List.length_cons]
      ring
  rw [digitsValue, List.foldl_append, hfrom]
  rfl

theorem digitsValue_zeros (n : Nat) : digitsValue (List.replicate n '0') = 0 := by
  induction n with
  | zero => rfl
  | succ n ih =>
    rw [List.replicate_succ', digitsValue_append, ih]
    rfl

/-- The digits of a number have its value. -/
theorem digitsValue_toDigits (n : Nat) : digitsValue (Nat.toDigits 10 n) = n := by
  have hdigit (d : Nat) (hd : d < 10) : digitsValue [d.digitChar] = d := by
    simp [digitsValue, Nat.toNat_digitChar_of_lt_ten hd]
  induction n using Nat.strongRecOn with
  | ind n ih =>
    by_cases hn : n < 10
    · rw [Nat.toDigits_of_lt_base hn, hdigit n hn]
    · rw [Nat.toDigits_of_base_le (by decide) (by omega), digitsValue_append, ih _ (by omega),
        hdigit _ (Nat.mod_lt n (by decide))]
      simp only [List.length_singleton]
      omega

/-- The digits of a positive number do not begin with a zero. -/
theorem head?_toDigits {n : Nat} (hn : 0 < n) : (Nat.toDigits 10 n).head? ≠ some '0' := by
  induction n using Nat.strongRecOn with
  | ind n ih =>
    by_cases hlt : n < 10
    · rw [Nat.toDigits_of_lt_base hlt]
      intro hzero
      have := Nat.toNat_digitChar_of_lt_ten hlt
      rw [List.head?_cons, Option.some.injEq] at hzero
      rw [hzero] at this
      simp at this
      omega
    · have hhead := ih (n / 10) (by omega) (by omega)
      rw [Nat.toDigits_of_base_le (by decide) (by omega)]
      cases hdigits : Nat.toDigits 10 (n / 10) with
      | nil => exact absurd hdigits Nat.toDigits_ne_nil
      | cons d ds =>
        rw [hdigits] at hhead
        exact hhead

namespace Json

/-! ## Where a numeral ends -/

/-- No numeral goes on with this text. -/
def Ends (rest : List Char) : Prop :=
  ∀ c ∈ rest.head?, c.isDigit = false ∧ c ≠ '.' ∧ c ≠ 'e' ∧ c ≠ 'E'

namespace Literal

variable {cs ds r rest : List Char} {l : Literal}

theorem takeWhile_append_of_head? (cs : List Char) {p : Char → Bool}
    (h : ∀ c ∈ rest.head?, p c = false) :
    (cs ++ rest).takeWhile p = cs.takeWhile p ∧
      (cs ++ rest).dropWhile p = cs.dropWhile p ++ rest := by
  induction cs with
  | nil =>
    cases rest with
    | nil => exact ⟨rfl, rfl⟩
    | cons c rest => simp [h c rfl]
  | cons c cs ih =>
    by_cases hc : p c
    · simpa [hc] using ih
    · simp [hc]

theorem takeWhile_digits (cs : List Char) (h : Ends rest) :
    (cs ++ rest).takeWhile Char.isDigit = cs.takeWhile Char.isDigit ∧
      (cs ++ rest).dropWhile Char.isDigit = cs.dropWhile Char.isDigit ++ rest :=
  takeWhile_append_of_head? cs fun c hc => (h c hc).1

theorem readWhole?_append (hrest : Ends rest) (h : readWhole? cs = some (ds, r)) :
    readWhole? (cs ++ rest) = some (ds, r ++ rest) := by
  obtain ⟨htake, hdrop⟩ := takeWhile_digits cs hrest
  rw [readWhole?] at h ⊢
  rw [htake, hdrop]
  split at h
  · cases h
  · split at h
    · cases h
    · rename_i hzero
      rw [if_neg hzero]
      cases h
      rfl

theorem readFraction?_of_ends (hrest : Ends rest) : readFraction? rest = some (none, rest) := by
  unfold readFraction?
  split
  · exact absurd rfl (hrest '.' rfl).2.1
  · rfl

theorem readFraction?_append {fraction : Option (List Char)} (hrest : Ends rest)
    (h : readFraction? cs = some (fraction, r)) :
    readFraction? (cs ++ rest) = some (fraction, r ++ rest) := by
  unfold readFraction? at h
  split at h
  · rename_i t
    obtain ⟨htake, hdrop⟩ := takeWhile_digits t hrest
    rw [List.cons_append, readFraction?, htake, hdrop]
    dsimp only at h ⊢
    split at h
    · cases h
    · rename_i hempty
      rw [if_neg hempty]
      cases h
      rfl
  · rename_i hpoint
    cases h
    cases cs with
    | nil => exact readFraction?_of_ends hrest
    | cons c cs =>
      rw [readFraction?]
      rintro t ⟨⟩
      exact hpoint cs rfl

theorem readExponent?_of_ends (hrest : Ends rest) : readExponent? rest = some (none, rest) := by
  cases rest with
  | nil => rfl
  | cons c rest =>
    obtain ⟨-, -, he, hE⟩ := hrest c rfl
    rw [readExponent?, if_neg (not_or.mpr ⟨he, hE⟩)]

theorem splitSign_append (hcs : cs ≠ []) :
    Binary64.splitSign (cs ++ rest) =
      ((Binary64.splitSign cs).1, (Binary64.splitSign cs).2 ++ rest) := by
  cases cs with
  | nil => exact absurd rfl hcs
  | cons c cs =>
    rw [List.cons_append]
    unfold Binary64.splitSign
    split <;> simp_all

theorem readExponent?_append {exponent : Option Int} (hrest : Ends rest)
    (h : readExponent? cs = some (exponent, r)) :
    readExponent? (cs ++ rest) = some (exponent, r ++ rest) := by
  cases cs with
  | nil =>
    cases h
    exact readExponent?_of_ends hrest
  | cons c cs =>
    rw [List.cons_append, readExponent?]
    rw [readExponent?] at h
    by_cases hc : c = 'e' ∨ c = 'E'
    · rw [if_pos hc] at h ⊢
      cases cs with
      | nil => cases h
      | cons d cs =>
        obtain ⟨htake, hdrop⟩ :=
          takeWhile_digits (Binary64.splitSign (d :: cs)).2 hrest
        rw [splitSign_append (List.cons_ne_nil d cs)]
        dsimp only at h ⊢
        rw [htake, hdrop]
        split at h
        · cases h
        · rename_i hempty
          rw [if_neg hempty]
          cases h
          rfl
    · rw [if_neg hc] at h ⊢
      cases h
      rfl

/-- Takes the parts of a numeral after its sign. -/
def readParts? (negative : Bool) (cs : List Char) : Option (Literal × List Char) := do
  let (whole, r) ← readWhole? cs
  let (fraction, r) ← readFraction? r
  let (exponent, r) ← readExponent? r
  return (⟨negative, whole, fraction, exponent⟩, r)

theorem readParts?_eq_some {negative : Bool} :
    readParts? negative cs = some (l, r) ↔
      ∃ whole r₁ fraction r₂ exponent, readWhole? cs = some (whole, r₁) ∧
        readFraction? r₁ = some (fraction, r₂) ∧ readExponent? r₂ = some (exponent, r) ∧
        l = ⟨negative, whole, fraction, exponent⟩ := by
  simp only [readParts?, Option.bind_eq_bind, Option.bind_eq_some_iff, Option.pure_def,
    Option.some.injEq, Prod.mk.injEq, Prod.exists]
  constructor
  · rintro ⟨whole, r₁, hwhole, fraction, r₂, hfraction, exponent, r₃, hexponent, rfl, rfl⟩
    exact ⟨whole, r₁, fraction, r₂, exponent, hwhole, hfraction, hexponent, rfl⟩
  · rintro ⟨whole, r₁, fraction, r₂, exponent, hwhole, hfraction, hexponent, rfl⟩
    exact ⟨whole, r₁, hwhole, fraction, r₂, hfraction, exponent, r, hexponent, rfl, rfl⟩

theorem read?_minus (cs : List Char) : read? ('-' :: cs) = readParts? true cs := rfl

theorem read?_of_head? (h : cs.head? ≠ some '-') : read? cs = readParts? false cs := by
  unfold read?
  split
  · rename_i heq
    split at heq
    · exact absurd rfl h
    · cases heq
      rfl

theorem readParts?_append {negative : Bool} (hrest : Ends rest)
    (h : readParts? negative cs = some (l, r)) :
    readParts? negative (cs ++ rest) = some (l, r ++ rest) := by
  rw [readParts?_eq_some] at h ⊢
  obtain ⟨whole, r₁, fraction, r₂, exponent, hwhole, hfraction, hexponent, rfl⟩ := h
  exact ⟨whole, _, fraction, _, exponent, readWhole?_append hrest hwhole,
    readFraction?_append hrest hfraction, readExponent?_append hrest hexponent, rfl⟩

/-- A numeral is taken from a text as it is taken alone, if what follows ends it. -/
theorem read?_append (hrest : Ends rest) (h : read? cs = some (l, r)) :
    read? (cs ++ rest) = some (l, r ++ rest) := by
  by_cases hminus : cs.head? = some '-'
  · cases cs with
    | nil => cases hminus
    | cons c cs =>
      cases hminus
      exact readParts?_append hrest h
  · rw [read?_of_head? hminus] at h
    have hhead : (cs ++ rest).head? ≠ some '-' := by
      cases cs with
      | nil => cases h
      | cons c cs => exact hminus
    rw [read?_of_head? hhead]
    exact readParts?_append hrest h

/-! ## Taking what is written -/

theorem takeWhile_of_allDigits (hds : AllDigits ds) (hr : ∀ c ∈ r.head?, c.isDigit = false) :
    (ds ++ r).takeWhile Char.isDigit = ds ∧ (ds ++ r).dropWhile Char.isDigit = r := by
  obtain ⟨htake, hdrop⟩ := takeWhile_append_of_head? ds hr
  rw [htake, hdrop, List.takeWhile_eq_self_iff.mpr hds, List.dropWhile_eq_nil_iff.mpr hds]
  exact ⟨rfl, rfl⟩

/-- Digits that stand in front of something else are taken as a whole, unless they begin with a zero
that is not the only digit. -/
theorem readWhole?_digits (hds : AllDigits ds) (hne : ds ≠ [])
    (hzero : ds.head? ≠ some '0' ∨ ds.length = 1) (hr : ∀ c ∈ r.head?, c.isDigit = false) :
    readWhole? (ds ++ r) = some (ds, r) := by
  obtain ⟨htake, hdrop⟩ := takeWhile_of_allDigits hds hr
  rw [readWhole?, htake, hdrop]
  cases ds with
  | nil => exact absurd rfl hne
  | cons d more =>
    dsimp only
    rw [if_neg]
    rintro h
    simp only [Bool.and_eq_true, decide_eq_true_eq, Bool.not_eq_true'] at h
    rcases hzero with hzero | hlength
    · exact hzero (congrArg some h.1)
    · cases more with
      | nil => exact absurd h.2 (by simp)
      | cons e more => simp at hlength

theorem readFraction?_digits (hds : AllDigits ds) (hne : ds ≠ [])
    (hr : ∀ c ∈ r.head?, c.isDigit = false) :
    readFraction? ('.' :: (ds ++ r)) = some (some ds, r) := by
  obtain ⟨htake, hdrop⟩ := takeWhile_of_allDigits hds hr
  rw [readFraction?, htake, hdrop]
  cases ds with
  | nil => exact absurd rfl hne
  | cons d more => rfl

/-- Digits that enter a significand without an overflow are all taken in. -/
theorem enter_of_lt {n : Nat} (h : n * 10 ^ ds.length + digitsValue ds < UInt64.size) :
    enter n ds = (n * 10 ^ ds.length + digitsValue ds, []) := by
  induction ds generalizing n with
  | nil => simp [enter, digitsValue]
  | cons d ds ih =>
    have hvalue : n * 10 ^ (d :: ds).length + digitsValue (d :: ds) =
        (n * 10 + (d.toNat - '0'.toNat)) * 10 ^ ds.length + digitsValue ds := by
      rw [← List.singleton_append, digitsValue_append, List.length_append, List.length_singleton]
      simp only [digitsValue, List.foldl_cons, List.foldl_nil]
      ring
    rw [hvalue] at h ⊢
    have hnext : n * 10 + (d.toNat - '0'.toNat) < UInt64.size := by
      have := Nat.le_mul_of_pos_right (n * 10 + (d.toNat - '0'.toNat))
        (Nat.pow_pos (n := ds.length) (show 0 < 10 by decide))
      omega
    rw [enter, if_pos hnext, ih h]

theorem readParts?_toDigits (negative : Bool) (n : Nat) :
    readParts? negative (Nat.toDigits 10 n) =
      some (⟨negative, Nat.toDigits 10 n, none, none⟩, []) := by
  have hzero : (Nat.toDigits 10 n).head? ≠ some '0' ∨ (Nat.toDigits 10 n).length = 1 := by
    cases n with
    | zero => exact .inr rfl
    | succ n => exact .inl (head?_toDigits (Nat.succ_pos n))
  have hwhole := readWhole?_digits (r := []) (allDigits_toDigits n) Nat.toDigits_ne_nil hzero nofun
  rw [List.append_nil] at hwhole
  exact readParts?_eq_some.mpr ⟨_, _, none, [], none, hwhole, rfl, rfl, rfl⟩

theorem isDigit_of_readParts? {c : Char} {negative : Bool}
    (h : readParts? negative (c :: cs) = some (l, r)) : c.isDigit := by
  obtain ⟨whole, _, _, _, _, hwhole, -⟩ := readParts?_eq_some.mp h
  by_contra hdigit
  simp [readWhole?, hdigit] at hwhole

/-- A numeral begins with a minus sign or with a digit. -/
theorem head_of_read? {c : Char} (h : read? (c :: cs) = some (l, r)) : c = '-' ∨ c.isDigit := by
  by_cases hc : c = '-'
  · exact .inl hc
  · rw [read?_of_head? (by simpa using hc)] at h
    exact .inr (isDigit_of_readParts? h)

theorem head?_ne_of_allDigits {c : Char} (hcs : AllDigits cs) (hc : c.isDigit = false) :
    cs.head? ≠ some c := by
  intro h
  have := hcs c (List.mem_of_mem_head? h)
  rw [hc] at this
  cases this

end Literal

namespace Number

/-- A number is taken from the beginning of a text that ends it as it is taken alone. -/
theorem read?_append {cs r rest : List Char} {n : Number} (hrest : Ends rest)
    (h : read? cs = some (n, r)) : read? (cs ++ rest) = some (n, r ++ rest) := by
  simp only [read?, Option.bind_eq_bind, Option.bind_eq_some_iff, Option.pure_def,
    Option.some.injEq, Prod.mk.injEq, Prod.exists] at h ⊢
  obtain ⟨l, r', hl, n', hn, rfl, rfl⟩ := h
  exact ⟨l, r' ++ rest, Literal.read?_append hrest hl, n', hn, rfl, rfl⟩

/-- The number reader takes the whole text of a number for the number. -/
def ReadsBack (n : Number) : Prop := read? n.chars = some (n, [])

/-- Whole numbers of 64 bits are read back. -/
theorem readsBack_integer {n : Nat} (hn : n < UInt64.size) : ReadsBack (.integer n) := by
  have hchars : (Number.integer n).chars = Nat.toDigits 10 n := by
    rw [chars, integerText, if_neg (by omega), Int.natAbs_natCast, Nat.toList_repr]
  have hdigits := allDigits_toDigits n
  have hvalue : digitsValue (Nat.toDigits 10 n) < UInt64.size := by rwa [digitsValue_toDigits]
  have henter : Literal.enter 0 (Nat.toDigits 10 n) = (n, []) := by
    rw [Literal.enter_of_lt (by omega), Nat.zero_mul, Nat.zero_add, digitsValue_toDigits]
  rw [ReadsBack, hchars, read?, Literal.read?_of_head? (Literal.head?_ne_of_allDigits hdigits rfl),
    Literal.readParts?_toDigits]
  simp [Literal.value?, henter, Literal.integer]

end Number

end Json

end FieldSchema
