import FieldSchema.Proofs.Numerals
import FieldSchema.Proofs.ShortestDigits

/-!
# Numbers and their JSON texts

* `Json.Literal.magnitude`: the exact magnitude of a numeral. `Json.Literal.Writes`: a text is a
  numeral with a point or an exponent, of a sign and a magnitude. `Json.Literal.writes_text` says so
  of the JSON text of a positive decimal, in positional and in scientific notation.
* `Json.Literal.Stands`: a numeral stands for a number. `Json.Literal.Stands.unique`: it stands for
  one number only. `Json.Number.exists_literal`: the text of a number with digits stands for it.
* `Json.Number.chars_append_injective`: so a number is known from a text that begins with its text.
-/

namespace FieldSchema

/-! ## Decimals in positional and in scientific notation -/

namespace Binary64

variable {ds : List Char} {point : Int}

/-- Digits with zeros after them, moved down. -/
theorem Decimal.value_shift (c j : Nat) (k : Int) :
    ((c * 10 ^ j : Nat) : ℚ) * 10 ^ k = (Decimal.mk c (k + j)).value := by
  rw [Decimal.value, zpow_add₀ (by decide), zpow_natCast]
  push_cast
  ring

theorem positional_of_nonpos (h : point ≤ 0) :
    positional ds point = ['0'] ++ '.' :: (List.replicate (-point).toNat '0' ++ ds) := by
  rw [positional, if_pos h]
  rfl

theorem positional_of_length_le (h : 0 < point) (hlength : ds.length ≤ point.toNat) :
    positional ds point = (ds ++ List.replicate (point.toNat - ds.length) '0') ++ '.' :: ['0'] := by
  rw [positional, if_neg (by omega)]
  dsimp only
  rw [if_pos hlength]
  rfl

theorem positional_of_lt (h : 0 < point) (hlength : point.toNat < ds.length) :
    positional ds point = ds.take point.toNat ++ '.' :: ds.drop point.toNat := by
  rw [positional, if_neg (by omega)]
  dsimp only
  rw [if_neg (by omega)]

/-- An exponent, with its sign. -/
def exponentChars (n : Int) : List Char :=
  'e' :: (if n < 0 then ['-'] else ['+']) ++ Nat.toDigits 10 n.natAbs

theorem scientific_single (d : Char) (first : Int) :
    scientific .json [d] first = [d] ++ exponentChars first := by
  rw [scientific, exponentChars, Nat.toList_repr]
  rfl

theorem scientific_cons {d : Char} (hds : ds ≠ []) (first : Int) :
    scientific .json (d :: ds) first = [d] ++ '.' :: (ds ++ exponentChars first) := by
  have hempty : ds.isEmpty = false := List.isEmpty_eq_false_iff.mpr hds
  rw [scientific, exponentChars, Nat.toList_repr, hempty, List.append_assoc]
  rfl

end Binary64

namespace Json

open Binary64 (Decimal positional scientific)

namespace Literal

variable {cs ds more whole fraction : List Char} {negative : Bool} {l : Literal}

/-- The exact magnitude of a numeral. -/
def magnitude (l : Literal) : ℚ :=
  digitsValue (l.whole ++ l.fraction.getD []) *
    10 ^ (l.exponent.getD 0 - (l.fraction.getD []).length)

/-- Whether a numeral has a point or an exponent. -/
def isFloating (l : Literal) : Bool := l.fraction.isSome || l.exponent.isSome

/-- A text is a numeral in floating point, of this sign and magnitude. -/
def Writes (negative : Bool) (cs : List Char) (x : ℚ) : Prop :=
  ∃ l, readParts? negative cs = some (l, []) ∧ l.negative = negative ∧ l.isFloating ∧
    l.magnitude = x

/-- Digits with a point between them. -/
theorem writes_point {c j : Nat} {e : Int} (hwhole : AllDigits whole) (hne : whole ≠ [])
    (hzero : whole.head? ≠ some '0' ∨ whole.length = 1) (hfraction : AllDigits fraction)
    (hne' : fraction ≠ []) (hvalue : digitsValue (whole ++ fraction) = c * 10 ^ j)
    (he : e = j - fraction.length) :
    Writes negative (whole ++ '.' :: fraction) (Decimal.mk c e).value := by
  have hpoint : ∀ d ∈ ('.' :: fraction).head?, d.isDigit = false := by
    rintro d ⟨⟩
    rfl
  have hpart := readFraction?_digits (r := []) hfraction hne' nofun
  rw [List.append_nil] at hpart
  refine ⟨⟨negative, whole, some fraction, none⟩, ?_, rfl, rfl, ?_⟩
  · exact readParts?_eq_some.mpr
      ⟨_, _, _, [], none, readWhole?_digits hwhole hne hzero hpoint, hpart, rfl, rfl⟩
  · simp only [magnitude, Option.getD_some, Option.getD_none]
    rw [hvalue, Decimal.value_shift, he]
    congr 2
    omega

/-- A decimal in positional notation. -/
theorem writes_positional {c : Nat} {point e : Int} (hc : 0 < c)
    (he : e = point - (Nat.toDigits 10 c).length) :
    Writes negative (positional (Nat.toDigits 10 c) point) (Decimal.mk c e).value := by
  have hdigits := allDigits_toDigits c
  have hhead := head?_toDigits hc
  have hvalue := digitsValue_toDigits c
  have hne : Nat.toDigits 10 c ≠ [] := Nat.toDigits_ne_nil
  generalize Nat.toDigits 10 c = ds at *
  have hlength : 0 < ds.length := List.length_pos_of_ne_nil hne
  by_cases hpoint : point ≤ 0
  · rw [Binary64.positional_of_nonpos hpoint]
    refine writes_point (j := 0) (allDigits_zeros 1) (List.cons_ne_nil _ _) (.inr rfl)
      ((allDigits_zeros _).append hdigits) (List.append_ne_nil_of_right_ne_nil _ hne) ?_ ?_
    · rw [digitsValue_append, digitsValue_append, digitsValue_zeros, hvalue]
      simp [digitsValue]
    · rw [List.length_append, List.length_replicate]
      omega
  by_cases hwhole : ds.length ≤ point.toNat
  · rw [Binary64.positional_of_length_le (by omega) hwhole]
    refine writes_point (j := point.toNat - ds.length + 1) (hdigits.append (allDigits_zeros _))
      (List.append_ne_nil_of_left_ne_nil hne _) (.inl ?_) (allDigits_zeros 1)
      (List.cons_ne_nil _ _) ?_ ?_
    · rwa [List.head?_append_of_ne_nil _ hne]
    · rw [digitsValue_append, digitsValue_append, digitsValue_zeros, hvalue, List.length_replicate]
      simp [digitsValue]
      ring
    · rw [List.length_singleton]
      omega
  · rw [Binary64.positional_of_lt (by omega) (by omega)]
    refine writes_point (j := 0) (fun d hd => hdigits d (List.mem_of_mem_take hd)) ?_ (.inl ?_)
      (fun d hd => hdigits d (List.mem_of_mem_drop hd)) ?_ ?_ ?_
    · rw [Ne, List.take_eq_nil_iff, not_or]
      exact ⟨by omega, hne⟩
    · rwa [List.head?_take, if_neg (by omega)]
    · rw [Ne, List.drop_eq_nil_iff]
      omega
    · rw [List.take_append_drop, hvalue, pow_zero, mul_one]
    · rw [List.length_drop]
      omega

theorem readExponent?_written (n : Int) :
    readExponent? (Binary64.exponentChars n) = some (some n, []) := by
  have hdigits := takeWhile_of_allDigits (r := []) (allDigits_toDigits n.natAbs) nofun
  rw [List.append_nil] at hdigits
  have hvalue := digitsValue_toDigits n.natAbs
  have hne : (Nat.toDigits 10 n.natAbs).isEmpty = false :=
    List.isEmpty_eq_false_iff.mpr Nat.toDigits_ne_nil
  rw [Binary64.exponentChars, List.cons_append, readExponent?, if_pos (.inl rfl)]
  by_cases hn : n < 0
  · rw [if_pos hn, List.singleton_append, Binary64.splitSign]
    dsimp only
    rw [hdigits.1, hdigits.2, hne, hvalue, if_neg Bool.false_ne_true, if_pos rfl, Option.some.injEq,
      Prod.mk.injEq, Option.some.injEq]
    exact ⟨by omega, rfl⟩
  · rw [if_neg hn, List.singleton_append, Binary64.splitSign]
    dsimp only
    rw [hdigits.1, hdigits.2, hne, hvalue, if_neg Bool.false_ne_true, if_neg Bool.false_ne_true,
      Option.some.injEq, Prod.mk.injEq, Option.some.injEq]
    exact ⟨by omega, rfl⟩

/-- A decimal in scientific notation. -/
theorem writes_scientific {c : Nat} {first e : Int} (hc : 0 < c)
    (he : e = first + 1 - (Nat.toDigits 10 c).length) :
    Writes negative (scientific .json (Nat.toDigits 10 c) first) (Decimal.mk c e).value := by
  have hdigits := allDigits_toDigits c
  have hhead := head?_toDigits hc
  have hvalue := digitsValue_toDigits c
  have hne : Nat.toDigits 10 c ≠ [] := Nat.toDigits_ne_nil
  have hexponent := readExponent?_written first
  generalize Nat.toDigits 10 c = ds at *
  cases ds with
  | nil => exact absurd rfl hne
  | cons d more =>
    have hd : AllDigits [d] := by
      intro a ha
      exact hdigits a (List.mem_cons.mpr (.inl (List.mem_singleton.mp ha)))
    have hmore : AllDigits more := fun a ha => hdigits a (List.mem_cons_of_mem d ha)
    have hletter : ∀ a ∈ (Binary64.exponentChars first).head?, a.isDigit = false := by
      rintro a ⟨⟩
      rfl
    by_cases hsingle : more = []
    · subst hsingle
      rw [Binary64.scientific_single]
      refine ⟨⟨negative, [d], none, some first⟩, ?_, rfl, rfl, ?_⟩
      · exact readParts?_eq_some.mpr ⟨_, _, none, _, _,
          readWhole?_digits hd (List.cons_ne_nil _ _) (.inr rfl) hletter, rfl, hexponent, rfl⟩
      · simp only [magnitude, Option.getD_none, Option.getD_some, List.append_nil]
        rw [hvalue, Decimal.value, he]
        congr 2
        simp
    · rw [Binary64.scientific_cons hsingle]
      refine ⟨⟨negative, [d], some more, some first⟩, ?_, rfl, rfl, ?_⟩
      · exact readParts?_eq_some.mpr ⟨_, _, _, _, _,
          readWhole?_digits hd (List.cons_ne_nil _ _) (.inr rfl) (by rintro a ⟨⟩; rfl),
          readFraction?_digits hmore hsingle hletter, hexponent, rfl⟩
      · simp only [magnitude, Option.getD_some, List.singleton_append]
        rw [hvalue, Decimal.value, he]
        congr 2
        simp

/-- The JSON text of a positive decimal has its value. -/
theorem writes_text {d : Decimal} (hd : 0 < d.digits) :
    Writes negative (d.text .json) d.value := by
  obtain ⟨c, e⟩ := d
  rw [Decimal.text, Nat.toList_repr]
  dsimp only
  split
  · exact writes_positional hd (by omega)
  · exact writes_scientific hd (by omega)

theorem Writes.read? {x : ℚ} (h : Writes negative cs x) :
    ∃ l, read? (if negative then '-' :: cs else cs) = some (l, []) ∧ l.negative = negative ∧
      l.isFloating ∧ l.magnitude = x := by
  obtain ⟨l, hread, hl⟩ := h
  refine ⟨l, ?_, hl⟩
  cases negative with
  | true => exact hread
  | false =>
    rw [if_neg Bool.false_ne_true, read?_of_head? ?_, hread]
    intro hminus
    obtain ⟨rest, rfl⟩ := List.head?_eq_some_iff.mp hminus
    cases isDigit_of_readParts? hread

/-! ## The number that a numeral stands for -/

/-- A numeral stands for a number: it has its sign and value if the number is whole, and its sign
and the magnitude of its shortest digits if it is in floating point. -/
def Stands (l : Literal) : Number → Prop
  | .integer n =>
    l.isFloating = false ∧
      n = if l.negative then -(digitsValue l.whole : Int) else digitsValue l.whole
  | .float x =>
    l.isFloating ∧ ∃ rank h, x = .finite l.negative rank h ∧ l.magnitude = Binary64.written rank

/-- A numeral stands for one number only. -/
theorem Stands.unique {m n : Number} (hm : l.Stands m) (hn : l.Stands n) : m = n := by
  cases m with
  | integer a =>
    cases n with
    | integer b => rw [hm.2, hn.2]
    | float y => exact absurd hn.1 (by rw [hm.1]; exact Bool.false_ne_true)
  | float x =>
    cases n with
    | integer b => exact absurd hm.1 (by rw [hn.1]; exact Bool.false_ne_true)
    | float y =>
      obtain ⟨-, r, hr, rfl, hmagnitude⟩ := hm
      obtain ⟨-, s, hs, rfl, hmagnitude'⟩ := hn
      obtain rfl := Binary64.written_injective (hmagnitude.symm.trans hmagnitude')
      rfl

end Literal

namespace Number

variable {m n : Number} {r s : List Char}

/-- A number has digits. -/
def Legible : Number → Prop
  | .integer _ => True
  | .float x => x.isFinite

/-- The text of a number with digits is a numeral that stands for it. -/
theorem exists_literal (h : n.Legible) :
    ∃ l, Literal.read? n.chars = some (l, []) ∧ l.Stands n := by
  cases n with
  | integer n =>
    have hvalue := digitsValue_toDigits n.natAbs
    rw [chars, integerText, Nat.toList_repr]
    by_cases hn : n < 0
    · rw [if_pos hn, Literal.read?_minus, Literal.readParts?_toDigits]
      refine ⟨_, rfl, rfl, ?_⟩
      rw [if_pos rfl, hvalue]
      omega
    · have hhead := Literal.head?_ne_of_allDigits (c := '-') (allDigits_toDigits n.natAbs) rfl
      rw [if_neg hn, Literal.read?_of_head? hhead, Literal.readParts?_toDigits]
      refine ⟨_, rfl, rfl, ?_⟩
      rw [if_neg Bool.false_ne_true, hvalue]
      omega
  | float x =>
    cases x with
    | nan => cases h
    | infinity negative => cases h
    | finite negative rank hrank =>
      have hwrites : Literal.Writes negative
          (if rank = 0 then ['0', '.', '0'] else (Binary64.shortest rank).text .json)
          (Binary64.written rank) := by
        unfold Binary64.written
        split
        · exact ⟨⟨negative, ['0'], some ['0'], none⟩, rfl, rfl, rfl, by
            simp [Literal.magnitude, digitsValue]⟩
        · rename_i hzero
          exact Literal.writes_text (Binary64.rounds_shortest (Nat.pos_of_ne_zero hzero)).1
      obtain ⟨l, hread, rfl, hfloating, hmagnitude⟩ := hwrites.read?
      refine ⟨l, ?_, hfloating, rank, hrank, rfl, hmagnitude⟩
      rw [chars, Binary64.text, String.toList_ofList]
      exact hread

/-- **Numbers are known from their texts.** Where the texts of two numbers, each in front of
something that no numeral goes on with, are equal, so are the numbers, and what follows them. -/
theorem chars_append_injective (hm : m.Legible) (hn : n.Legible) (hr : Ends r) (hs : Ends s)
    (h : m.chars ++ r = n.chars ++ s) : m = n ∧ r = s := by
  obtain ⟨l, hreadm, hstandsm⟩ := exists_literal hm
  obtain ⟨l', hreadn, hstandsn⟩ := exists_literal hn
  have hleft := Literal.read?_append hr hreadm
  have hright := Literal.read?_append hs hreadn
  rw [h, hright] at hleft
  obtain ⟨rfl, hrest⟩ := Prod.mk.inj (Option.some.inj hleft)
  exact ⟨hstandsm.unique hstandsn, hrest.symm⟩

end Number

end Json

end FieldSchema
