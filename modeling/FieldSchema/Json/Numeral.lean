import FieldSchema.Binary64.Numeral
import FieldSchema.Json.Value

/-!
# JSON numerals

Reading a number of JSON text. A numeral is a *literal*: a sign, digits, a fraction and an exponent
(`Literal.read?` takes the longest one). Its value is computed with one 64-bit significand:

* digits enter the significand as long as it stays below `2^64`; the digits before the point that
  do not enter are counted by the exponent, those after it are dropped;
* the significand is made a binary64 number and multiplied or divided by a power of ten, so the
  result is rounded twice and is not always the nearest number;
* a numeral without fraction and exponent whose digits all enter is a whole number, if it is not
  negative or at least `-2^63`; negative zero is in floating point;
* a magnitude that is too great for binary64 is no number.
-/

namespace FieldSchema.Json

/-- The parts of a numeral. -/
structure Literal where
  negative : Bool
  whole : List Char
  fraction : Option (List Char)
  exponent : Option Int
  deriving DecidableEq

namespace Literal

/-- Takes the digits before the point: at least one, and no zero before other digits. -/
def readWhole? (cs : List Char) : Option (List Char × List Char) :=
  let digits := cs.takeWhile Char.isDigit
  match digits with
  | [] => none
  | d :: more => if d = '0' && !more.isEmpty then none else some (digits, cs.dropWhile Char.isDigit)

/-- Takes a point and the digits after it, of which there is at least one. -/
def readFraction? : List Char → Option (Option (List Char) × List Char)
  | '.' :: r =>
    let digits := r.takeWhile Char.isDigit
    if digits.isEmpty then none else some (some digits, r.dropWhile Char.isDigit)
  | cs => some (none, cs)

/-- Takes an exponent: the letter, an optional sign and at least one digit. -/
def readExponent? : List Char → Option (Option Int × List Char)
  | [] => some (none, [])
  | c :: r =>
    if c = 'e' ∨ c = 'E' then
      let (negative, t) := Binary64.splitSign r
      let digits := t.takeWhile Char.isDigit
      if digits.isEmpty then none
      else
        let n : Int := digitsValue digits
        some (some (if negative then -n else n), t.dropWhile Char.isDigit)
    else some (none, c :: r)

/-- Takes the numeral at the beginning of a text. -/
def read? (cs : List Char) : Option (Literal × List Char) := do
  let (negative, r) := match cs with
    | '-' :: t => (true, t)
    | _ => (false, cs)
  let (whole, r) ← readWhole? r
  let (fraction, r) ← readFraction? r
  let (exponent, r) ← readExponent? r
  return (⟨negative, whole, fraction, exponent⟩, r)

/-- Adds digits to a significand while it stays below `2^64`; gives the significand and the digits
that did not enter. -/
def enter (significand : Nat) : List Char → Nat × List Char
  | [] => (significand, [])
  | d :: ds =>
    let next := significand * 10 + (d.toNat - '0'.toNat)
    if next < UInt64.size then enter next ds else (significand, d :: ds)

/-- Divides by a power of ten, in steps where the power is no binary64 number. -/
def scaleDown (x : Binary64) (k : Nat) : Binary64 :=
  if k ≤ 308 then x.div (.ofNat (Nat.pow 10 k))
  else if x.numEq (.zero false) then x
  else scaleDown (x.div (.ofNat (Nat.pow 10 308))) (k - 308)
termination_by k

/-- A significand times a power of ten; nothing if it is too great. -/
def scale? (significand : Nat) (exponent : Int) : Option Binary64 :=
  let x := Binary64.ofNat significand
  if exponent < 0 then some (scaleDown x exponent.natAbs)
  else if exponent ≤ 308 then
    let y := x.mul (.ofNat (Nat.pow 10 exponent.toNat))
    if y.isFinite then some y else none
  else if significand = 0 then some x
  else none

/-- A number with the sign of the numeral. -/
def signed (l : Literal) (x : Binary64) : Binary64 := if l.negative then x.neg else x

/-- The value of a numeral that is a whole number as it is written. -/
def integer (l : Literal) (significand : Nat) : Number :=
  if !l.negative then .integer significand
  else if significand = 0 || 0x8000000000000000 < significand then .float (l.signed (.ofNat significand))
  else .integer (-(significand : Int))

/-- The value of a numeral. -/
def value? (l : Literal) : Option Number :=
  let (significand, late) := enter 0 l.whole
  match l.fraction, l.exponent, late with
  | none, none, [] => some (l.integer significand)
  | fraction, exponent, _ =>
    let digits := fraction.getD []
    let (significand, dropped) := enter significand digits
    let entered := digits.length - dropped.length
    let power : Int := (late.length : Int) - entered + exponent.getD 0
    (scale? significand power).map fun x => .float (l.signed x)

end Literal

/-- Takes the number at the beginning of a text. -/
def Number.read? (cs : List Char) : Option (Number × List Char) := do
  let (literal, rest) ← Literal.read? cs
  let n ← literal.value?
  return (n, rest)

/-! ## Progress -/

namespace Literal

theorem length_readWhole? {cs r ds : List Char} (h : readWhole? cs = some (ds, r)) :
    r.length < cs.length := by
  cases cs with
  | nil => simp [readWhole?] at h
  | cons c t =>
    by_cases hc : c.isDigit = true
    · have hr : r = t.dropWhile Char.isDigit := by
        simp only [readWhole?, List.takeWhile_cons, hc, if_true, List.dropWhile_cons] at h
        split at h <;> simp_all
      subst hr
      exact Nat.lt_succ_of_le (List.dropWhile_sublist _).length_le
    · simp [readWhole?, hc] at h

theorem length_readFraction? {cs r : List Char} {f : Option (List Char)}
    (h : readFraction? cs = some (f, r)) : r.length ≤ cs.length := by
  unfold readFraction? at h
  split at h
  · simp only at h
    split at h
    · simp at h
    · simp only [Option.some.injEq, Prod.mk.injEq] at h
      obtain ⟨-, rfl⟩ := h
      exact Nat.le_succ_of_le (List.dropWhile_sublist _).length_le
  · simp_all

theorem length_readExponent? {cs r : List Char} {e : Option Int}
    (h : readExponent? cs = some (e, r)) : r.length ≤ cs.length := by
  unfold readExponent? at h
  split at h
  · simp_all
  · rename_i c t
    have hs : (Binary64.splitSign t).2.length ≤ t.length := by
      unfold Binary64.splitSign
      split <;> simp
    split at h
    · simp only at h
      split at h
      · simp at h
      · simp only [Option.some.injEq, Prod.mk.injEq] at h
        obtain ⟨-, rfl⟩ := h
        have := (List.dropWhile_sublist Char.isDigit (l := (Binary64.splitSign t).2)).length_le
        simp only [List.length_cons]
        omega
    · simp_all

theorem length_read? {cs r : List Char} {l : Literal} (h : read? cs = some (l, r)) :
    r.length < cs.length := by
  simp only [read?, Option.bind_eq_bind, Option.bind_eq_some_iff, Option.pure_def,
    Option.some.injEq, Prod.mk.injEq, Prod.exists] at h
  obtain ⟨_, r₁, h₁, _, r₂, h₂, _, r₃, h₃, -, rfl⟩ := h
  have h₁ := length_readWhole? h₁
  have h₂ := length_readFraction? h₂
  have h₃ := length_readExponent? h₃
  have : (match cs with
    | '-' :: t => (true, t)
    | _ => (false, cs)).2.length ≤ cs.length := by
    split <;> simp
  omega

end Literal

/-- Taking a number leaves less text. -/
theorem Number.length_read? {cs r : List Char} {n : Number} (h : Number.read? cs = some (n, r)) :
    r.length < cs.length := by
  simp only [Number.read?, Option.bind_eq_bind, Option.bind_eq_some_iff, Option.pure_def,
    Option.some.injEq, Prod.mk.injEq, Prod.exists] at h
  obtain ⟨_, _, h₁, _, -, -, rfl⟩ := h
  exact Literal.length_read? h₁

end FieldSchema.Json
