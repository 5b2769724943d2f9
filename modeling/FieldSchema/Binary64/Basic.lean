/-!
# Binary64 numbers

The numbers that bound a scalar field: 64-bit binary floating point, kept as a value of the logic.

A finite magnitude is known by its *rank*, its place in the increasing list of all finite
magnitudes, which is also its bit pattern: rank `0` is zero, rank `1` the least positive number
`2^-1074`, and every `2^52` ranks the spacing doubles (after the first two runs, which share the least
spacing). All arithmetic is exact on natural numbers, in units of `2^-1074`, and is rounded once.

* `Binary64.units` is the exact magnitude of a rank in units of `2^-1074`.
* `Binary64.ofRatio` rounds a quotient of natural numbers to the nearest number, a half to the even
  significand; it is total, because a magnitude beyond the last rank is an infinity.
* `Binary64.numEq` is the comparison of numbers: the zeros are equal, and `nan` equals nothing.
-/

namespace FieldSchema

/-- A binary64 number. Only finite magnitudes have a rank, below the bit pattern of infinity. -/
inductive Binary64 where
  | nan
  | infinity (negative : Bool)
  | finite (negative : Bool) (rank : Nat) (rank_lt : rank < 0x7ff0000000000000)
  deriving DecidableEq

namespace Binary64

/-- The zero of a sign. -/
def zero (negative : Bool) : Binary64 := .finite negative 0 (by decide)

/-- The rank of the least normal number, which is how many ranks share a spacing: `2^52`. -/
abbrev leastNormal : Nat := 0x10000000000000

/-- The integer significand of a rank, below `2^53`. -/
def significand (rank : Nat) : Nat :=
  if rank < leastNormal then rank else leastNormal + rank % leastNormal

/-- How often the least spacing doubles below a rank. -/
def doublings (rank : Nat) : Nat := rank / leastNormal - 1

/-- The exact magnitude of a rank, in units of `2^-1074`. -/
def units (rank : Nat) : Nat := significand rank <<< doublings rank

/-- Whether a number is neither an infinity nor `nan`. -/
def isFinite : Binary64 → Bool
  | .finite .. => true
  | _ => false

/-- Comparison of numbers: both zeros are one number, and `nan` is equal to nothing. -/
def numEq : Binary64 → Binary64 → Bool
  | .finite s r _, .finite t q _ => r == q && (s == t || r == 0)
  | .infinity s, .infinity t => s == t
  | _, _ => false

/-! ## Rounding -/

/-- The quotient of `n` by `d` to the nearest natural number; a half goes to the even one. -/
def roundHalfEven (n d : Nat) : Nat :=
  let q := n / d
  let r := n % d
  if 2 * r < d || (2 * r == d && q % 2 == 0) then q else q + 1

/-- The number nearest to `± n / d`; a half goes to the even significand, and a magnitude beyond
the greatest finite one is an infinity. The spacing is the greatest one that keeps 53 bits; a
significand rounded up to `2^53` is, as a rank, the first of the next spacing. -/
def ofRatio (negative : Bool) (n d : Nat) : Binary64 :=
  let scaled := n <<< 1074
  let k := (scaled / d).log2 - 52
  let rank := k * leastNormal + roundHalfEven scaled (d <<< k)
  if h : rank < 0x7ff0000000000000 then .finite negative rank h else .infinity negative

/-- The number nearest to a natural number. -/
def ofNat (n : Nat) : Binary64 := ofRatio false n 1

/-- The number nearest to `± m * 10^e`. Magnitudes of more than 400 digits and below `10^-400` are
decided without computing the power. -/
def ofDecimal (negative : Bool) (m : Nat) (e : Int) : Binary64 :=
  if m = 0 then zero negative
  else if 400 < e then .infinity negative
  else if (Nat.repr m).length + e < -400 then zero negative
  else ofRatio negative (m * Nat.pow 10 e.toNat) (Nat.pow 10 (-e).toNat)

/-- The product, rounded once. -/
def mul : Binary64 → Binary64 → Binary64
  | .finite s r _, .finite t q _ => ofRatio (s != t) (units r * units q) (1 <<< 2148)
  | .infinity s, .infinity t => .infinity (s != t)
  | .infinity s, .finite t q _ | .finite t q _, .infinity s =>
    if q = 0 then .nan else .infinity (s != t)
  | .nan, _ | _, .nan => .nan

/-- The quotient, rounded once. -/
def div : Binary64 → Binary64 → Binary64
  | .finite s r _, .finite t q _ =>
    if q ≠ 0 then ofRatio (s != t) (units r) (units q)
    else if r = 0 then .nan else .infinity (s != t)
  | .finite s _ _, .infinity t => zero (s != t)
  | .infinity s, .finite t _ _ => .infinity (s != t)
  | .infinity _, .infinity _ | .nan, _ | _, .nan => .nan

/-- The number with the opposite sign. -/
def neg : Binary64 → Binary64
  | .finite s r h => .finite (!s) r h
  | .infinity s => .infinity (!s)
  | .nan => .nan

/-! ## Small facts -/

@[simp] theorem numEq_nan_left (x : Binary64) : numEq .nan x = false := by cases x <;> rfl

@[simp] theorem numEq_nan_right (x : Binary64) : numEq x .nan = false := by cases x <;> rfl

end Binary64

end FieldSchema
