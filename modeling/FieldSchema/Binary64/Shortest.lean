import FieldSchema.Binary64.Basic

/-!
# Shortest decimal digits

The decimal that stands for a finite number in text: of the decimals that round to the number, one
with the fewest digits, and of those the nearest.

The decimals with last digit at `10^p` form a grid. `Binary64.shortest` walks the grids from coarse
to fine and takes the first that has a point inside the interval of reals rounding to the number.
Only the two neighbours of the number on a grid can be nearest. The walk ends: the number itself
lies on the grid of `10^-1074`.
-/

namespace FieldSchema.Binary64

/-- A positive decimal `digits * 10^exponent`. -/
structure Decimal where
  digits : Nat
  exponent : Int
  deriving DecidableEq, Repr

namespace Shortest

/-- The interval of reals that round to the rank, in quarters of `2^-1074`: lower end, upper end. The
lower half of the interval is shorter where the spacing below the number is. -/
def interval (rank : Nat) : Nat × Nat :=
  let s := 1 <<< doublings rank
  let below := if significand rank = leastNormal && 0 < doublings rank then 1 else 2
  (4 * units rank - below * s, 4 * units rank + 2 * s)

/-- Whether `c * 10^p`, with `num / den = 10^p`, rounds to the rank; the ends of the interval do
exactly for an even significand. -/
def reads (rank c num den : Nat) : Bool :=
  let (low, high) := interval rank
  let x := (4 * c * num) <<< 1074
  if significand rank % 2 = 0 then low * den ≤ x && x ≤ high * den
  else low * den < x && x < high * den

/-- The point of the grid of `10^p` to write for the rank, if one rounds to it: the nearer
neighbour, and of two equally near ones the even one. -/
def onGrid (rank : Nat) (p : Int) : Option Nat :=
  let num := Nat.pow 10 p.toNat
  let den := Nat.pow 10 (-p).toNat
  let scaled := units rank * den
  let step := num <<< 1074
  let c := scaled / step
  let r := scaled % step
  let lower := 0 < c && reads rank c num den
  let upper := reads rank (c + 1) num den
  if lower && upper then
    if 2 * r < step || (2 * r == step && c % 2 == 0) then some c else some (c + 1)
  else if lower then some c
  else if upper then some (c + 1)
  else none

/-- Walks the grids `10^(i - 1074)`, `10^(i - 1075)`, … down to `10^-1074`, which holds the number
itself. -/
def search (rank : Nat) : Nat → Decimal
  | 0 => ⟨units rank * Nat.pow 5 1074, -1074⟩
  | i + 1 =>
    let p : Int := (i : Int) + 1 - 1074
    match onGrid rank p with
    | some c => ⟨c, p⟩
    | none => search rank i

end Shortest

/-- The shortest decimal of a positive rank. The walk starts at a grid whose spacing exceeds the
number. -/
def shortest (rank : Nat) : Decimal :=
  Shortest.search rank ((units rank).log2 * 30103 / 100000 + 753)

end FieldSchema.Binary64
