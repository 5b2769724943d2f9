import FieldSchema.Binary64.Shortest

/-!
# Text of binary64 numbers

A `Layout` holds the choices that written forms of a number differ in; `Binary64.text` writes a
number by a layout. Positional notation always has a digit after the point.
-/

namespace FieldSchema.Binary64

/-- The choices of a written form. -/
structure Layout where
  /-- The powers of ten of a first digit for which positional notation is used. -/
  leastPositional : Int
  greatestPositional : Int
  /-- The sign of a positive exponent. -/
  exponentSign : String
  nan : String
  infinity : String
  negativeInfinity : String

namespace Layout

/-- Numbers in JSON text, which has no word for the values without digits. -/
def json : Layout := ⟨-5, 15, "+", "null", "null", "null"⟩

/-- Numbers in YAML text. -/
def yaml : Layout := ⟨-5, 15, "", ".nan", ".inf", "-.inf"⟩

/-- Numbers in running text, without exponents. -/
def positional : Layout := ⟨-400, 400, "", "NaN", "inf", "-inf"⟩

end Layout

/-- A run of zeros. -/
private def zeros (n : Nat) : List Char := List.replicate n '0'

/-- Writes the digits with the point after the first `point` of them, or with leading or trailing
zeros where the point lies outside the digits. -/
def positional (digits : List Char) (point : Int) : List Char :=
  if point ≤ 0 then '0' :: '.' :: zeros (-point).toNat ++ digits
  else
    let k := point.toNat
    if digits.length ≤ k then digits ++ zeros (k - digits.length) ++ ['.', '0']
    else digits.take k ++ '.' :: digits.drop k

/-- Writes `d.ddde±NN`, with no point after a single digit. -/
def scientific (l : Layout) (digits : List Char) (exponent : Int) : List Char :=
  let mantissa := match digits with
    | d :: r => if r.isEmpty then [d] else d :: '.' :: r
    | [] => []
  let sign := if exponent < 0 then ['-'] else l.exponentSign.toList
  mantissa ++ 'e' :: sign ++ (Nat.repr exponent.natAbs).toList

/-- The text of a positive decimal. -/
def Decimal.text (l : Layout) (d : Decimal) : List Char :=
  let digits := (Nat.repr d.digits).toList
  let first := d.exponent + digits.length - 1
  if l.leastPositional ≤ first ∧ first ≤ l.greatestPositional then positional digits (first + 1)
  else scientific l digits first

/-- The text of a number. -/
def text (l : Layout) : Binary64 → String
  | .nan => l.nan
  | .infinity negative => if negative then l.negativeInfinity else l.infinity
  | .finite negative rank _ =>
    let magnitude := if rank = 0 then ['0', '.', '0'] else (shortest rank).text l
    String.ofList (if negative then '-' :: magnitude else magnitude)

end FieldSchema.Binary64
