import FieldSchema.Binary64.Basic

/-!
# Decimal numerals

Reading a decimal numeral (`12`, `1.5`, `.5`, `7.`, `1e-3`, with an optional sign) as the nearest
binary64 number.
-/

namespace FieldSchema

/-- The value of a run of decimal digits. -/
def digitsValue (ds : List Char) : Nat :=
  ds.foldl (fun n c => n * 10 + (c.toNat - '0'.toNat)) 0

namespace Binary64

/-- Splits an optional sign off; `true` means a minus sign. -/
def splitSign : List Char → Bool × List Char
  | '-' :: r => (true, r)
  | '+' :: r => (false, r)
  | cs => (false, cs)

/-- The exponent that follows the digits: nothing, or `e` or `E`, an optional sign and at least one
digit. -/
def readExponent? : List Char → Option Int
  | [] => some 0
  | c :: r =>
    if c = 'e' ∨ c = 'E' then
      let (negative, ds) := splitSign r
      if ds.isEmpty || !ds.all Char.isDigit then none
      else some (if negative then -(digitsValue ds : Int) else digitsValue ds)
    else none

/-- Reads a whole text as a decimal numeral: digits with an optional point, at least one digit in
all, and an optional exponent. -/
def ofNumeral? (cs : List Char) : Option Binary64 :=
  let (negative, r) := splitSign cs
  let whole := r.takeWhile Char.isDigit
  let r := r.dropWhile Char.isDigit
  let (fraction, r) := match r with
    | '.' :: t => (t.takeWhile Char.isDigit, t.dropWhile Char.isDigit)
    | _ => ([], r)
  if whole.isEmpty && fraction.isEmpty then none
  else (readExponent? r).map fun e =>
    ofDecimal negative (digitsValue (whole ++ fraction)) (e - fraction.length)

end Binary64

end FieldSchema
