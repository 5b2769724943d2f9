import FieldSchema.Binary64.Numeral
import FieldSchema.Json.Token
import FieldSchema.Yaml.Scalar

/-!
# What plain scalars mean

A plain scalar may stand for nothing, a truth value or a number.

* Nothing is written `~`, `null`, `Null` or `NULL`, truth values in small letters, capitals or with a
  capital.
* Whole numbers are written in decimal digits or, after `0x`, `0o` or `0b`, in base 16, 8 or 2. More
  than one digit beginning with a zero are no whole number.
* Numbers in floating point are decimal numerals, `.inf` with an optional sign, or `.nan`. A numeral
  of a magnitude that is too great is no number.
* Anything else stands for its own text (`Meaning.ofText`).
-/

namespace FieldSchema.Yaml

/-- Whether a text stands for nothing. -/
def isNull (s : String) : Bool := s = "~" || s = "null" || s = "Null" || s = "NULL"

/-- The truth value of a text. -/
def bool? : String → Option Bool
  | "true" | "True" | "TRUE" => some true
  | "false" | "False" | "FALSE" => some false
  | _ => none

/-- Whether a text is decimal digits, more than one and the first a zero, after an optional sign. -/
def isZeroPadded (cs : List Char) : Bool :=
  match (Binary64.splitSign cs).2 with
  | '0' :: d :: r => (d :: r).all Char.isDigit
  | _ => false

/-- The value of digits in a base. -/
def digits? (base : Nat) (cs : List Char) : Option Nat :=
  if cs.isEmpty then none
  else cs.foldlM (fun n c => do
    let d ← Json.Token.hexValue? c
    if d < base then some (n * base + d) else none) 0

/-- The value of digits after the sign of their base; nothing without such a sign. -/
def based? : List Char → Option Nat
  | '0' :: 'x' :: r => digits? 16 r
  | '0' :: 'o' :: r => digits? 8 r
  | '0' :: 'b' :: r => digits? 2 r
  | _ => none

/-- The whole number of a text without a minus sign, if it has at most so many bits. -/
def natural? (bits : Nat) (cs : List Char) : Option Nat :=
  let r := match cs with
    | '+' :: r => r
    | _ => cs
  let n? := match based? r with
    | some n => some n
    | none => if isZeroPadded cs then none else digits? 10 r
  n?.filter (· < 1 <<< bits)

/-- The whole number of a text with a minus sign, if it has at most so many bits, one of which is the
sign. -/
def negative? (bits : Nat) : List Char → Option Int
  | '-' :: r =>
    let n? := match based? r with
      | some n => some n
      | none => if isZeroPadded r then none else digits? 10 r
    (n?.filter (· ≤ 1 <<< (bits - 1))).map fun n => -(n : Int)
  | _ => none

/-- The number in floating point of a text. -/
def float? (s : String) : Option Binary64 :=
  if s = ".nan" ∨ s = ".NaN" ∨ s = ".NAN" then some .nan
  else if s = "-.inf" ∨ s = "-.Inf" ∨ s = "-.INF" then some (.infinity true)
  else
    let cs := s.toList
    let r := match cs with
      | '+' :: r => r
      | _ => cs
    if r = ".inf".toList ∨ r = ".Inf".toList ∨ r = ".INF".toList then some (.infinity false)
    else if r.length < cs.length && (r.head?.any fun c => c = '+' || c = '-') then none
    else (Binary64.ofNumeral? r).filter Binary64.isFinite

/-- The whole number of a text, if it has at most so many bits. -/
def integer? (bits : Nat) (s : String) : Option Int :=
  match natural? bits s.toList with
  | some n => some n
  | none => negative? bits s.toList

/-- What a plain scalar stands for. -/
inductive Meaning where
  | nothing
  | boolean (b : Bool)
  | integer (n : Int)
  /-- An integer of more than 64 bits. -/
  | wideInteger (n : Int)
  | float (x : Binary64)
  /-- Its own text. -/
  | text
  deriving DecidableEq

/-- The meaning of a text. An empty one stands for nothing. -/
def Meaning.ofText (s : String) : Meaning :=
  if s = "" || isNull s then .nothing
  else
    match bool? s, integer? 64 s, integer? 128 s with
    | some b, _, _ => .boolean b
    | none, some n, _ => .integer n
    | none, none, some n => .wideInteger n
    | none, none, none =>
      match (if isZeroPadded s.toList then none else float? s) with
      | some x => .float x
      | none => .text

end FieldSchema.Yaml
