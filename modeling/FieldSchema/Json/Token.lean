import FieldSchema.Json.Numeral

/-!
# JSON tokens

The tokens of a JSON text. Blanks separate tokens and are no tokens. Where the text is no token the
list ends with `Token.unreadable`, so that what stands before can still be used.

* `Token.readString` takes the rest of a string. Its escapes name UTF-16 units, so a character
  beyond the first 65536 is written as two of them; half of such a pair is unreadable.
* `Token.scan` lists the tokens of a text.
-/

namespace FieldSchema.Json

/-- A token of JSON text. -/
inductive Token where
  | beginArray
  | endArray
  | beginObject
  | endObject
  | comma
  | colon
  | null
  | bool (b : Bool)
  | number (n : Number)
  | string (s : String)
  | unreadable
  deriving DecidableEq

namespace Token

/-- The value of a digit of base 16. -/
def hexValue? (c : Char) : Option Nat :=
  if '0' ≤ c ∧ c ≤ '9' then some (c.toNat - '0'.toNat)
  else if 'a' ≤ c ∧ c ≤ 'f' then some (c.toNat - 'a'.toNat + 10)
  else if 'A' ≤ c ∧ c ≤ 'F' then some (c.toNat - 'A'.toNat + 10)
  else none

/-- The unit that four digits of base 16 name. -/
def unit? (a b c d : Char) : Option Nat := do
  let a ← hexValue? a
  let b ← hexValue? b
  let c ← hexValue? c
  let d ← hexValue? d
  return ((a * 16 + b) * 16 + c) * 16 + d

/-- What a letter after a backslash stands for. -/
def simpleEscape? : Char → Option Char
  | '\"' => some '\"'
  | '\\' => some '\\'
  | '/' => some '/'
  | 'b' => some '\x08'
  | 'f' => some '\x0c'
  | 'n' => some '\n'
  | 'r' => some '\r'
  | 't' => some '\t'
  | _ => none

/-- The character of two units, the first of which is the first half of a pair. -/
def pair? (high low : Nat) : Option Char :=
  if 0xDC00 ≤ low ∧ low ≤ 0xDFFF then
    some (Char.ofNat (0x10000 + (high - 0xD800) * 0x400 + (low - 0xDC00)))
  else none

/-- Takes the rest of a string up to its closing quote. -/
def readString : List Char → Option (List Char × List Char)
  | [] => none
  | '\"' :: r => some ([], r)
  | '\\' :: 'u' :: a :: b :: c :: d :: r =>
    match unit? a b c d with
    | none => none
    | some high =>
      if high < 0xD800 ∨ 0xDFFF < high then
        (readString r).map fun (s, rest) => (Char.ofNat high :: s, rest)
      else if 0xDBFF < high then none
      else
        match r with
        | '\\' :: 'u' :: e :: f :: g :: h :: t =>
          match (unit? e f g h).bind (pair? high) with
          | none => none
          | some x => (readString t).map fun (s, rest) => (x :: s, rest)
        | _ => none
  | '\\' :: c :: r =>
    match simpleEscape? c with
    | none => none
    | some x => (readString r).map fun (s, rest) => (x :: s, rest)
  | c :: r =>
    if c = '\\' ∨ c.toNat < 0x20 then none
    else (readString r).map fun (s, rest) => (c :: s, rest)

/-- Taking the rest of a string leaves less text. -/
theorem length_readString {cs s r : List Char} (h : readString cs = some (s, r)) :
    r.length < cs.length := by
  fun_induction readString cs generalizing s <;>
    simp_all only [Option.map_eq_some_iff, Prod.mk.injEq, Prod.exists, List.length_cons,
      reduceCtorEq, Option.some.injEq] <;> grind

/-- Whether a character separates tokens. -/
def isBlank (c : Char) : Bool := c = ' ' || c = '\n' || c = '\t' || c = '\r'

/-- The tokens of a text. -/
def scan (cs : List Char) : List Token :=
  match _h : cs with
  | [] => []
  | '[' :: r => .beginArray :: scan r
  | ']' :: r => .endArray :: scan r
  | '\x7b' :: r => .beginObject :: scan r
  | '\x7d' :: r => .endObject :: scan r
  | ',' :: r => .comma :: scan r
  | ':' :: r => .colon :: scan r
  | 'n' :: 'u' :: 'l' :: 'l' :: r => .null :: scan r
  | 't' :: 'r' :: 'u' :: 'e' :: r => .bool true :: scan r
  | 'f' :: 'a' :: 'l' :: 's' :: 'e' :: r => .bool false :: scan r
  | '\"' :: r =>
    match _hs : readString r with
    | some (s, rest) => .string (String.ofList s) :: scan rest
    | none => [.unreadable]
  | c :: r =>
    if isBlank c then scan r
    else
      match _hn : Number.read? (c :: r) with
      | some (n, rest) => .number n :: scan rest
      | none => [.unreadable]
termination_by cs.length
decreasing_by
  all_goals subst _h
  all_goals first
    | (simp only [List.length_cons]; omega)
    | exact Nat.lt_succ_of_lt (length_readString _hs)
    | exact Number.length_read? _hn

end Token

end FieldSchema.Json
