import FieldSchema.Text.Printable

/-!
# Quoted text

A text between quotes, as error messages show it: what cannot be seen is spelled out.
-/

namespace FieldSchema.Text

/-- A character inside quotes. The quote, the backslash and four control characters have a short
escape; other characters that are not printable or are drawn on the character before them are
written by their code point. -/
def quotedChar (c : Char) : List Char :=
  if c = '\"' then ['\\', '\"']
  else if c = '\\' then ['\\', '\\']
  else if c = '\n' then ['\\', 'n']
  else if c = '\r' then ['\\', 'r']
  else if c = '\t' then ['\\', 't']
  else if c = '\x00' then ['\\', '0']
  else if c.toNat < 0x7f ∧ 0x20 ≤ c.toNat then [c]
  else if isExtending c || !isPrintable c then
    '\\' :: 'u' :: '\x7b' :: Nat.toDigits 16 c.toNat ++ ['\x7d']
  else [c]

/-- A text between quotes. -/
def quoted (s : String) : String :=
  String.ofList ('\"' :: s.toList.flatMap quotedChar ++ ['\"'])

end FieldSchema.Text
