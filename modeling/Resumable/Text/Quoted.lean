import Resumable.Text.Printable

/-!
# Texts quoted in a message

A message quotes a text between double quotes. Quotes, backslashes and characters without a shape
are escaped, the latter by their hexadecimal number in braces.
-/

namespace Resumable.Text

/-- How a character is written inside a quoted text. -/
def quotedCharacter (c : Char) : String :=
  if c = '"' then "\\\""
  else if c = '\\' then "\\\\"
  else if c = '\n' then "\\n"
  else if c = '\r' then "\\r"
  else if c = '\t' then "\\t"
  else if c.toNat = 0 then "\\0"
  else if isPrintable c then c.toString
  else "\\u\x7b" ++ String.ofList (Nat.toDigits 16 c.toNat) ++ "\x7d"

/-- The text between quotes. -/
def quoted (s : String) : String :=
  "\"" ++ String.join (s.toList.map quotedCharacter) ++ "\""

end Resumable.Text
