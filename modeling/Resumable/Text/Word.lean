/-!
# Words that a user types

A word is taken without the blanks around it and, where it names something, in any case. Case and
digits are those of ASCII; blanks are those of all scripts.
-/

namespace Resumable.Text

/-- The characters with the property of being white space: 25 of them. -/
def isBlank (c : Char) : Bool :=
  let n := c.toNat
  (9 ≤ n && n ≤ 13) || n = 0x20 || n = 0x85 || n = 0xa0 || n = 0x1680 ||
    (0x2000 ≤ n && n ≤ 0x200a) || n = 0x2028 || n = 0x2029 || n = 0x202f || n = 0x205f ||
    n = 0x3000

/-- The text without the blanks at its ends. -/
def trim (s : String) : String :=
  String.ofList ((s.toList.dropWhile isBlank).reverse.dropWhile isBlank).reverse

/-- The text with its ASCII capitals as small letters. -/
def lowerCase (s : String) : String := String.ofList (s.toList.map Char.toLower)

/-- The number that a text of digits stands for, if it is nothing but one or more digits. -/
def digits? (s : List Char) : Option Nat :=
  if !s.isEmpty && s.all Char.isDigit then
    some (s.foldl (fun n c => n * 10 + (c.toNat - '0'.toNat)) 0)
  else none

end Resumable.Text
