import Resumable.Json.Value
import Resumable.Decimal

/-!
# JSON text

`Json.compact` writes a value without any blank, and `Json.pretty` one item a line, indented by
two blanks a level. Both write strings and numbers alike: only quotes, backslashes and control
characters are escaped, and numbers have the fewest digits that identify them.
-/

namespace Resumable.Json

/-! ## Strings -/

/-- The hexadecimal digit of a number below sixteen. -/
def hexDigit (n : Nat) : Char := (Nat.digitChar n)

/-- How a character is written inside a string. -/
def escape (c : Char) : List Char :=
  if c = '"' then ['\\', '"']
  else if c = '\\' then ['\\', '\\']
  else if c = '\n' then ['\\', 'n']
  else if c = '\r' then ['\\', 'r']
  else if c = '\t' then ['\\', 't']
  else if c.toNat = 8 then ['\\', 'b']
  else if c.toNat = 12 then ['\\', 'f']
  else if c.toNat < 32 then ['\\', 'u', '0', '0', hexDigit (c.toNat / 16), hexDigit (c.toNat % 16)]
  else [c]

/-- The string literal that stands for a text. -/
def quote (s : String) : String :=
  "\"" ++ String.ofList (s.toList.flatMap escape) ++ "\""

/-! ## Numbers -/

/-- A number is positional while its first digit stands between the fifth place after the point
and the sixteenth before it, and a whole number then ends in `.0`. -/
def realText (x : Float) : String :=
  if x.isNaN || x.isInf then "null"
  else
    let d := Decimal.shortest .toEven x
    let text :=
      if -5 ≤ d.scientificExponent ∧ d.scientificExponent ≤ 15 then
        if d.hasFraction then d.positional else d.positional ++ ".0"
      else d.scientific
    signText x ++ text

/-- The text of a number. -/
def Number.text : Number → String
  | .integer n => toString n
  | .real x => realText x

/-! ## Values -/

mutual

/-- The text of a value without blanks. -/
def compact : Json → String
  | .null => "null"
  | .boolean b => if b then "true" else "false"
  | .number n => n.text
  | .string s => quote s
  | .array items => "[" ++ String.intercalate "," (compactItems items) ++ "]"
  | .object members => "\x7b" ++ String.intercalate "," (compactMembers members) ++ "\x7d"

/-- The texts of the items. -/
def compactItems : List Json → List String
  | [] => []
  | v :: rest => compact v :: compactItems rest

/-- The texts of the members. -/
def compactMembers : List (String × Json) → List String
  | [] => []
  | (key, v) :: rest => (quote key ++ ":" ++ compact v) :: compactMembers rest

end

/-- A line break and the indentation of a level. -/
def lineBreak (level : Nat) : String := "\n" ++ String.ofList (List.replicate (2 * level) ' ')

/-- Encloses items that stand on lines of their own; none of them give an empty pair. -/
def enclose (opening closing : String) (level : Nat) (items : List String) : String :=
  if items.isEmpty then opening ++ closing
  else
    opening ++ lineBreak (level + 1) ++ String.intercalate ("," ++ lineBreak (level + 1)) items ++
      lineBreak level ++ closing

mutual

/-- The text of a value that stands at an indentation level. -/
def prettyAt (level : Nat) : Json → String
  | .null => "null"
  | .boolean b => if b then "true" else "false"
  | .number n => n.text
  | .string s => quote s
  | .array items => enclose "[" "]" level (prettyItems (level + 1) items)
  | .object members => enclose "\x7b" "\x7d" level (prettyMembers (level + 1) members)

/-- The texts of the items. -/
def prettyItems (level : Nat) : List Json → List String
  | [] => []
  | v :: rest => prettyAt level v :: prettyItems level rest

/-- The texts of the members. -/
def prettyMembers (level : Nat) : List (String × Json) → List String
  | [] => []
  | (key, v) :: rest => (quote key ++ ": " ++ prettyAt level v) :: prettyMembers level rest

end

/-- The text of a value with one item a line. -/
def pretty (v : Json) : String := prettyAt 0 v

end Resumable.Json
