/-!
# JSON values

A `Json` is a complete value. Objects keep their members in the order of the text, repeated keys
included.
-/

namespace Resumable

namespace Json

/-- A number: an integer when written as one that fits in 64 bits, and a binary number else. -/
inductive Number where
  | integer (value : Int)
  | real (value : Float)
  deriving Repr, DecidableEq

/-- The binary number nearest to a number. -/
def Number.toFloat : Number → Float
  | .integer n =>
    if n < 0 then -Float.ofNat n.natAbs else Float.ofNat n.natAbs
  | .real x => x

end Json

/-- A JSON value. -/
inductive Json where
  | null
  | boolean (value : Bool)
  | number (value : Json.Number)
  | string (value : String)
  | array (items : List Json)
  | object (members : List (String × Json))
  deriving Repr

namespace Json

/-- An optional string, or null. -/
def ofOption : Option String → Json
  | none => .null
  | some s => .string s

/-- A natural number as a value. -/
def ofNat (n : Nat) : Json := .number (.integer n)

/-- The value of the last member of that name. -/
def member? (name : String) : Json → Option Json
  | .object members => (members.reverse.find? (·.1 == name)).map (·.2)
  | _ => none

end Json

end Resumable
