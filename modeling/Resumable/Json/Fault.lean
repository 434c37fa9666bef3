import Resumable.Json.Draft
import Resumable.Decimal
import Resumable.Text.Quoted

/-!
# Why a text is not the wanted data

A `Fault` is either a text that is no JSON or a value of the wrong shape. `Fault.message?` words the
latter; a text that is no JSON has no message of its own.
-/

namespace Resumable.Json

/-- What stands where another shape was wanted. -/
inductive Found where
  | null
  | boolean (value : Bool)
  | integer (value : Int)
  | real (value : Float)
  | string (value : String)
  | sequence
  | map
  deriving Repr, DecidableEq

/-- Why a text could not be decoded. -/
inductive Fault where
  /-- The text is not JSON. -/
  | malformed
  | missingField (name : String)
  | duplicateField (name : String)
  | unknownVariant (name : String) (known : List String)
  | invalidType (found : Found) (wanted : String)
  | invalidValue (found : Found) (wanted : String)
  | invalidLength (length : Nat) (wanted : String)
  deriving Repr, DecidableEq

namespace Found

/-- A binary number with at least one place after the point. -/
def realText (x : Float) : String :=
  let text := positionalText x
  if text.toList.contains '.' then text else text ++ ".0"

/-- The words for what was found. -/
def describe : Found → String
  | .null => "null"
  | .boolean b => "boolean `" ++ (if b then "true" else "false") ++ "`"
  | .integer n => "integer `" ++ toString n ++ "`"
  | .real x => "floating point `" ++ realText x ++ "`"
  | .string s => "string " ++ Text.quoted s
  | .sequence => "sequence"
  | .map => "map"

/-- What a number is. -/
def ofNumber : Number → Found
  | .integer n => .integer n
  | .real x => .real x

/-- What a value is. -/
def ofValue : Json → Found
  | .null => .null
  | .boolean b => .boolean b
  | .number n => ofNumber n
  | .string s => .string s
  | .array _ => .sequence
  | .object _ => .map

/-- What a draft is, if that can be told: a container by its opening, all else by its whole text. -/
def ofDraft? : Draft → Option Found
  | .missing => none
  | .null => some .null
  | .boolean b => some (.boolean b)
  | .number n => n.map ofNumber
  | .string s => s.map .string
  | .array _ _ => some .sequence
  | .object _ _ => some .map

end Found

namespace Fault

/-- The names, each in backticks: two of them as alternatives, more as a list. -/
def alternatives (known : List String) : String :=
  let quoted := known.map fun name => "`" ++ name ++ "`"
  match quoted with
  | [only] => only
  | [first, second] => first ++ " or " ++ second
  | _ => "one of " ++ String.intercalate ", " quoted

/-- The words for a value of the wrong shape. -/
def message? : Fault → Option String
  | .malformed => none
  | .missingField name => some ("missing field `" ++ name ++ "`")
  | .duplicateField name => some ("duplicate field `" ++ name ++ "`")
  | .unknownVariant name known =>
    some ("unknown variant `" ++ name ++ "`, expected " ++ alternatives known)
  | .invalidType found wanted =>
    some ("invalid type: " ++ found.describe ++ ", expected " ++ wanted)
  | .invalidValue found wanted =>
    some ("invalid value: " ++ found.describe ++ ", expected " ++ wanted)
  | .invalidLength length wanted =>
    some ("invalid length " ++ toString length ++ ", expected " ++ wanted)

end Fault

end Resumable.Json
