import Resumable.Json.Value

/-!
# What a JSON text holds

A text may stop being JSON anywhere. A `Draft` keeps what was read up to there: a container that
was not closed is marked, and a value that could not be read is `missing`. A reader that wants only
part of a text can so decide whether the fault or the data it wanted came first.

Two faults are left inside drafts because a value that is passed over may have them: numbers beyond
the binary range and strings with half a surrogate pair. `value?` is the strict reading of a draft,
and `Json.draft` the draft of a complete value.
-/

namespace Resumable

namespace Json

/-- A JSON value as far as its text could be read. -/
inductive Draft where
  | missing
  | null
  | boolean (value : Bool)
  | number (value : Option Number)
  | string (value : Option String)
  | array (items : List Draft) (closed : Bool)
  | object (members : List (Option String × Draft)) (closed : Bool)
  deriving Repr

namespace Draft

mutual

/-- The text of the draft was read to its end. -/
def isComplete : Draft → Bool
  | .missing => false
  | .array items closed => closed && allComplete items
  | .object members closed => closed && allMembersComplete members
  | _ => true

/-- Every item was read to its end. -/
def allComplete : List Draft → Bool
  | [] => true
  | item :: rest => item.isComplete && allComplete rest

/-- Every member was read to its end. -/
def allMembersComplete : List (Option String × Draft) → Bool
  | [] => true
  | (_, item) :: rest => item.isComplete && allMembersComplete rest

end

mutual

/-- The value of a draft without any fault, whose containers nest at most `levels` deep. -/
def value? (levels : Nat) : Draft → Option Json
  | .missing => none
  | .null => some .null
  | .boolean b => some (.boolean b)
  | .number n => n.map .number
  | .string s => s.map .string
  | .array items closed =>
    if closed && 0 < levels then (values? (levels - 1) items).map .array else none
  | .object members closed =>
    if closed && 0 < levels then (memberValues? (levels - 1) members).map .object else none

/-- The values of the items. -/
def values? (levels : Nat) : List Draft → Option (List Json)
  | [] => some []
  | item :: rest => do
    let v ← item.value? levels
    let vs ← values? levels rest
    return v :: vs

/-- The values of the members. -/
def memberValues? (levels : Nat) : List (Option String × Draft) → Option (List (String × Json))
  | [] => some []
  | (key, item) :: rest => do
    let k ← key
    let v ← item.value? levels
    let vs ← memberValues? levels rest
    return (k, v) :: vs

end

end Draft

mutual

/-- The draft of a complete value. -/
def draft : Json → Draft
  | .null => .null
  | .boolean b => .boolean b
  | .number n => .number (some n)
  | .string s => .string (some s)
  | .array items => .array (draftItems items) true
  | .object members => .object (draftMembers members) true

/-- The drafts of the items. -/
def draftItems : List Json → List Draft
  | [] => []
  | v :: rest => v.draft :: draftItems rest

/-- The drafts of the members. -/
def draftMembers : List (String × Json) → List (Option String × Draft)
  | [] => []
  | (key, v) :: rest => (some key, v.draft) :: draftMembers rest

end

end Json

end Resumable
