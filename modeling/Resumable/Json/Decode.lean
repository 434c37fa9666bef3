import Resumable.Json.Fault
import Resumable.Json.Reader

/-!
# Decoding plain data

The decoders of this module work on drafts, in the order of the text: whatever comes first, a fault
of the text or data of the wrong shape, is the fault that they report.
-/

namespace Resumable.Json

/-- A draft of another shape than the wanted one. -/
def mismatch {α : Type} (wanted : String) (d : Draft) : Except Fault α :=
  match Found.ofDraft? d with
  | some found => .error (.invalidType found wanted)
  | none => .error .malformed

/-- An integer of 32 bits without a sign. -/
def wordOfInteger (n : Int) : Except Fault UInt32 :=
  if 0 ≤ n ∧ n < UInt32.size then .ok n.toNat.toUInt32 else .error (.invalidValue (.integer n) "u32")

namespace Draft

/-- The draft of an integer of 32 bits. -/
def word : Draft → Except Fault UInt32
  | .number (some (.integer n)) => wordOfInteger n
  | d => mismatch "u32" d

/-- The draft of a string. -/
def text : Draft → Except Fault String
  | .string (some s) => .ok s
  | d => mismatch "a string" d

/-- Decodes members one after the other, each known one into the record so far. A member that is
not known may be anything that is complete. -/
def members {ρ : Type} (field? : String → Option (Draft → ρ → Except Fault ρ)) (seen : List String)
    (record : ρ) : List (Option String × Draft) → Except Fault ρ
  | [] => .ok record
  | (none, _) :: _ => .error .malformed
  | (some key, value) :: rest =>
    match field? key with
    | none => if value.isComplete then members field? seen record rest else .error .malformed
    | some decode =>
      if key ∈ seen then .error (.duplicateField key)
      else do members field? (key :: seen) (← decode value record) rest

/-- Decodes items one after the other by their places, and tells how many fields had an item. There
may be fewer items than places, but not more. -/
def items {ρ : Type} (overlong : Nat → Fault) (closed : Bool) (record : ρ) :
    Nat → List (Draft → ρ → Except Fault ρ) → List Draft → Except Fault (Nat × ρ)
  | count, _, [] => if closed then .ok (count, record) else .error .malformed
  | count, [], extra => .error (overlong (count + extra.length))
  | count, decode :: fields, item :: rest => do
    items overlong closed (← decode item record) (count + 1) fields rest

/-- Decodes a record from an object or from items in the order of the fields. Fields that are
missing keep their values from `defaults`. -/
def record {ρ : Type} (wanted : String) (fields : List (String × (Draft → ρ → Except Fault ρ)))
    (defaults : ρ) : Draft → Except Fault ρ
  | .object entries closed => do
    let filled ← members (fun key => fields.lookup key) [] defaults entries
    if closed then return filled else throw .malformed
  | .array entries closed => do
    let (_, filled) ← items (fun _ => .malformed) closed defaults 0 (fields.map (·.2)) entries
    return filled
  | other => mismatch wanted other

end Draft

/-- Decodes a text, of which nothing may be left over. What follows the value is looked at last. -/
def decodeText {α : Type} (decode : Draft → Except Fault α) (text : String) : Except Fault α := do
  let reading := read text
  let a ← decode reading.root
  if reading.exact then return a else throw .malformed

end Resumable.Json
