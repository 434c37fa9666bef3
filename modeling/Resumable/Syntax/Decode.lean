import Resumable.Json.Decode
import Resumable.Syntax.Fields
import Resumable.Syntax.Node

/-!
# Trees from data form

A node is read from an object with any order of members. Its span is decoded where it stands, and
all other members only after the whole object is known to be JSON: first the form, then the fields
of that form in the order of the text, and last the fields that are missing. Members that the form
does not have mean nothing.
-/

namespace Resumable

open Json (Fault Draft Found)

/-! ## Spans -/

namespace Span

/-- The ends of a span that were read. -/
structure Ends where
  start : Option UInt32
  stop : Option UInt32

/-- A span read from a draft: from an object or from two items. `overlong` is the fault of more
than two items. -/
def ofDraft (overlong : Nat → Fault) : Draft → Except Fault Span
  | .object members closed => do
    let ends ← Draft.members field? [] ⟨none, none⟩ members
    if !closed then throw .malformed
    match ends with
    | ⟨some start, some stop⟩ => return ⟨start, stop⟩
    | ⟨none, _⟩ => throw (.missingField "start")
    | ⟨_, none⟩ => throw (.missingField "end")
  | .array items closed => do
    let (count, ends) ← Draft.items overlong closed ⟨none, none⟩ 0 [readStart, readStop] items
    match ends with
    | ⟨some start, some stop⟩ => return ⟨start, stop⟩
    | _ => throw (.invalidLength count "struct Span with 2 elements")
  | other => Json.mismatch "struct Span" other
where
  readStart (d : Draft) (ends : Ends) : Except Fault Ends := do
    return { ends with start := some (← d.word) }
  readStop (d : Draft) (ends : Ends) : Except Fault Ends := do
    return { ends with stop := some (← d.word) }
  field? (name : String) : Option (Draft → Ends → Except Fault Ends) :=
    if name = "start" then some readStart
    else if name = "end" then some readStop
    else none

/-- A span inside a value that is complete. -/
def ofJson (v : Json) : Except Fault Span :=
  ofDraft (fun count => .invalidLength count "2 elements in sequence") v.draft

end Span

/-! ## Values of fields -/

/-- A value of another shape than the wanted one. -/
def mismatched {α : Type} (wanted : String) (v : Json) : Except Fault α :=
  .error (.invalidType (Found.ofValue v) wanted)

/-- A value of an enumeration by its name. -/
def named {α : Type} (all : List α) (text : α → String) (name : String) : Except Fault α :=
  match all.find? (text · == name) with
  | some a => .ok a
  | none => .error (.unknownVariant name (all.map text))

/-- An operator: its text, or an object with the text as its only key and nothing as the value. -/
def operatorOfJson {α : Type} (all : List α) (text : α → String) : Json → Except Fault α
  | .string name => named all text name
  | .object [(name, value)] => do
    let operator ← named all text name
    match value with
    | .null | .object [] => return operator
    | other => mismatched "unit" other
  | .object _ => .error (.invalidValue .map "map with a single key")
  | other => mismatched "string or map" other

/-- A form by its name or its number. -/
def Form.ofJson : Json → Except Fault Form
  | .string name => named Form.all Form.name name
  | .number (.integer n) =>
    if n < 0 then .error (.invalidType (.integer n) "variant identifier")
    else match Form.all[n.toNat]? with
      | some form => .ok form
      | none => .error (.invalidValue (.integer n) "variant index 0 <= i < 44")
  | other => mismatched "variant identifier" other

/-- A value that holds no nodes. -/
def FieldValue.ofPlain {ρ : Type} (shape : FieldShape) (v : Json) : Except Fault (FieldValue ρ) :=
  match shape, v with
  | .text, .string s => .ok (.text s)
  | .optionalText, .null => .ok (.optionalText none)
  | .optionalText, .string s => .ok (.optionalText (some s))
  | .flag, .boolean b => .ok (.flag b)
  | .number, .number n => .ok (.number n.toFloat)
  | .binaryOperator, v => .binaryOperator <$> operatorOfJson BinaryOperator.all (·.text) v
  | .unaryOperator, v => .unaryOperator <$> operatorOfJson UnaryOperator.all (·.text) v
  | .updateOperator, v => .updateOperator <$> operatorOfJson UpdateOperator.all (·.text) v
  | .text, v | .optionalText, v => mismatched "a string" v
  | .flag, v => mismatched "a boolean" v
  | .number, v => mismatched "f64" v
  | .nodes, v => mismatched "a sequence" v
  | .node, v | .optionalNode, v => mismatched "struct Node" v

/-! ## Nodes -/

namespace Node

/-- The form that the members name. It is decoded where it is met first. -/
def formOfMembers (form? : Option Form) : List (String × Json) → Except Fault Form
  | [] =>
    match form? with
    | some form => .ok form
    | none => .error (.missingField "kind")
  | (key, value) :: rest =>
    if key = "kind" then
      if form?.isSome then .error (.duplicateField "kind")
      else do formOfMembers (some (← Form.ofJson value)) rest
    else formOfMembers form? rest

/-- The span that the members hold, if any. -/
def spanOfMembers (span? : Option Span) : List (String × Json) → Except Fault Span
  | [] => .ok (span?.getD .synthetic)
  | (key, value) :: rest =>
    if key = "span" then
      if span?.isSome then .error (.duplicateField "span")
      else do spanOfMembers (some (← Span.ofJson value)) rest
    else spanOfMembers span? rest

mutual

/-- A node that stands inside another. -/
def ofJson : Json → Except Fault Node
  | .object members => do
    let span ← spanOfMembers none members
    let form ← formOfMembers none members
    let record : Record Node (Kind Node) := form.record
    let fields ← fieldsOfMembers record.shapes [] members
    return ⟨span, ← record.build (Kind.lookup fields)⟩
  | other => mismatched "struct Node" other

/-- The known fields among the members, each decoded in its turn and none of them twice. -/
def fieldsOfMembers (shapes : List (String × FieldShape)) (fields : List (String × FieldValue Node)) :
    List (String × Json) → Except Fault (List (String × FieldValue Node))
  | [] => .ok fields
  | (key, value) :: rest =>
    match shapes.lookup key with
    | none => fieldsOfMembers shapes fields rest
    | some shape =>
      if (Kind.lookup fields key).isSome then .error (.duplicateField key)
      else do
        let field ← match shape, value with
          | .node, v => .node <$> ofJson v
          | .optionalNode, .null => .ok (.optionalNode none)
          | .optionalNode, v => (.optionalNode ∘ some) <$> ofJson v
          | .nodes, .array items => .nodes <$> ofItems items
          | plain, v => FieldValue.ofPlain plain v
        fieldsOfMembers shapes (fields ++ [(key, field)]) rest

/-- Nodes one after the other. -/
def ofItems : List Json → Except Fault (List Node)
  | [] => .ok []
  | v :: rest => do
    let node ← ofJson v
    let nodes ← ofItems rest
    return node :: nodes

end

/-! ## Whole texts -/

/-- The depth to which containers may nest in the text of a tree. -/
def maxNesting : Nat := 127

/-- Takes the members of the outermost object apart as they are read: the span is decoded on the
way, and the others are kept. -/
def splitMembers (span? : Option Span) : List (Option String × Draft) →
    Except Fault (Option Span × List (String × Json))
  | [] => .ok (span?, [])
  | (none, _) :: _ => .error .malformed
  | (some key, value) :: rest =>
    if key = "span" then
      if span?.isSome then .error (.duplicateField "span")
      else do splitMembers (some (← Span.ofDraft (fun _ => .malformed) value)) rest
    else
      match value.value? (maxNesting - 1) with
      | some v => do
        let (span?, members) ← splitMembers span? rest
        return (span?, (key, v) :: members)
      | none => .error .malformed

/-- A tree from what was read of its text. -/
def ofDraft : Draft → Except Fault Node
  | .object members closed => do
    let (span?, members) ← splitMembers none members
    if !closed then throw .malformed
    let form ← formOfMembers none members
    let record : Record Node (Kind Node) := form.record
    let fields ← fieldsOfMembers record.shapes [] members
    return ⟨span?.getD .synthetic, ← record.build (Kind.lookup fields)⟩
  | other => Json.mismatch "struct Node" other

/-- A tree from its text. -/
def ofText (text : String) : Except Fault Node := Json.decodeText ofDraft text

end Node

end Resumable
