import Resumable.Json.Writer
import Resumable.Syntax.Fields
import Resumable.Syntax.Node

/-!
# Trees in data form

A node is an object: its span unless it covers no source, the name of its form as `kind`, and then
every field of the form. Optional fields are written as null when they are absent.
-/

namespace Resumable

/-- A span as an object. -/
def Span.toJson (span : Span) : Json :=
  .object [("start", Json.ofNat span.start.toNat), ("end", Json.ofNat span.stop.toNat)]

/-- The value of a field, whose nodes are values already. -/
def FieldValue.toJson : FieldValue Json → Json
  | .node v => v
  | .optionalNode v => v.getD .null
  | .nodes vs => .array vs
  | .text s => .string s
  | .optionalText s => Json.ofOption s
  | .flag b => .boolean b
  | .number x => .number (.real x)
  | .binaryOperator o => .string o.text
  | .unaryOperator o => .string o.text
  | .updateOperator o => .string o.text

namespace Node

/-- The object of a node whose children are values already. -/
def encodeLayer (span : Span) (kind : Kind Json) : Json :=
  .object <|
    (if span = .synthetic then [] else [("span", span.toJson)]) ++
      ("kind", .string kind.form.name) ::
        kind.fields.map fun (name, value) => (name, value.toJson)

/-- A tree in data form. -/
def toJson (node : Node) : Json :=
  node.para fun node parts => encodeLayer node.span (parts.map (·.2))

theorem toJson_eq (node : Node) :
    node.toJson = encodeLayer node.span (node.kind.map toJson) := by
  rw [toJson, para_eq]
  simp only [Kind.map_map]
  rfl

end Node

end Resumable
