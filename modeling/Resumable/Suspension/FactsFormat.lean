import Resumable.Suspension.FunctionSummary
import Resumable.Syntax.Encode

/-!
# Facts and plans in data form
-/

namespace Resumable

/-- Facts as an object. -/
def Facts.toJson (facts : Facts) : Json :=
  .object [
    ("hasSuspension", .boolean facts.hasSuspension),
    ("isIterationForm", .boolean facts.isIteration),
    ("hasForIn", .boolean facts.hasForIn),
    ("hasAsyncSuspension", .boolean facts.hasAsyncSuspension)]

/-- The name of a target. -/
def Target.name : Target → String
  | .generator => "generator"
  | .async => "async"

/-- A plan as an object. -/
def Plan.toJson (plan : Plan) : Json :=
  .object [
    ("lowerForIn", .boolean plan.lowerForIn),
    ("desugarIteration", .boolean plan.desugarIteration),
    ("target", .string plan.target.name)]

/-- A plan as an object, or null. -/
def Plan.toJsonOption (plan : Option Plan) : Json := (plan.map Plan.toJson).getD .null

/-- The entry of a function as an object, without a name if it has none. -/
def FunctionSummary.toJson (entry : FunctionSummary) : Json :=
  .object <|
    ("kind", .string entry.form.name) ::
      (entry.name.map fun name => ("name", Json.string name)).toList ++
      [("span", entry.span.toJson), ("facts", entry.facts.toJson),
        ("plan", Plan.toJsonOption entry.plan)]

/-- The entries of a tree as an array. -/
def FunctionSummary.treeToJson (tree : Node) : Json :=
  .array ((FunctionSummary.ofTree tree).toList.map toJson)

end Resumable
