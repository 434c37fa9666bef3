import Resumable.Suspension.Facts
import Resumable.Syntax.Edit

/-!
# The functions of a tree

`FunctionSummary.ofTree` lists the declarations of a tree whose bodies may suspend, in source order
and outer ones before inner ones, each with the facts and the plan of its body as written.
-/

namespace Resumable

/-- A function declaration or accessor, and how its body suspends. -/
structure FunctionSummary where
  form : Form
  name : Option String
  span : Span
  facts : Facts
  plan : Option Plan
  deriving Repr, DecidableEq

namespace FunctionSummary

/-- The name that a function-like node declares. -/
def declaredName? (node : Node) : Option String :=
  match node.kind with
  | .functionDeclaration name _ _ _ => name
  | .getAccessorDeclaration name _ _ | .setAccessorDeclaration name _ _ _ => some name
  | _ => none

/-- The entry of a function-like node. -/
def ofNode? (node : Node) : Option FunctionSummary :=
  if node.isFunctionLike then
    node.body?.map fun body =>
      let facts := Facts.of body
      ⟨node.form, declaredName? node, node.span, facts, Plan.ofFacts facts⟩
  else none

/-- The entries of a tree, function scopes and parameters included. -/
def ofTree (tree : Node) : Array FunctionSummary :=
  let walk : StateM (Array FunctionSummary) Unit := tree.walk fun node => do
    match ofNode? node with
    | some entry => modify (·.push entry)
    | none => pure ()
    return true
  (walk.run #[]).2

end FunctionSummary

end Resumable
