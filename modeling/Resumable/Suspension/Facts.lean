import Resumable.Syntax.Walk

/-!
# How a body suspends

`Facts.of` looks at the own scope of one function body and notes which suspensions and for-in loops
it holds. Functions inside the body are scopes of their own and count for nothing.
-/

namespace Resumable

/-- What one function's own scope holds. -/
structure Facts where
  /-- A `yield`, as a statement or inside an expression. -/
  hasSuspension : Bool
  /-- The last `yield` in source order iterates. -/
  isIteration : Bool
  /-- A loop over the keys of an object. -/
  hasForIn : Bool
  /-- An `await`. -/
  hasAsyncSuspension : Bool
  deriving Repr, DecidableEq

namespace Facts

/-- The facts of an empty scope. -/
def none : Facts := ⟨false, false, false, false⟩

/-- The scope suspends in one way or another. -/
def suspends (facts : Facts) : Bool := facts.hasSuspension || facts.hasAsyncSuspension

/-- Notes what a node adds to the nodes before it. -/
def note (node : Node) (facts : Facts) : Facts :=
  match node.kind with
  | .suspensionStatement isIteration _ =>
    { facts with hasSuspension := true, isIteration := isIteration }
  | .yieldExpression _ => { facts with hasSuspension := true, isIteration := false }
  | .asyncSuspensionStatement _ _ => { facts with hasAsyncSuspension := true }
  | .forInStatement _ _ _ => { facts with hasForIn := true }
  | _ => facts

/-- The facts of the scope of a body. -/
def of (body : Node) : Facts :=
  let walk : StateM Facts Unit := body.walkOwnScope fun node => modify (note node)
  (walk.run none).2

end Facts

/-! ## What is to be done -/

/-- The engine that takes a suspending body in the end. -/
inductive Target where
  | generator
  | async
  deriving Repr, DecidableEq

/-- The steps that lower a suspending body. -/
structure Plan where
  lowerForIn : Bool
  desugarIteration : Bool
  target : Target
  deriving Repr, DecidableEq

/-- The plan for a body with these facts; a body that does not suspend has none. A body that both
yields and awaits becomes a generator. -/
def Plan.ofFacts (facts : Facts) : Option Plan :=
  if facts.suspends then
    some {
      lowerForIn := facts.hasForIn
      desugarIteration := facts.isIteration
      target := if facts.hasSuspension then .generator else .async }
  else none

end Resumable
