import Resumable.Diagnostic
import Resumable.Lowering.Options
import Resumable.Syntax.Build
import Resumable.Syntax.Edit
import Resumable.Syntax.Walk

/-!
# Bodies that a helper runs

A body that suspends becomes the body of a generator function, which a helper drives at run time:

    { return helper(this, function* () { … }); }

`Delegation.lowerGenerator` leaves the body as it is and reports what a generator cannot run.
`Delegation.lowerAsync` writes every `await x = e;` as `x = yield e;` and reports every `yield`.
-/

namespace Resumable.Delegation

open Build

/-- The block that hands a body to a helper, in the place of the body. -/
def delegate (helper : String) (body : Node) : Node :=
  ⟨body.span, .block [returnStatement (some
    (call (identifier helper) [this, functionExpression [] body true]))]⟩

/-! ## Generators -/

/-- Reports a statement that a generator cannot run. -/
def checkGenerator (node : Node) : StateM Log Unit :=
  match node.kind with
  | .suspensionStatement true _ => Log.report .undesugaredIteration node.span []
  | .asyncSuspensionStatement _ _ => Log.report .awaitInGenerator node.span []
  | _ => pure ()

/-- Makes a body a generator. -/
def lowerGenerator (helpers : Helpers) (body : Node) : StateM Log (Option Node) := do
  body.walkOwnScope checkGenerator
  return some (delegate helpers.generator body)

/-! ## Asynchronous bodies -/

/-- The expression that waits for a value and may bind it. -/
def resume (binding : Option String) (operand : Node) : Node :=
  let resumed := yieldExpression (some operand)
  match binding with
  | some name => assignment (identifier name) resumed
  | none => resumed

/-- One step: an `await` is replaced once its operand is edited. A `yield` is reported, and a
`yield` statement is not looked into. -/
def awaitStep (node : Node) (parts : Kind (Node × StateM Log (Option Node))) :
    StateM Log (Option Node) :=
  match parts with
  | .asyncSuspensionStatement binding (operand, edit) => do
    let operand := (← edit).getD operand
    return some ⟨node.span, .expressionStatement (resume binding operand)⟩
  | .suspensionStatement _ _ => do
    Log.report .yieldInAsync node.span []
    return none
  | .yieldExpression _ => do
    Log.report .yieldInAsync node.span []
    node.rebuild parts
  | _ => node.rebuild parts

/-- Makes a body asynchronous. -/
def lowerAsync (helpers : Helpers) (body : Node) : StateM Log (Option Node) := do
  let edited ← body.editOwnScope awaitStep
  return some (delegate helpers.awaiter (edited.getD body))

end Resumable.Delegation
