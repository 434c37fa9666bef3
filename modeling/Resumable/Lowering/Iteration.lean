import Resumable.Lowering.Engine
import Resumable.Syntax.Build
import Resumable.Syntax.Edit

/-!
# Yielding every element

A `yield for e;` yields once for each element of `e`. `Iteration.desugar` writes it as a loop,

    for (var element of e) { yield element; }

and hands the loop to the engine for such loops, whose answer takes the place of the statement.
-/

namespace Resumable.Iteration

open Build

variable {σ : Type}

/-- The loop that yields every element of `operand`. -/
def loop (element : String) (span : Span) (operand : Node) : Node :=
  ⟨span, .forEachStatement (variableStatement element none) operand
    (block [suspensionStatement (some (identifier element)) false])⟩

/-- One step: an iterating `yield` with an operand is replaced, and its operand is not looked
into. -/
def step (engines : Engines σ) (node : Node)
    (parts : Kind (Node × StateM (σ × NameSupply) (Option Node))) :
    StateM (σ × NameSupply) (Option Node) :=
  match parts with
  | .suspensionStatement true (some (operand, _)) => do
    let element ← onSecond NameSupply.takeFresh
    let loop := loop element node.span operand
    return some ((← engines.forEach loop).getD loop)
  | _ => node.rebuild parts

/-- Replaces the iterating suspensions of a body's own scope. -/
def desugar (engines : Engines σ) (body : Node) : StateM (σ × NameSupply) (Option Node) :=
  body.editOwnScope (step engines)

end Resumable.Iteration
