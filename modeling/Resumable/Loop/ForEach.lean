import Resumable.Loop.Binding
import Resumable.NameSupply
import Resumable.Syntax.Edit

/-!
# For-each loops as calls of the iteration protocol

`ForEach.lower` spells out what `for (x of e) body` does:

    {
        var iterator = getIterator(e);
        for (var step = iterator.next(); !step.done; step = iterator.next()) {
            var x = step.value;
            body
        }
    }
-/

namespace Resumable.ForEach

open Build

/-- Builds `iterator.next()`. -/
def next (iterator : String) : Node := methodCall (identifier iterator) "next" []

/-- The block that stands for a loop over the elements of `expression`. -/
def loop (getIterator iterator step : String) (span : Span)
    (initializer expression body : Node) : Node :=
  ⟨span, .block [
    variableStatement iterator (some (call (identifier getIterator) [expression])),
    forStatement
      (some (variableStatement step (some (next iterator))))
      (some (Build.not (property (identifier step) "done")))
      (some (assignment (identifier step) (next iterator)))
      (block (bindVariable initializer (property (identifier step) "value") :: body.statements))]⟩

/-- Lowers a for-each loop, where `getIterator` names the function that gives an iterator. Any other
node is left alone. -/
def lower (getIterator : String) (node : Node) : StateM NameSupply (Option Node) :=
  match node.kind with
  | .forEachStatement initializer expression body => do
    let iterator ← NameSupply.takeFresh
    let step ← NameSupply.takeFresh
    return some (loop getIterator iterator step node.span initializer expression body)
  | _ => return none

end Resumable.ForEach
