import Resumable.Diagnostic
import Resumable.NameSupply
import Resumable.Syntax.Node

/-!
# Engines

The lowering decides what happens to a body, and its engines do it. An engine gets the state `σ`
that the engines share, and may take names or report; it answers `none` for a tree that it leaves
alone.
-/

namespace Resumable

/-- The engines of a lowering, with a state `σ` of their own. -/
structure Engines (σ : Type) where
  /-- Replaces the for-in loops of a body so that they can be suspended. -/
  forIn : Node → StateM (σ × NameSupply) (Option Node)
  /-- Turns one for-each loop into calls of the iteration protocol. -/
  forEach : Node → StateM (σ × NameSupply) (Option Node)
  /-- Makes a body that yields answer a generator. -/
  generator : Node → StateM (σ × Log) (Option Node)
  /-- Makes a body that awaits answer a promise. -/
  async : Node → StateM (σ × Log) (Option Node)

/-- Runs an action on the second of two states. -/
def onSecond {σ τ α : Type} (action : StateM τ α) : StateM (σ × τ) α := fun (own, state) =>
  let (answer, state) := action.run state
  (answer, own, state)

end Resumable
