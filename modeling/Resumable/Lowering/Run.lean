import Resumable.Loop.ForEach
import Resumable.Loop.ForIn
import Resumable.Lowering.Iteration
import Resumable.Lowering.Delegation
import Resumable.Suspension.Facts

/-!
# The lowering

The lowering goes through a tree and replaces every function body that suspends, inner bodies first.
Each body is classified by its own facts, after the bodies inside it were lowered, and sent through
the steps of its plan: for-in loops, iterating suspensions, and at last the generator or the async
engine. Functions nested too deep are reported and left as they are.
-/

namespace Resumable

/-! ## The reference engines -/

/-- The engines that come with the library. -/
def Engines.standard (helpers : Helpers) : Engines Unit where
  forIn body := onSecond (ForIn.lower body)
  forEach loop := onSecond (ForEach.lower helpers.getIterator loop)
  generator body := onSecond (Delegation.lowerGenerator helpers body)
  async body := onSecond (Delegation.lowerAsync helpers body)

namespace Lowering

/-! ## The state of a run -/

/-- What a run did. -/
structure Stats where
  functionsVisited : Nat
  bodiesLowered : Nat
  forInLowered : Nat
  iterationsDesugared : Nat
  generatorBodies : Nat
  asyncBodies : Nat
  depthLimitHits : Nat
  deriving Repr, DecidableEq

/-- Nothing was done. -/
def Stats.zero : Stats := ⟨0, 0, 0, 0, 0, 0, 0⟩

/-- The state of a run: that of the engines, the supply of names, the diagnostics, the number of
functions around the present node, and what was done so far. -/
structure State (σ : Type) where
  engines : σ
  names : NameSupply
  log : Log
  depth : Nat
  stats : Stats

variable {σ : Type}

/-- A step of a run. -/
abbrev Run (σ : Type) := StateM (State σ)

/-- Counts something that was done. -/
def count (change : Stats → Stats) : Run σ Unit :=
  modify fun state => { state with stats := change state.stats }

/-- Lets an engine work with the supply of names. -/
def withNames {α : Type} (action : StateM (σ × NameSupply) α) : Run σ α := fun state =>
  let (answer, engines, names) := action.run (state.engines, state.names)
  (answer, { state with engines, names })

/-- Lets an engine work with the log. -/
def withLog {α : Type} (action : StateM (σ × Log) α) : Run σ α := fun state =>
  let (answer, engines, log) := action.run (state.engines, state.log)
  (answer, { state with engines, log })

/-! ## Depth -/

/-- Goes into a function, unless it stands too deep: then it is reported. -/
def descend (limit : UInt32) (node : Node) : Run σ Bool := do
  if limit.toNat ≤ (← get).depth then
    count fun stats => { stats with depthLimitHits := stats.depthLimitHits + 1 }
    withLog (onSecond (Log.report .nestingTooDeep node.span [toString limit.toNat]))
    return false
  else
    modify fun state => { state with depth := state.depth + 1 }
    return true

/-- Comes back from a function. -/
def ascend : Run σ Unit := modify fun state => { state with depth := state.depth - 1 }

/-! ## Bodies -/

/-- Applies a further stage to what a tree became so far. -/
def andThen (stage : Node → Run σ (Option Node)) (tree : Node) (soFar : Option Node) :
    Run σ (Option Node) := do
  return (← stage (soFar.getD tree)).or soFar

/-- Lowers the for-in loops if the plan says so. -/
def forInStage (engines : Engines σ) (plan : Plan) (body : Node) : Run σ (Option Node) := do
  if plan.lowerForIn then
    count fun stats => { stats with forInLowered := stats.forInLowered + 1 }
    withNames (engines.forIn body)
  else return none

/-- Replaces the iterating suspensions if the plan says so. -/
def iterationStage (engines : Engines σ) (plan : Plan) (body : Node) : Run σ (Option Node) := do
  if plan.desugarIteration then
    count fun stats => { stats with iterationsDesugared := stats.iterationsDesugared + 1 }
    withNames (Iteration.desugar engines body)
  else return none

/-- Hands the body to the engine that the plan names. -/
def targetStage (engines : Engines σ) (plan : Plan) (body : Node) : Run σ (Option Node) := do
  match plan.target with
  | .generator =>
    count fun stats => { stats with generatorBodies := stats.generatorBodies + 1 }
    withLog (engines.generator body)
  | .async =>
    count fun stats => { stats with asyncBodies := stats.asyncBodies + 1 }
    withLog (engines.async body)

/-- Lowers a body, where `inner` lowers the functions inside it. -/
def lowerBody (engines : Engines σ) (body : Node) (inner : Run σ (Option Node)) :
    Run σ (Option Node) := do
  let nested ← inner
  match Plan.ofFacts (Facts.of (nested.getD body)) with
  | none => return nested
  | some plan =>
    count fun stats => { stats with bodiesLowered := stats.bodiesLowered + 1 }
    let walked ← andThen (forInStage engines plan) body nested
    let desugared ← andThen (iterationStage engines plan) body walked
    andThen (targetStage engines plan) body desugared

/-! ## Trees -/

/-- Lowers a function declaration or an accessor. Its parameters are left alone. -/
def lowerFunction (limit : UInt32) (engines : Engines σ) (node : Node)
    (body : Node × Run σ (Option Node)) : Run σ (Option Node) := do
  count fun stats => { stats with functionsVisited := stats.functionsVisited + 1 }
  if ← descend limit node then
    let lowered ← lowerBody engines body.1 body.2
    ascend
    return node.replaceBody lowered
  else return none

/-- One step of the lowering. A function expression is not lowered itself, but counts for the depth
of the functions inside it. -/
def step (limit : UInt32) (engines : Engines σ) (node : Node)
    (parts : Kind (Node × Run σ (Option Node))) : Run σ (Option Node) := do
  match parts with
  | .functionDeclaration _ _ _ body => lowerFunction limit engines node body
  | .getAccessorDeclaration _ _ body => lowerFunction limit engines node body
  | .setAccessorDeclaration _ _ _ body => lowerFunction limit engines node body
  | .functionExpression _ _ _ _ =>
    if ← descend limit node then
      let rebuilt ← node.rebuild parts
      ascend
      return rebuilt
    else return none
  | _ => node.rebuild parts

/-- Takes the names of a tree out of the supply, so that made-up names are new to it. -/
def reserveNames (tree : Node) : Run σ Unit :=
  modify fun state => { state with names := state.names.reserveAll tree.names.toList }

/-- Lowers a tree. -/
def lowerTree (limit : UInt32) (engines : Engines σ) (tree : Node) : Run σ (Option Node) := do
  reserveNames tree
  tree.edit (step limit engines)

/-- What came out of a run. -/
structure Outcome (σ : Type) where
  /-- The lowered tree, or none if nothing was lowered. -/
  tree : Option Node
  engines : σ
  names : NameSupply
  log : Log
  stats : Stats

/-- Runs the lowering. -/
def run (limit : UInt32) (engines : Engines σ) (own : σ) (names : NameSupply) (log : Log)
    (tree : Node) : Outcome σ :=
  let (lowered, state) := (lowerTree limit engines tree).run ⟨own, names, log, 0, .zero⟩
  ⟨lowered, state.engines, state.names, state.log, state.stats⟩

/-- Runs the lowering with the engines of the library. -/
def runStandard (options : Options) (names : NameSupply) (log : Log) (tree : Node) :
    Outcome Unit :=
  run options.maxFunctionDepth (.standard options.helpers) () names log tree

end Lowering

end Resumable
