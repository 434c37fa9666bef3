import Resumable.Loop.Binding
import Resumable.NameSupply
import Resumable.Syntax.Edit

/-!
# For-in loops that can be suspended

The enumeration of a native `for (k in o)` cannot be paused. `ForIn.lower` takes the keys down first
and then walks over the list of them by index:

    {
        var keys = [];
        var collection = o;
        for (var property in collection) keys.push(property);
        for (var index = 0; index < keys.length; index++) {
            if (!(keys[index] in collection)) continue;
            var k = keys[index];
            body
        }
    }

The loop that takes the keys down holds no suspension and stays native. A key that the body deletes
before its turn is passed over, as in a native loop. A label of the loop goes to the walk, where
`continue` still finds a loop.
-/

namespace Resumable.ForIn

open Build

/-- The names that a lowered loop needs. -/
structure Names where
  keys : String
  collection : String
  property : String
  index : String
  deriving Repr, DecidableEq

namespace Names

/-- Takes the names of a loop. -/
def take : StateM NameSupply Names := do
  let keys ← NameSupply.takeFresh
  let collection ← NameSupply.takeFresh
  let property ← NameSupply.takeFresh
  let index ← NameSupply.takeFresh
  return ⟨keys, collection, property, index⟩

/-- Builds `keys[index]`. -/
def currentKey (names : Names) : Node := element (identifier names.keys) (identifier names.index)

/-- Builds `for (var property in collection) keys.push(property);`. -/
def collectKeys (names : Names) : Node :=
  forInStatement (variableStatement names.property none) (identifier names.collection)
    (expressionStatement
      (methodCall (identifier names.keys) "push" [identifier names.property]))

/-- Builds `if (!(keys[index] in collection)) continue;`. -/
def skipDeleted (names : Names) : Node :=
  ifStatement (Build.not (binary .isIn names.currentKey (identifier names.collection)))
    continueStatement none

/-- Builds the walk over the keys, which binds each of them and runs the statements. -/
def walkKeys (names : Names) (initializer : Node) (statements : List Node) : Node :=
  forStatement
    (some (variableStatement names.index (some (number 0))))
    (some (binary .lessThan (identifier names.index) (Build.property (identifier names.keys) "length")))
    (some (postfixIncrement (identifier names.index)))
    (block (names.skipDeleted :: bindVariable initializer names.currentKey :: statements))

end Names

/-- The block that stands for a loop over the keys of `expression`. -/
def loop (names : Names) (label : Option String) (span : Span)
    (initializer expression body : Node) : Node :=
  let walk := names.walkKeys initializer body.statements
  let walk := match label with
    | some label => labeledStatement label walk
    | none => walk
  ⟨span, .block [
    variableStatement names.keys (some (array [])),
    variableStatement names.collection (some expression),
    names.collectKeys,
    walk]⟩

/-- The edit of a tree that is told the label right before it. -/
abbrev Edit := Option String → StateM NameSupply (Option Node)

/-- One step: loops are lowered after the loops inside them, and a label right before a loop is
handed to it. -/
def step (node : Node) (parts : Kind (Node × Edit)) (label : Option String) :
    StateM NameSupply (Option Node) := do
  if node.isFunctionScope then return none
  match parts with
  | .forInStatement initializer expression body =>
    let newInitializer ← initializer.2 none
    let newExpression ← expression.2 none
    let newBody ← body.2 none
    let names ← Names.take
    return some (loop names label node.span (newInitializer.getD initializer.1)
      (newExpression.getD expression.1) (newBody.getD body.1))
  | .labeledStatement inner statement =>
    if statement.1.form = .forInStatement then statement.2 (some inner)
    else node.rebuild (parts.map fun (child, edit) => (child, edit none))
  | _ => node.rebuild (parts.map fun (child, edit) => (child, edit none))

/-- Lowers the for-in loops of a tree's own scope. -/
def lower (tree : Node) : StateM NameSupply (Option Node) := tree.para step none

end Resumable.ForIn
