import Resumable.Syntax.Node

/-!
# Editing a tree

An edit answers `none` for a node that it keeps and `some` for the node that replaces it, so what
stays the same is shared between the old tree and the new one. An edit is given by its step, which
sees a node and, beside every child, the action that edits the child. `rebuild` is the step that
changes nothing by itself.
-/

namespace Resumable.Node

variable {m : Type → Type} [Monad m]

/-- Edits the children in source order. The node is built anew, with its span, only if a child
was replaced. -/
def rebuild (node : Node) (parts : Kind (Node × m (Option Node))) : m (Option Node) := do
  let results ← parts.traverse fun (child, edit) => do return (child, ← edit)
  if results.children.any (·.2.isSome) then
    return some ⟨node.span, results.map fun (child, result) => result.getD child⟩
  else return none

/-- Edits a tree by its step. -/
def edit (step : Node → Kind (Node × m (Option Node)) → m (Option Node)) (node : Node) :
    m (Option Node) :=
  node.para step

/-- Edits one function's own scope: function scopes inside are kept, and so is the tree if it is
one itself. -/
def editOwnScope (step : Node → Kind (Node × m (Option Node)) → m (Option Node)) (node : Node) :
    m (Option Node) :=
  node.edit fun node parts => if node.isFunctionScope then return none else step node parts

/-! ## Renaming -/

/-- Replaces every identifier that has a new name by a node without a source. Names of other forms,
as in declarations and labels, are kept. -/
def renameIdentifiers (newName? : String → Option String) (node : Node) : Option Node :=
  Id.run <| node.edit fun node parts =>
    match node.kind with
    | .identifier name =>
      match newName? name with
      | some new => return some (synthetic (.identifier new))
      | none => rebuild node parts
    | _ => rebuild node parts

/-! ## Bodies -/

/-- The body of a function, method or accessor. -/
def body? (node : Node) : Option Node :=
  match node.kind with
  | .functionDeclaration _ _ _ body => some body
  | .functionExpression _ _ body _ => some body
  | .getAccessorDeclaration _ _ body => some body
  | .setAccessorDeclaration _ _ _ body => some body
  | _ => none

/-- The node with another body; a node without one stays as it is. -/
def withBody (node body : Node) : Node :=
  match node.kind with
  | .functionDeclaration name isStatic parameters _ =>
    ⟨node.span, .functionDeclaration name isStatic parameters body⟩
  | .functionExpression name parameters _ isGenerator =>
    ⟨node.span, .functionExpression name parameters body isGenerator⟩
  | .getAccessorDeclaration name isStatic _ =>
    ⟨node.span, .getAccessorDeclaration name isStatic body⟩
  | .setAccessorDeclaration name isStatic parameter _ =>
    ⟨node.span, .setAccessorDeclaration name isStatic parameter body⟩
  | _ => node

/-- Replaces the body, if there is one and it was replaced. -/
def replaceBody (node : Node) (body : Option Node) : Option Node :=
  if node.body?.isSome then body.map node.withBody else none

/-- The name of an identifier. -/
def identifierName? (node : Node) : Option String :=
  match node.kind with
  | .identifier name => some name
  | _ => none

/-- The statements of a block or a program; any other node is a statement itself. -/
def statements (node : Node) : List Node :=
  match node.kind with
  | .block statements | .program statements => statements
  | _ => [node]

end Resumable.Node
