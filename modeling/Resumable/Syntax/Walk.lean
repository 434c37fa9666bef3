import Resumable.Syntax.Node

/-!
# Walking a tree

A walk meets the nodes of a tree before their children, in source order. At each node an action
says whether the walk goes on to the children. `walkOwnScope` never enters a function scope, so it
meets what belongs to one function alone.
-/

namespace Resumable.Node

variable {m : Type → Type} [Monad m]

/-- Runs `enter` at a node, and then walks its children if `enter` says so. -/
def walk (enter : Node → m Bool) (node : Node) : m Unit :=
  node.para fun node parts => do
    if ← enter node then parts.children.forM (·.2)

theorem walk_eq (enter : Node → m Bool) (node : Node) :
    node.walk enter = (do
      if ← enter node then node.children.forM (walk enter)) := by
  rw [walk, para_eq]
  simp only [Kind.children_map]
  congr 1
  funext descend
  cases descend
  · rfl
  · simp only [if_true, children]
    induction node.kind.children with
    | nil => rfl
    | cons child rest ih =>
      simp only [List.map_cons, List.forM_eq_forM, List.forM_cons] at ih ⊢
      rw [ih]
      rfl

/-- Runs `visit` at every node of one function's own scope. A function scope inside is passed over,
and if the walk begins at one it meets nothing. -/
def walkOwnScope (visit : Node → m Unit) (node : Node) : m Unit :=
  node.walk fun node =>
    if node.isFunctionScope then return false
    else do
      visit node
      return true

end Resumable.Node
