import Std.Data.TreeSet
import Resumable.Syntax.Node

/-!
# The names of a tree

`Node.names` is the set of names that a tree uses or binds, at any depth and in function scopes too.
A name that is not in it means nothing in the tree. The nodes still to be looked at are kept in a
list, so that a deep tree is no deeper recursion than a flat one.
-/

namespace Resumable

/-- A set of names, in the order of their characters. -/
abbrev NameSet := Std.TreeSet String

/-- The name that a node by itself uses or binds as a variable, a function, a class or a label.
Property names and the labels of jumps are none of these. -/
def Kind.ownName? {α : Type} : Kind α → Option String
  | .identifier name | .variableDeclaration name _ | .classDeclaration name _ => some name
  | .catchClause binding _ => some binding
  | .labeledStatement label _ => some label
  | .functionDeclaration name? _ _ _ | .functionExpression name? _ _ _ => name?
  | .asyncSuspensionStatement binding? _ => binding?
  | _ => none

namespace Node

/-- The sum of the sizes of trees. -/
def totalSize (sizes : List Nat) : Nat := sizes.foldr (· + ·) 0

theorem totalSize_append (sizes more : List Nat) :
    totalSize (sizes ++ more) = totalSize sizes + totalSize more := by
  induction sizes with
  | nil => simp [totalSize]
  | cons size rest ih =>
    simp only [totalSize, List.cons_append, List.foldr_cons] at ih ⊢
    omega

/-- The number of nodes of a tree. -/
def size (node : Node) : Nat :=
  node.para fun _ parts => 1 + totalSize (parts.children.map (·.2))

theorem size_eq (node : Node) : node.size = 1 + totalSize (node.children.map size) := by
  rw [size, para_eq]
  simp only [Kind.children_map, List.map_map]
  rfl

/-- Adds the names of the pending trees to a set. -/
def namesFrom (names : NameSet) : List Node → NameSet
  | [] => names
  | node :: pending =>
    let names := match node.kind.ownName? with
      | some name => names.insert name
      | none => names
    namesFrom names (node.children ++ pending)
termination_by pending => totalSize (pending.map size)
decreasing_by
  have head : totalSize ((node :: pending).map size) =
      node.size + totalSize (pending.map size) := rfl
  rw [head, List.map_append, totalSize_append, size_eq node]
  omega

/-- The names that a tree uses or binds. -/
def names (node : Node) : NameSet := namesFrom ∅ [node]

end Node

end Resumable
