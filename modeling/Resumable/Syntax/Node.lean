import Resumable.Span
import Resumable.Syntax.Kind

/-!
# Trees

A `Node` is a span and a kind whose children are nodes. `Node.para` is recursion over a tree: what a
node means is computed from the node and its kind, in which every child stands beside its own
meaning. `Node.inductionOn` is the matching proof rule, by the children of a node.
-/

namespace Resumable

/-- A node of a tree: the source range it covers, and its form with its children. -/
inductive Node where
  | mk (span : Span) (kind : Kind Node)
  deriving Repr

namespace Node

/-- The source range that a node covers. -/
def span : Node → Span
  | ⟨span, _⟩ => span

/-- The form of a node with its fields and children. -/
def kind : Node → Kind Node
  | ⟨_, kind⟩ => kind

/-- A node that covers no source. -/
def synthetic (kind : Kind Node) : Node := ⟨.synthetic, kind⟩

/-- The children in source order. -/
def children (node : Node) : List Node := node.kind.children

/-- The form of a node. -/
def form (node : Node) : Form := node.kind.form

/-- The node is a declaration whose body may suspend. -/
def isFunctionLike (node : Node) : Bool := node.form.isFunctionLike

/-- The node opens a function scope. -/
def isFunctionScope (node : Node) : Bool := node.form.isFunctionScope

/-! ## Recursion -/

variable {β : Type}

mutual

/-- Recursion over a tree. `step` gets a node and its kind with the meaning of every child. -/
def para (step : Node → Kind (Node × β) → β) : Node → β
  | ⟨span, kind⟩ => step ⟨span, kind⟩ (paraKind step kind)

/-- The children of a kind with their meanings. -/
def paraKind (step : Node → Kind (Node × β) → β) : Kind Node → Kind (Node × β)
  | .program statements => .program (paraList step statements)
  | .functionDeclaration name isStatic parameters body =>
    .functionDeclaration name isStatic (paraList step parameters) (body, para step body)
  | .functionExpression name parameters body isGenerator =>
    .functionExpression name (paraList step parameters) (body, para step body) isGenerator
  | .getAccessorDeclaration name isStatic body =>
    .getAccessorDeclaration name isStatic (body, para step body)
  | .setAccessorDeclaration name isStatic parameter body =>
    .setAccessorDeclaration name isStatic (parameter, para step parameter) (body, para step body)
  | .classDeclaration name members => .classDeclaration name (paraList step members)
  | .block statements => .block (paraList step statements)
  | .variableStatement declarations => .variableStatement (paraList step declarations)
  | .variableDeclaration name initializer =>
    .variableDeclaration name (paraOption step initializer)
  | .expressionStatement expression => .expressionStatement (expression, para step expression)
  | .ifStatement condition thenBranch elseBranch =>
    .ifStatement (condition, para step condition) (thenBranch, para step thenBranch)
      (paraOption step elseBranch)
  | .whileStatement condition body =>
    .whileStatement (condition, para step condition) (body, para step body)
  | .doWhileStatement body condition =>
    .doWhileStatement (body, para step body) (condition, para step condition)
  | .forStatement initializer condition incrementor body =>
    .forStatement (paraOption step initializer) (paraOption step condition)
      (paraOption step incrementor) (body, para step body)
  | .forInStatement initializer expression body =>
    .forInStatement (initializer, para step initializer) (expression, para step expression)
      (body, para step body)
  | .forEachStatement initializer expression body =>
    .forEachStatement (initializer, para step initializer) (expression, para step expression)
      (body, para step body)
  | .returnStatement expression => .returnStatement (paraOption step expression)
  | .breakStatement label => .breakStatement label
  | .continueStatement label => .continueStatement label
  | .throwStatement expression => .throwStatement (expression, para step expression)
  | .tryStatement tried handler finalizer =>
    .tryStatement (tried, para step tried) (paraOption step handler) (paraOption step finalizer)
  | .catchClause binding body => .catchClause binding (body, para step body)
  | .labeledStatement label statement => .labeledStatement label (statement, para step statement)
  | .emptyStatement => .emptyStatement
  | .suspensionStatement isIteration expression =>
    .suspensionStatement isIteration (paraOption step expression)
  | .asyncSuspensionStatement binding expression =>
    .asyncSuspensionStatement binding (expression, para step expression)
  | .identifier name => .identifier name
  | .numericLiteral value => .numericLiteral value
  | .stringLiteral value => .stringLiteral value
  | .booleanLiteral value => .booleanLiteral value
  | .nullLiteral => .nullLiteral
  | .thisExpression => .thisExpression
  | .arrayLiteral elements => .arrayLiteral (paraList step elements)
  | .objectLiteral properties => .objectLiteral (paraList step properties)
  | .propertyAssignment name value => .propertyAssignment name (value, para step value)
  | .callExpression callee arguments =>
    .callExpression (callee, para step callee) (paraList step arguments)
  | .newExpression callee arguments =>
    .newExpression (callee, para step callee) (paraList step arguments)
  | .propertyAccess object name => .propertyAccess (object, para step object) name
  | .elementAccess object index =>
    .elementAccess (object, para step object) (index, para step index)
  | .binaryExpression operator left right =>
    .binaryExpression operator (left, para step left) (right, para step right)
  | .unaryExpression operator operand => .unaryExpression operator (operand, para step operand)
  | .updateExpression operator isPrefix operand =>
    .updateExpression operator isPrefix (operand, para step operand)
  | .conditionalExpression condition whenTrue whenFalse =>
    .conditionalExpression (condition, para step condition) (whenTrue, para step whenTrue)
      (whenFalse, para step whenFalse)
  | .yieldExpression expression => .yieldExpression (paraOption step expression)

/-- An optional child with its meaning. -/
def paraOption (step : Node → Kind (Node × β) → β) : Option Node → Option (Node × β)
  | none => none
  | some node => some (node, para step node)

/-- A list of children with their meanings. -/
def paraList (step : Node → Kind (Node × β) → β) : List Node → List (Node × β)
  | [] => []
  | node :: rest => (node, para step node) :: paraList step rest

end

private theorem paraOption_eq (step : Node → Kind (Node × β) → β) (o : Option Node) :
    paraOption step o = o.map fun node => (node, node.para step) := by
  cases o <;> rfl

private theorem paraList_eq (step : Node → Kind (Node × β) → β) (nodes : List Node) :
    paraList step nodes = nodes.map fun node => (node, node.para step) := by
  induction nodes with
  | nil => rfl
  | cons node rest ih => simp [paraList, ih]

private theorem paraKind_eq (step : Node → Kind (Node × β) → β) (kind : Kind Node) :
    paraKind step kind = kind.map fun node => (node, node.para step) := by
  cases kind <;> simp [paraKind, Kind.map, paraOption_eq, paraList_eq]

/-- The equation of `para`: every child is replaced by itself and its meaning. -/
theorem para_eq (step : Node → Kind (Node × β) → β) (node : Node) :
    node.para step = step node (node.kind.map fun child => (child, child.para step)) := by
  cases node
  rw [para, paraKind_eq]
  rfl

/-! ## Induction -/

/-- What holds of a node when it holds of its children holds of every node. -/
@[elab_as_elim]
theorem inductionOn {motive : Node → Prop} (node : Node)
    (step : ∀ node : Node, (∀ child ∈ node.children, motive child) → motive node) :
    motive node := by
  refine @Node.rec motive (fun kind => ∀ child ∈ kind.children, motive child)
    (fun nodes => ∀ child ∈ nodes, motive child) (fun o => ∀ child ∈ o.toList, motive child)
    (fun span kind ih => step ⟨span, kind⟩ ih) ?_ ?_ ?_ ?_ ?_ ?_ ?_ ?_ ?_ ?_ ?_ ?_ ?_ ?_ ?_ ?_ ?_
    ?_ ?_ ?_ ?_ ?_ ?_ ?_ ?_ ?_ ?_ ?_ ?_ ?_ ?_ ?_ ?_ ?_ ?_ ?_ ?_ ?_ ?_ ?_ ?_ ?_ ?_ ?_ ?_ ?_ ?_ ?_
    node
  all_goals simp_all [Kind.children, or_imp]

end Node

end Resumable
