import Resumable.Syntax.Form
import Resumable.Syntax.Operator

/-!
# One layer of a tree

A `Kind α` is the form of a node with its fields, where `α` stands in the place of its child nodes.
`children` lists those places in source order, `map` and `traverse` fill them anew, and `form`
forgets all but the form.
-/

namespace Resumable

/-- A form with its fields, with an `α` for every child. -/
inductive Kind (α : Type) where
  /-- A whole source text. -/
  | program (statements : List α)
  | functionDeclaration (name : Option String) (isStatic : Bool) (parameters : List α) (body : α)
  | functionExpression (name : Option String) (parameters : List α) (body : α) (isGenerator : Bool)
  | getAccessorDeclaration (name : String) (isStatic : Bool) (body : α)
  | setAccessorDeclaration (name : String) (isStatic : Bool) (parameter : α) (body : α)
  | classDeclaration (name : String) (members : List α)
  | block (statements : List α)
  /-- Declarations after `var`. -/
  | variableStatement (declarations : List α)
  | variableDeclaration (name : String) (initializer : Option α)
  | expressionStatement (expression : α)
  | ifStatement (condition : α) (thenBranch : α) (elseBranch : Option α)
  | whileStatement (condition : α) (body : α)
  | doWhileStatement (body : α) (condition : α)
  | forStatement (initializer : Option α) (condition : Option α) (incrementor : Option α) (body : α)
  /-- A loop over the keys of an object. The initializer declares or names the loop variable. -/
  | forInStatement (initializer : α) (expression : α) (body : α)
  /-- A loop over the elements of an iterable. -/
  | forEachStatement (initializer : α) (expression : α) (body : α)
  | returnStatement (expression : Option α)
  | breakStatement (label : Option String)
  | continueStatement (label : Option String)
  | throwStatement (expression : α)
  | tryStatement (tried : α) (handler : Option α) (finalizer : Option α)
  | catchClause (binding : String) (body : α)
  | labeledStatement (label : String) (statement : α)
  | emptyStatement
  /-- Written `yield e;`, or `yield for e;` when it iterates over `e`. -/
  | suspensionStatement (isIteration : Bool) (expression : Option α)
  /-- Written `await e;`, or `await x = e;` when it binds `x`. -/
  | asyncSuspensionStatement (binding : Option String) (expression : α)
  | identifier (name : String)
  | numericLiteral (value : Float)
  | stringLiteral (value : String)
  | booleanLiteral (value : Bool)
  | nullLiteral
  | thisExpression
  | arrayLiteral (elements : List α)
  | objectLiteral (properties : List α)
  | propertyAssignment (name : String) (value : α)
  | callExpression (callee : α) (arguments : List α)
  | newExpression (callee : α) (arguments : List α)
  | propertyAccess (object : α) (name : String)
  | elementAccess (object : α) (index : α)
  | binaryExpression (operator : BinaryOperator) (left : α) (right : α)
  | unaryExpression (operator : UnaryOperator) (operand : α)
  | updateExpression (operator : UpdateOperator) (isPrefix : Bool) (operand : α)
  | conditionalExpression (condition : α) (whenTrue : α) (whenFalse : α)
  /-- A `yield` inside an expression, as in the body of a generator. -/
  | yieldExpression (expression : Option α)
  deriving Repr, DecidableEq

namespace Kind

variable {α β : Type}

/-- The form of a kind. -/
def form : Kind α → Form
  | .program .. => .program
  | .functionDeclaration .. => .functionDeclaration
  | .functionExpression .. => .functionExpression
  | .getAccessorDeclaration .. => .getAccessorDeclaration
  | .setAccessorDeclaration .. => .setAccessorDeclaration
  | .classDeclaration .. => .classDeclaration
  | .block .. => .block
  | .variableStatement .. => .variableStatement
  | .variableDeclaration .. => .variableDeclaration
  | .expressionStatement .. => .expressionStatement
  | .ifStatement .. => .ifStatement
  | .whileStatement .. => .whileStatement
  | .doWhileStatement .. => .doWhileStatement
  | .forStatement .. => .forStatement
  | .forInStatement .. => .forInStatement
  | .forEachStatement .. => .forEachStatement
  | .returnStatement .. => .returnStatement
  | .breakStatement .. => .breakStatement
  | .continueStatement .. => .continueStatement
  | .throwStatement .. => .throwStatement
  | .tryStatement .. => .tryStatement
  | .catchClause .. => .catchClause
  | .labeledStatement .. => .labeledStatement
  | .emptyStatement => .emptyStatement
  | .suspensionStatement .. => .suspensionStatement
  | .asyncSuspensionStatement .. => .asyncSuspensionStatement
  | .identifier .. => .identifier
  | .numericLiteral .. => .numericLiteral
  | .stringLiteral .. => .stringLiteral
  | .booleanLiteral .. => .booleanLiteral
  | .nullLiteral => .nullLiteral
  | .thisExpression => .thisExpression
  | .arrayLiteral .. => .arrayLiteral
  | .objectLiteral .. => .objectLiteral
  | .propertyAssignment .. => .propertyAssignment
  | .callExpression .. => .callExpression
  | .newExpression .. => .newExpression
  | .propertyAccess .. => .propertyAccess
  | .elementAccess .. => .elementAccess
  | .binaryExpression .. => .binaryExpression
  | .unaryExpression .. => .unaryExpression
  | .updateExpression .. => .updateExpression
  | .conditionalExpression .. => .conditionalExpression
  | .yieldExpression .. => .yieldExpression

/-- The children in source order. -/
def children : Kind α → List α
  | .program statements => statements
  | .functionDeclaration _ _ parameters body => parameters ++ [body]
  | .functionExpression _ parameters body _ => parameters ++ [body]
  | .getAccessorDeclaration _ _ body => [body]
  | .setAccessorDeclaration _ _ parameter body => [parameter, body]
  | .classDeclaration _ members => members
  | .block statements => statements
  | .variableStatement declarations => declarations
  | .variableDeclaration _ initializer => initializer.toList
  | .expressionStatement expression => [expression]
  | .ifStatement condition thenBranch elseBranch => condition :: thenBranch :: elseBranch.toList
  | .whileStatement condition body => [condition, body]
  | .doWhileStatement body condition => [body, condition]
  | .forStatement initializer condition incrementor body =>
    initializer.toList ++ condition.toList ++ incrementor.toList ++ [body]
  | .forInStatement initializer expression body => [initializer, expression, body]
  | .forEachStatement initializer expression body => [initializer, expression, body]
  | .returnStatement expression => expression.toList
  | .breakStatement .. => []
  | .continueStatement .. => []
  | .throwStatement expression => [expression]
  | .tryStatement tried handler finalizer => tried :: (handler.toList ++ finalizer.toList)
  | .catchClause _ body => [body]
  | .labeledStatement _ statement => [statement]
  | .emptyStatement => []
  | .suspensionStatement _ expression => expression.toList
  | .asyncSuspensionStatement _ expression => [expression]
  | .identifier .. => []
  | .numericLiteral .. => []
  | .stringLiteral .. => []
  | .booleanLiteral .. => []
  | .nullLiteral => []
  | .thisExpression => []
  | .arrayLiteral elements => elements
  | .objectLiteral properties => properties
  | .propertyAssignment _ value => [value]
  | .callExpression callee arguments => callee :: arguments
  | .newExpression callee arguments => callee :: arguments
  | .propertyAccess object _ => [object]
  | .elementAccess object index => [object, index]
  | .binaryExpression _ left right => [left, right]
  | .unaryExpression _ operand => [operand]
  | .updateExpression _ _ operand => [operand]
  | .conditionalExpression condition whenTrue whenFalse => [condition, whenTrue, whenFalse]
  | .yieldExpression expression => expression.toList

/-- Applies a function to every child. -/
def map (f : α → β) : Kind α → Kind β
  | .program statements => .program (statements.map f)
  | .functionDeclaration name isStatic parameters body =>
    .functionDeclaration name isStatic (parameters.map f) (f body)
  | .functionExpression name parameters body isGenerator =>
    .functionExpression name (parameters.map f) (f body) isGenerator
  | .getAccessorDeclaration name isStatic body => .getAccessorDeclaration name isStatic (f body)
  | .setAccessorDeclaration name isStatic parameter body =>
    .setAccessorDeclaration name isStatic (f parameter) (f body)
  | .classDeclaration name members => .classDeclaration name (members.map f)
  | .block statements => .block (statements.map f)
  | .variableStatement declarations => .variableStatement (declarations.map f)
  | .variableDeclaration name initializer => .variableDeclaration name (initializer.map f)
  | .expressionStatement expression => .expressionStatement (f expression)
  | .ifStatement condition thenBranch elseBranch =>
    .ifStatement (f condition) (f thenBranch) (elseBranch.map f)
  | .whileStatement condition body => .whileStatement (f condition) (f body)
  | .doWhileStatement body condition => .doWhileStatement (f body) (f condition)
  | .forStatement initializer condition incrementor body =>
    .forStatement (initializer.map f) (condition.map f) (incrementor.map f) (f body)
  | .forInStatement initializer expression body =>
    .forInStatement (f initializer) (f expression) (f body)
  | .forEachStatement initializer expression body =>
    .forEachStatement (f initializer) (f expression) (f body)
  | .returnStatement expression => .returnStatement (expression.map f)
  | .breakStatement label => .breakStatement label
  | .continueStatement label => .continueStatement label
  | .throwStatement expression => .throwStatement (f expression)
  | .tryStatement tried handler finalizer =>
    .tryStatement (f tried) (handler.map f) (finalizer.map f)
  | .catchClause binding body => .catchClause binding (f body)
  | .labeledStatement label statement => .labeledStatement label (f statement)
  | .emptyStatement => .emptyStatement
  | .suspensionStatement isIteration expression =>
    .suspensionStatement isIteration (expression.map f)
  | .asyncSuspensionStatement binding expression =>
    .asyncSuspensionStatement binding (f expression)
  | .identifier name => .identifier name
  | .numericLiteral value => .numericLiteral value
  | .stringLiteral value => .stringLiteral value
  | .booleanLiteral value => .booleanLiteral value
  | .nullLiteral => .nullLiteral
  | .thisExpression => .thisExpression
  | .arrayLiteral elements => .arrayLiteral (elements.map f)
  | .objectLiteral properties => .objectLiteral (properties.map f)
  | .propertyAssignment name value => .propertyAssignment name (f value)
  | .callExpression callee arguments => .callExpression (f callee) (arguments.map f)
  | .newExpression callee arguments => .newExpression (f callee) (arguments.map f)
  | .propertyAccess object name => .propertyAccess (f object) name
  | .elementAccess object index => .elementAccess (f object) (f index)
  | .binaryExpression operator left right => .binaryExpression operator (f left) (f right)
  | .unaryExpression operator operand => .unaryExpression operator (f operand)
  | .updateExpression operator isPrefix operand => .updateExpression operator isPrefix (f operand)
  | .conditionalExpression condition whenTrue whenFalse =>
    .conditionalExpression (f condition) (f whenTrue) (f whenFalse)
  | .yieldExpression expression => .yieldExpression (expression.map f)

/-- Runs an action for every child in source order and puts the results in their places. -/
def traverse {m : Type → Type} [Monad m] (f : α → m β) : Kind α → m (Kind β)
  | .program statements => do return .program (← statements.mapM f)
  | .functionDeclaration name isStatic parameters body => do
    return .functionDeclaration name isStatic (← parameters.mapM f) (← f body)
  | .functionExpression name parameters body isGenerator => do
    return .functionExpression name (← parameters.mapM f) (← f body) isGenerator
  | .getAccessorDeclaration name isStatic body => do
    return .getAccessorDeclaration name isStatic (← f body)
  | .setAccessorDeclaration name isStatic parameter body => do
    return .setAccessorDeclaration name isStatic (← f parameter) (← f body)
  | .classDeclaration name members => do return .classDeclaration name (← members.mapM f)
  | .block statements => do return .block (← statements.mapM f)
  | .variableStatement declarations => do return .variableStatement (← declarations.mapM f)
  | .variableDeclaration name initializer => do
    return .variableDeclaration name (← initializer.mapM f)
  | .expressionStatement expression => do return .expressionStatement (← f expression)
  | .ifStatement condition thenBranch elseBranch => do
    return .ifStatement (← f condition) (← f thenBranch) (← elseBranch.mapM f)
  | .whileStatement condition body => do return .whileStatement (← f condition) (← f body)
  | .doWhileStatement body condition => do return .doWhileStatement (← f body) (← f condition)
  | .forStatement initializer condition incrementor body => do
    return .forStatement (← initializer.mapM f) (← condition.mapM f) (← incrementor.mapM f)
      (← f body)
  | .forInStatement initializer expression body => do
    return .forInStatement (← f initializer) (← f expression) (← f body)
  | .forEachStatement initializer expression body => do
    return .forEachStatement (← f initializer) (← f expression) (← f body)
  | .returnStatement expression => do return .returnStatement (← expression.mapM f)
  | .breakStatement label => pure (.breakStatement label)
  | .continueStatement label => pure (.continueStatement label)
  | .throwStatement expression => do return .throwStatement (← f expression)
  | .tryStatement tried handler finalizer => do
    return .tryStatement (← f tried) (← handler.mapM f) (← finalizer.mapM f)
  | .catchClause binding body => do return .catchClause binding (← f body)
  | .labeledStatement label statement => do return .labeledStatement label (← f statement)
  | .emptyStatement => pure .emptyStatement
  | .suspensionStatement isIteration expression => do
    return .suspensionStatement isIteration (← expression.mapM f)
  | .asyncSuspensionStatement binding expression => do
    return .asyncSuspensionStatement binding (← f expression)
  | .identifier name => pure (.identifier name)
  | .numericLiteral value => pure (.numericLiteral value)
  | .stringLiteral value => pure (.stringLiteral value)
  | .booleanLiteral value => pure (.booleanLiteral value)
  | .nullLiteral => pure .nullLiteral
  | .thisExpression => pure .thisExpression
  | .arrayLiteral elements => do return .arrayLiteral (← elements.mapM f)
  | .objectLiteral properties => do return .objectLiteral (← properties.mapM f)
  | .propertyAssignment name value => do return .propertyAssignment name (← f value)
  | .callExpression callee arguments => do
    return .callExpression (← f callee) (← arguments.mapM f)
  | .newExpression callee arguments => do return .newExpression (← f callee) (← arguments.mapM f)
  | .propertyAccess object name => do return .propertyAccess (← f object) name
  | .elementAccess object index => do return .elementAccess (← f object) (← f index)
  | .binaryExpression operator left right => do
    return .binaryExpression operator (← f left) (← f right)
  | .unaryExpression operator operand => do return .unaryExpression operator (← f operand)
  | .updateExpression operator isPrefix operand => do
    return .updateExpression operator isPrefix (← f operand)
  | .conditionalExpression condition whenTrue whenFalse => do
    return .conditionalExpression (← f condition) (← f whenTrue) (← f whenFalse)
  | .yieldExpression expression => do return .yieldExpression (← expression.mapM f)

/-! ## Laws -/

@[simp] theorem form_map (f : α → β) (k : Kind α) : (k.map f).form = k.form := by
  cases k <;> rfl

private theorem toList_map (f : α → β) (o : Option α) : (o.map f).toList = o.toList.map f := by
  cases o <;> rfl

@[simp] theorem children_map (f : α → β) (k : Kind α) :
    (k.map f).children = k.children.map f := by
  cases k <;> simp [map, children, toList_map]

@[simp] theorem map_map {γ : Type} (g : β → γ) (f : α → β) (k : Kind α) :
    (k.map f).map g = k.map (g ∘ f) := by
  cases k <;> simp [map]

theorem map_id' (k : Kind α) : k.map (fun a => a) = k := by
  cases k <;> simp [map]

end Kind

end Resumable
