/-!
# The forms of a node

Every node of a tree has one of 44 forms, each with a name. The order of `Form.all` numbers them.
-/

namespace Resumable

/-- What a node is: a declaration, a kind of statement or a kind of expression. -/
inductive Form where
  | program
  | functionDeclaration
  | functionExpression
  | getAccessorDeclaration
  | setAccessorDeclaration
  | classDeclaration
  | block
  | variableStatement
  | variableDeclaration
  | expressionStatement
  | ifStatement
  | whileStatement
  | doWhileStatement
  | forStatement
  | forInStatement
  | forEachStatement
  | returnStatement
  | breakStatement
  | continueStatement
  | throwStatement
  | tryStatement
  | catchClause
  | labeledStatement
  | emptyStatement
  | suspensionStatement
  | asyncSuspensionStatement
  | identifier
  | numericLiteral
  | stringLiteral
  | booleanLiteral
  | nullLiteral
  | thisExpression
  | arrayLiteral
  | objectLiteral
  | propertyAssignment
  | callExpression
  | newExpression
  | propertyAccess
  | elementAccess
  | binaryExpression
  | unaryExpression
  | updateExpression
  | conditionalExpression
  | yieldExpression
  deriving Repr, DecidableEq

namespace Form

/-- The name of a form. -/
def name : Form → String
  | .program => "Program"
  | .functionDeclaration => "FunctionDeclaration"
  | .functionExpression => "FunctionExpression"
  | .getAccessorDeclaration => "GetAccessorDeclaration"
  | .setAccessorDeclaration => "SetAccessorDeclaration"
  | .classDeclaration => "ClassDeclaration"
  | .block => "Block"
  | .variableStatement => "VariableStatement"
  | .variableDeclaration => "VariableDeclaration"
  | .expressionStatement => "ExpressionStatement"
  | .ifStatement => "IfStatement"
  | .whileStatement => "WhileStatement"
  | .doWhileStatement => "DoWhileStatement"
  | .forStatement => "ForStatement"
  | .forInStatement => "ForInStatement"
  | .forEachStatement => "ForEachStatement"
  | .returnStatement => "ReturnStatement"
  | .breakStatement => "BreakStatement"
  | .continueStatement => "ContinueStatement"
  | .throwStatement => "ThrowStatement"
  | .tryStatement => "TryStatement"
  | .catchClause => "CatchClause"
  | .labeledStatement => "LabeledStatement"
  | .emptyStatement => "EmptyStatement"
  | .suspensionStatement => "SuspensionStatement"
  | .asyncSuspensionStatement => "AsyncSuspensionStatement"
  | .identifier => "Identifier"
  | .numericLiteral => "NumericLiteral"
  | .stringLiteral => "StringLiteral"
  | .booleanLiteral => "BooleanLiteral"
  | .nullLiteral => "NullLiteral"
  | .thisExpression => "ThisExpression"
  | .arrayLiteral => "ArrayLiteral"
  | .objectLiteral => "ObjectLiteral"
  | .propertyAssignment => "PropertyAssignment"
  | .callExpression => "CallExpression"
  | .newExpression => "NewExpression"
  | .propertyAccess => "PropertyAccess"
  | .elementAccess => "ElementAccess"
  | .binaryExpression => "BinaryExpression"
  | .unaryExpression => "UnaryExpression"
  | .updateExpression => "UpdateExpression"
  | .conditionalExpression => "ConditionalExpression"
  | .yieldExpression => "YieldExpression"

/-- All forms in their order. -/
def all : List Form :=
  [.program, .functionDeclaration, .functionExpression, .getAccessorDeclaration,
    .setAccessorDeclaration, .classDeclaration, .block, .variableStatement, .variableDeclaration,
    .expressionStatement, .ifStatement, .whileStatement, .doWhileStatement, .forStatement,
    .forInStatement, .forEachStatement, .returnStatement, .breakStatement, .continueStatement,
    .throwStatement, .tryStatement, .catchClause, .labeledStatement, .emptyStatement,
    .suspensionStatement, .asyncSuspensionStatement, .identifier, .numericLiteral,
    .stringLiteral, .booleanLiteral, .nullLiteral, .thisExpression, .arrayLiteral,
    .objectLiteral, .propertyAssignment, .callExpression, .newExpression, .propertyAccess,
    .elementAccess, .binaryExpression, .unaryExpression, .updateExpression,
    .conditionalExpression, .yieldExpression]

/-- The declarations whose body may suspend. -/
def isFunctionLike : Form → Bool
  | .functionDeclaration | .getAccessorDeclaration | .setAccessorDeclaration => true
  | _ => false

/-- The forms that open a function scope: what is inside belongs to another function. -/
def isFunctionScope : Form → Bool
  | .functionExpression => true
  | form => form.isFunctionLike

end Form

end Resumable
