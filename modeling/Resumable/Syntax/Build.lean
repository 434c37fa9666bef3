import Resumable.Syntax.Node

/-!
# Building nodes

Short names for the nodes that a program makes. They cover no source.
-/

namespace Resumable.Build

open Node (synthetic)

/-! ## Expressions -/

def identifier (name : String) : Node := synthetic (.identifier name)

def number (value : Float) : Node := synthetic (.numericLiteral value)

def string (value : String) : Node := synthetic (.stringLiteral value)

def this : Node := synthetic .thisExpression

def array (elements : List Node) : Node := synthetic (.arrayLiteral elements)

def call (callee : Node) (arguments : List Node) : Node :=
  synthetic (.callExpression callee arguments)

/-- Builds `object.name`. -/
def property (object : Node) (name : String) : Node := synthetic (.propertyAccess object name)

/-- Builds `object.name(arguments)`. -/
def methodCall (object : Node) (name : String) (arguments : List Node) : Node :=
  call (property object name) arguments

/-- Builds `object[index]`. -/
def element (object index : Node) : Node := synthetic (.elementAccess object index)

def binary (operator : BinaryOperator) (left right : Node) : Node :=
  synthetic (.binaryExpression operator left right)

def assignment (target value : Node) : Node := binary .assign target value

def unary (operator : UnaryOperator) (operand : Node) : Node :=
  synthetic (.unaryExpression operator operand)

def not (operand : Node) : Node := unary .not operand

/-- Builds `operand++`. -/
def postfixIncrement (operand : Node) : Node :=
  synthetic (.updateExpression .increment false operand)

/-- Builds `yield operand` as an expression. -/
def yieldExpression (operand : Option Node) : Node := synthetic (.yieldExpression operand)

def functionExpression (parameters : List Node) (body : Node) (isGenerator : Bool) : Node :=
  synthetic (.functionExpression none parameters body isGenerator)

/-! ## Statements -/

def block (statements : List Node) : Node := synthetic (.block statements)

def variableDeclaration (name : String) (initializer : Option Node) : Node :=
  synthetic (.variableDeclaration name initializer)

/-- Builds `var name = initializer;`. -/
def variableStatement (name : String) (initializer : Option Node) : Node :=
  synthetic (.variableStatement [variableDeclaration name initializer])

def expressionStatement (expression : Node) : Node := synthetic (.expressionStatement expression)

/-- Builds `target = value;`. -/
def assignmentStatement (target value : Node) : Node :=
  expressionStatement (assignment target value)

def returnStatement (expression : Option Node) : Node := synthetic (.returnStatement expression)

/-- Builds `continue;`. -/
def continueStatement : Node := synthetic (.continueStatement none)

def ifStatement (condition thenBranch : Node) (elseBranch : Option Node) : Node :=
  synthetic (.ifStatement condition thenBranch elseBranch)

def forStatement (initializer condition incrementor : Option Node) (body : Node) : Node :=
  synthetic (.forStatement initializer condition incrementor body)

def forInStatement (initializer expression body : Node) : Node :=
  synthetic (.forInStatement initializer expression body)

def forEachStatement (initializer expression body : Node) : Node :=
  synthetic (.forEachStatement initializer expression body)

def labeledStatement (label : String) (statement : Node) : Node :=
  synthetic (.labeledStatement label statement)

/-- Builds `yield operand;`, or `yield for operand;`. -/
def suspensionStatement (operand : Option Node) (isIteration : Bool) : Node :=
  synthetic (.suspensionStatement isIteration operand)

/-- Builds `await operand;`, or `await binding = operand;`. -/
def asyncSuspensionStatement (binding : Option String) (operand : Node) : Node :=
  synthetic (.asyncSuspensionStatement binding operand)

end Resumable.Build
