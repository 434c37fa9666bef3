import Resumable.Decimal
import Resumable.Syntax.Node

/-!
# Program text

`Node.print` writes a tree as source text. The same node is written differently by its place: as an
expression it is enclosed in parentheses when it binds less tightly than the place asks for, as a
statement it stands on a line of its own, and inline it continues a line. `textOf` gives the text that
is common to all places, from the children and their texts.
-/

namespace Resumable

/-! ## How tightly forms bind -/

namespace Precedence

def comma : Nat := 1
def yield : Nat := 2
def assignment : Nat := 3
def conditional : Nat := 4
def unary : Nat := 14
def update : Nat := 15
def function : Nat := 15
def member : Nat := 16
def primary : Nat := 20

/-- The precedence of a binary operator. -/
def ofOperator : BinaryOperator → Nat
  | .comma => comma
  | .assign => assignment
  | .logicalOr => 5
  | .logicalAnd => 6
  | .equals | .notEquals | .strictEquals | .strictNotEquals => 9
  | .lessThan | .lessThanEquals | .greaterThan | .greaterThanEquals | .isIn | .instanceOf => 10
  | .add | .subtract => 12
  | .multiply | .divide => 13

/-- The precedence of a node. A function is a primary expression that still has to be enclosed where
it is called or accessed. -/
def ofKind {α : Type} : Kind α → Nat
  | .yieldExpression _ => yield
  | .conditionalExpression .. => conditional
  | .binaryExpression operator _ _ => ofOperator operator
  | .unaryExpression .. => unary
  | .updateExpression .. => update
  | .callExpression .. | .newExpression .. | .propertyAccess .. | .elementAccess .. => member
  | .functionExpression .. => function
  | _ => primary

end Precedence

/-- The forms that are written as expressions when they stand alone. -/
def Form.isExpression : Form → Bool
  | .identifier | .numericLiteral | .stringLiteral | .booleanLiteral | .nullLiteral
  | .thisExpression | .arrayLiteral | .objectLiteral | .callExpression | .newExpression
  | .propertyAccess | .elementAccess | .binaryExpression | .unaryExpression | .updateExpression
  | .conditionalExpression | .yieldExpression | .functionExpression => true
  | _ => false

/-! ## Literals -/

/-- The literal of a number: all its digits in place, and no sign at zero. -/
def numberLiteral (x : Float) : String := if x == 0 then "0" else positionalText x

/-- The literal of a string: only backslashes and quotes are escaped. -/
def stringLiteral (s : String) : String :=
  "\"" ++ String.ofList (s.toList.flatMap fun c =>
    if c = '\\' ∨ c = '"' then ['\\', c] else [c]) ++ "\""

/-! ## Places -/

/-- The indentation of a level. -/
def indentation (level : Nat) : String := String.ofList (List.replicate (4 * level) ' ')

/-- A child with its text at every level of indentation. -/
abbrev Part := Node × (Nat → String)

namespace Part

/-- The child on lines of its own. The statements of a program are lines already. -/
def statement (level : Nat) (part : Part) : String :=
  let (node, text) := part
  match node.form with
  | .program => text level
  | .variableStatement => indentation level ++ text level ++ ";\n"
  | form =>
    if form.isExpression || form = .propertyAssignment then
      indentation level ++ text level ++ ";\n"
    else indentation level ++ text level ++ "\n"

/-- The child in the middle of a line. A program or a class begins a new one. -/
def inline (level : Nat) (part : Part) : String :=
  let (node, text) := part
  match node.form with
  | .program | .classDeclaration => "\n" ++ part.statement level
  | .variableStatement => text level ++ ";"
  | form =>
    if form.isExpression || form = .propertyAssignment then text level ++ ";" else text level

/-- The child as an expression in a place that asks for a precedence of at least `least`. -/
def expression (least level : Nat) (part : Part) : String :=
  let (node, text) := part
  let form := node.form
  let shown :=
    if form.isExpression || form = .propertyAssignment then text level else part.inline level
  if Precedence.ofKind node.kind < least then "(" ++ shown ++ ")" else shown

/-- The child in the head of a loop, where declarations have no semicolon. -/
def loopHead (level : Nat) (part : Part) : String :=
  if part.1.form = .variableStatement then part.2 level else part.expression 0 level

/-- The child among declarations. -/
def declaration (level : Nat) (part : Part) : String :=
  if part.1.form = .variableDeclaration then part.2 level else ""

/-- The child among the properties of an object literal. -/
def property (level : Nat) (part : Part) : String :=
  let form := part.1.form
  if form = .propertyAssignment ∨ form.isFunctionScope then part.2 level else ""

/-- Expressions with commas between them. -/
def list (level : Nat) (parts : List Part) : String :=
  String.intercalate ", " (parts.map (expression (Precedence.comma + 1) level))

/-- Statements one after the other. -/
def statements (level : Nat) (parts : List Part) : String :=
  String.join (parts.map (statement level))

/-- A child that may be absent, after a text that is written only if it is there. -/
def optional (lead : String) (write : Part → String) : Option Part → String
  | none => ""
  | some part => lead ++ write part

end Part

/-! ## Texts -/

/-- A keyword with a label. -/
def jumpText (keyword : String) : Option String → String
  | none => keyword ++ ";"
  | some label => keyword ++ " " ++ label ++ ";"

/-- The word before a static member. -/
def staticText (isStatic : Bool) : String := if isStatic then "static " else ""

/-- The text of a kind at a level of indentation, without what its place adds. -/
def Kind.textOf (level : Nat) : Kind Part → String
  | .program statements => Part.statements level statements
  | .functionDeclaration name isStatic parameters body =>
    staticText isStatic ++ "function" ++ (name.map (" " ++ ·)).getD "" ++
      "(" ++ Part.list level parameters ++ ") " ++ body.inline level
  | .functionExpression name parameters body isGenerator =>
    (if isGenerator then "function* " else "function ") ++ name.getD "" ++
      "(" ++ Part.list level parameters ++ ") " ++ body.inline level
  | .getAccessorDeclaration name isStatic body =>
    staticText isStatic ++ "get " ++ name ++ "() " ++ body.inline level
  | .setAccessorDeclaration name isStatic parameter body =>
    staticText isStatic ++ "set " ++ name ++ "(" ++ parameter.expression 0 level ++ ") " ++
      body.inline level
  | .classDeclaration name members =>
    "class " ++ name ++ " \x7b\n" ++ Part.statements (level + 1) members ++
      indentation level ++ "\x7d"
  | .block statements =>
    if statements.isEmpty then "\x7b \x7d"
    else "\x7b\n" ++ Part.statements (level + 1) statements ++ indentation level ++ "\x7d"
  | .variableStatement declarations =>
    "var " ++ String.intercalate ", " (declarations.map (Part.declaration level))
  | .variableDeclaration name initializer =>
    name ++ Part.optional " = " (Part.expression (Precedence.comma + 1) level) initializer
  | .expressionStatement expression => expression.expression 0 level ++ ";"
  | .ifStatement condition thenBranch elseBranch =>
    "if (" ++ condition.expression 0 level ++ ") " ++ thenBranch.inline level ++
      Part.optional " else " (Part.inline level) elseBranch
  | .whileStatement condition body =>
    "while (" ++ condition.expression 0 level ++ ") " ++ body.inline level
  | .doWhileStatement body condition =>
    "do " ++ body.inline level ++ " while (" ++ condition.expression 0 level ++ ");"
  | .forStatement initializer condition incrementor body =>
    "for (" ++ Part.optional "" (Part.loopHead level) initializer ++
      ";" ++ Part.optional " " (Part.expression 0 level) condition ++
      ";" ++ Part.optional " " (Part.expression 0 level) incrementor ++ ") " ++ body.inline level
  | .forInStatement initializer expression body =>
    "for (" ++ initializer.loopHead level ++ " in " ++ expression.expression 0 level ++ ") " ++
      body.inline level
  | .forEachStatement initializer expression body =>
    "for (" ++ initializer.loopHead level ++ " of " ++ expression.expression 0 level ++ ") " ++
      body.inline level
  | .returnStatement expression =>
    "return" ++ Part.optional " " (Part.expression 0 level) expression ++ ";"
  | .breakStatement label => jumpText "break" label
  | .continueStatement label => jumpText "continue" label
  | .throwStatement expression => "throw " ++ expression.expression 0 level ++ ";"
  | .tryStatement tried handler finalizer =>
    "try " ++ tried.inline level ++ Part.optional " " (Part.inline level) handler ++
      Part.optional " finally " (Part.inline level) finalizer
  | .catchClause binding body => "catch (" ++ binding ++ ") " ++ body.inline level
  | .labeledStatement label statement => label ++ ": " ++ statement.inline level
  | .emptyStatement => ";"
  | .suspensionStatement isIteration expression =>
    (if isIteration then "yield for" else "yield") ++
      Part.optional " " (Part.expression 0 level) expression ++ ";"
  | .asyncSuspensionStatement binding expression =>
    "await " ++ (binding.map (· ++ " = ")).getD "" ++ expression.expression 0 level ++ ";"
  | .identifier name => name
  | .numericLiteral value => numberLiteral value
  | .stringLiteral value => Resumable.stringLiteral value
  | .booleanLiteral value => if value then "true" else "false"
  | .nullLiteral => "null"
  | .thisExpression => "this"
  | .arrayLiteral elements => "[" ++ Part.list level elements ++ "]"
  | .objectLiteral properties =>
    if properties.isEmpty then "\x7b\x7d"
    else "\x7b " ++ String.intercalate ", " (properties.map (Part.property level)) ++ " \x7d"
  | .propertyAssignment name value =>
    name ++ ": " ++ value.expression (Precedence.comma + 1) level
  | .callExpression callee arguments =>
    callee.expression Precedence.member level ++ "(" ++ Part.list level arguments ++ ")"
  | .newExpression callee arguments =>
    "new " ++ callee.expression Precedence.member level ++ "(" ++ Part.list level arguments ++ ")"
  | .propertyAccess object name => object.expression Precedence.member level ++ "." ++ name
  | .elementAccess object index =>
    object.expression Precedence.member level ++ "[" ++ index.expression 0 level ++ "]"
  | .binaryExpression .assign left right =>
    left.expression (Precedence.assignment + 1) level ++ " = " ++
      right.expression Precedence.yield level
  | .binaryExpression operator left right =>
    let precedence := Precedence.ofOperator operator
    let between := if operator = .comma then ", " else " " ++ operator.text ++ " "
    left.expression precedence level ++ between ++ right.expression (precedence + 1) level
  | .unaryExpression operator operand =>
    operator.text ++ (if operator.isWord then " " else "") ++
      operand.expression Precedence.unary level
  | .updateExpression operator isPrefix operand =>
    let shown := operand.expression Precedence.member level
    if isPrefix then operator.text ++ shown else shown ++ operator.text
  | .conditionalExpression condition whenTrue whenFalse =>
    condition.expression (Precedence.conditional + 1) level ++ " ? " ++
      whenTrue.expression Precedence.assignment level ++ " : " ++
      whenFalse.expression Precedence.assignment level
  | .yieldExpression expression =>
    "yield" ++ Part.optional " " (Part.expression Precedence.assignment level) expression

namespace Node

/-- The text of a node at a level of indentation, without what its place adds. -/
def textAt (node : Node) : Nat → String := node.para fun _ parts level => parts.textOf level

/-- The source text of a tree: an expression by itself, anything else as statements. -/
def print (node : Node) : String :=
  let part : Part := (node, node.textAt)
  if node.form.isExpression then part.expression 0 0 else part.statement 0

end Node

end Resumable
