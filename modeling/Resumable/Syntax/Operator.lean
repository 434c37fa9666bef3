/-!
# Operators

The operators of the language, with the text that stands for each of them both in a program and in
the data form of a tree.
-/

namespace Resumable

/-- An operator between two operands; the comma and assignment are among them. -/
inductive BinaryOperator where
  | assign
  | add
  | subtract
  | multiply
  | divide
  | lessThan
  | lessThanEquals
  | greaterThan
  | greaterThanEquals
  | equals
  | notEquals
  | strictEquals
  | strictNotEquals
  | logicalAnd
  | logicalOr
  | isIn
  | instanceOf
  | comma
  deriving Repr, DecidableEq

namespace BinaryOperator

/-- The text of an operator. -/
def text : BinaryOperator → String
  | .assign => "="
  | .add => "+"
  | .subtract => "-"
  | .multiply => "*"
  | .divide => "/"
  | .lessThan => "<"
  | .lessThanEquals => "<="
  | .greaterThan => ">"
  | .greaterThanEquals => ">="
  | .equals => "=="
  | .notEquals => "!="
  | .strictEquals => "==="
  | .strictNotEquals => "!=="
  | .logicalAnd => "&&"
  | .logicalOr => "||"
  | .isIn => "in"
  | .instanceOf => "instanceof"
  | .comma => ","

/-- All operators, in the order in which messages list them. -/
def all : List BinaryOperator :=
  [.assign, .add, .subtract, .multiply, .divide, .lessThan, .lessThanEquals, .greaterThan,
    .greaterThanEquals, .equals, .notEquals, .strictEquals, .strictNotEquals, .logicalAnd,
    .logicalOr, .isIn, .instanceOf, .comma]

end BinaryOperator

/-- An operator before its operand that changes nothing. -/
inductive UnaryOperator where
  | not
  | negate
  | typeOf
  | void
  | delete
  deriving Repr, DecidableEq

namespace UnaryOperator

/-- The text of an operator. -/
def text : UnaryOperator → String
  | .not => "!"
  | .negate => "-"
  | .typeOf => "typeof"
  | .void => "void"
  | .delete => "delete"

/-- The operator is a word, which has to be kept apart from its operand. -/
def isWord : UnaryOperator → Bool
  | .not | .negate => false
  | .typeOf | .void | .delete => true

/-- All operators, in the order in which messages list them. -/
def all : List UnaryOperator := [.not, .negate, .typeOf, .void, .delete]

end UnaryOperator

/-- An operator that counts its operand up or down. -/
inductive UpdateOperator where
  | increment
  | decrement
  deriving Repr, DecidableEq

namespace UpdateOperator

/-- The text of an operator. -/
def text : UpdateOperator → String
  | .increment => "++"
  | .decrement => "--"

/-- All operators, in the order in which messages list them. -/
def all : List UpdateOperator := [.increment, .decrement]

end UpdateOperator

end Resumable
