import Resumable.Proofs.Lexing
import Resumable.Syntax.Node

/-!
# The grammar of expressions

The phrases of the language are layered: `Script.Phrase` lists their kinds from those that bind loosest,
and what is a phrase of one kind is also one of the kind before it.  `Script.Derives` has a rule for each
way in which a sequence of tokens is a phrase of a kind, with the tree that it stands for: binary operators
associate to the left, assignments and conditionals to the right, and a `yield` is an assignment.  The
trees say nothing of parentheses and cover no source.

Literals other than words, objects, functions, `new`, holes in arrays and patterns on the left of an
assignment are not covered, nor are the operators that trees have no form for.
-/

namespace Resumable

open Script

/-! ## Phrases -/

namespace Script

/-- The kinds of phrases, from those that bind loosest. -/
inductive Phrase where
  | expression
  | assignment
  | conditional
  | logicalOr
  | logicalAnd
  | equality
  | relational
  | additive
  | multiplicative
  | unary
  | update
  | leftHandSide
  | primary
  deriving Repr, DecidableEq

namespace Phrase

/-- The place of a kind in the list. -/
def rank : Phrase → Nat
  | expression => 0
  | assignment => 1
  | conditional => 2
  | logicalOr => 3
  | logicalAnd => 4
  | equality => 5
  | relational => 6
  | additive => 7
  | multiplicative => 8
  | unary => 9
  | update => 10
  | leftHandSide => 11
  | primary => 12

/-- The kind whose phrases are also of this kind. -/
def next? : Phrase → Option Phrase
  | expression => some assignment
  | assignment => some conditional
  | conditional => some logicalOr
  | logicalOr => some logicalAnd
  | logicalAnd => some equality
  | equality => some relational
  | relational => some additive
  | additive => some multiplicative
  | multiplicative => some unary
  | unary => some update
  | update => some leftHandSide
  | leftHandSide => some primary
  | primary => none

/-- The phrases between which there are operators that associate to the left. -/
def operands? : Phrase → Option Phrase
  | expression => some assignment
  | logicalOr => some logicalAnd
  | logicalAnd => some equality
  | equality => some relational
  | relational => some additive
  | additive => some multiplicative
  | multiplicative => some unary
  | _ => none

end Phrase

end Script

/-! ## Operators -/

namespace BinaryOperator

/-- The token of an operator. -/
def token : BinaryOperator → Token
  | .isIn => .word "in"
  | .instanceOf => .word "instanceof"
  | operator => .mark operator.text

/-- The phrases that an operator forms. -/
def phrase : BinaryOperator → Phrase
  | .comma => .expression
  | .assign => .assignment
  | .logicalOr => .logicalOr
  | .logicalAnd => .logicalAnd
  | .equals | .notEquals | .strictEquals | .strictNotEquals => .equality
  | .lessThan | .lessThanEquals | .greaterThan | .greaterThanEquals | .isIn | .instanceOf => .relational
  | .add | .subtract => .additive
  | .multiply | .divide => .multiplicative

end BinaryOperator

/-- The token of an operator before its operand. -/
def UnaryOperator.token (operator : UnaryOperator) : Token :=
  if operator.isWord then .word operator.text else .mark operator.text

/-- The token of an operator that counts. -/
def UpdateOperator.token (operator : UpdateOperator) : Token := .mark operator.text

/-- The node can be assigned to. -/
def Node.isTarget (node : Node) : Bool :=
  match node.kind with
  | .identifier _ | .propertyAccess .. | .elementAccess .. => true
  | _ => false

namespace Script

/-! ## Words -/

/-- The words that are no names. -/
def reserved : List String :=
  ["await", "break", "case", "catch", "class", "const", "continue", "debugger", "default", "delete", "do",
    "else", "enum", "export", "extends", "false", "finally", "for", "function", "if", "import", "in",
    "instanceof", "new", "null", "return", "super", "switch", "this", "throw", "true", "try", "typeof",
    "var", "void", "while", "with", "yield"]

/-- What a word stands for by itself. -/
def atom? (word : String) : Option (Kind Node) :=
  if word = "this" then some .thisExpression
  else if word = "null" then some .nullLiteral
  else if word = "true" then some (.booleanLiteral true)
  else if word = "false" then some (.booleanLiteral false)
  else if word ∈ reserved then none
  else some (.identifier word)

theorem atom?_identifier {name : String} (free : name ∉ reserved) :
    atom? name = some (.identifier name) := by
  have other : ∀ word ∈ reserved, name ≠ word := fun word isReserved same => free (same ▸ isReserved)
  unfold atom?
  rw [if_neg (other _ (by decide)), if_neg (other _ (by decide)), if_neg (other _ (by decide)),
    if_neg (other _ (by decide)), if_neg free]

/-! ## Rules -/

/-- The tokens of items with commas between them. -/
def listed : List (List Token × Node) → List Token
  | [] => []
  | [item] => item.1
  | item :: rest => item.1 ++ .mark "," :: listed rest

/-- The tokens are a phrase of the kind that stands for the tree. -/
inductive Derives : Phrase → List Token → Node → Prop
  | next {kind next : Phrase} {tokens : List Token} {tree : Node} (isNext : kind.next? = some next)
      (inner : Derives next tokens tree) : Derives kind tokens tree
  | binary {operator : BinaryOperator} {operands : Phrase} {first second : List Token} {left right : Node}
      (between : operator.phrase.operands? = some operands) (isLeft : Derives operator.phrase first left)
      (isRight : Derives operands second right) :
      Derives operator.phrase (first ++ operator.token :: second)
        (.synthetic (.binaryExpression operator left right))
  | yield : Derives .assignment [.word "yield"] (.synthetic (.yieldExpression none))
  | yieldOf {tokens : List Token} {operand : Node} (isOperand : Derives .assignment tokens operand) :
      Derives .assignment (.word "yield" :: tokens) (.synthetic (.yieldExpression (some operand)))
  | assign {first second : List Token} {target value : Node} (isLeft : Derives .leftHandSide first target)
      (isTarget : target.isTarget = true) (isRight : Derives .assignment second value) :
      Derives .assignment (first ++ .mark "=" :: second)
        (.synthetic (.binaryExpression .assign target value))
  | conditional {first second third : List Token} {condition whenTrue whenFalse : Node}
      (isCondition : Derives .logicalOr first condition) (isWhenTrue : Derives .assignment second whenTrue)
      (isWhenFalse : Derives .assignment third whenFalse) :
      Derives .conditional (first ++ .mark "?" :: (second ++ .mark ":" :: third))
        (.synthetic (.conditionalExpression condition whenTrue whenFalse))
  | unary {operator : UnaryOperator} {tokens : List Token} {operand : Node}
      (isOperand : Derives .unary tokens operand) :
      Derives .unary (operator.token :: tokens) (.synthetic (.unaryExpression operator operand))
  | before {operator : UpdateOperator} {tokens : List Token} {operand : Node}
      (isOperand : Derives .unary tokens operand) (isTarget : operand.isTarget = true) :
      Derives .update (operator.token :: tokens) (.synthetic (.updateExpression operator true operand))
  | after {operator : UpdateOperator} {tokens : List Token} {operand : Node}
      (isOperand : Derives .leftHandSide tokens operand) (isTarget : operand.isTarget = true) :
      Derives .update (tokens ++ [operator.token]) (.synthetic (.updateExpression operator false operand))
  | property {tokens : List Token} {object : Node} {name : String}
      (isObject : Derives .leftHandSide tokens object) :
      Derives .leftHandSide (tokens ++ [.mark ".", .word name]) (.synthetic (.propertyAccess object name))
  | element {first second : List Token} {object index : Node}
      (isObject : Derives .leftHandSide first object) (isIndex : Derives .expression second index) :
      Derives .leftHandSide (first ++ .mark "[" :: (second ++ [.mark "]"]))
        (.synthetic (.elementAccess object index))
  | call {tokens : List Token} {callee : Node} {arguments : List (List Token × Node)}
      (isCallee : Derives .leftHandSide tokens callee)
      (each : ∀ item ∈ arguments, Derives .assignment item.1 item.2) :
      Derives .leftHandSide (tokens ++ .mark "(" :: (listed arguments ++ [.mark ")"]))
        (.synthetic (.callExpression callee (arguments.map Prod.snd)))
  | array {elements : List (List Token × Node)}
      (each : ∀ item ∈ elements, Derives .assignment item.1 item.2) :
      Derives .primary (.mark "[" :: (listed elements ++ [.mark "]"]))
        (.synthetic (.arrayLiteral (elements.map Prod.snd)))
  | enclosed {tokens : List Token} {tree : Node} (inner : Derives .expression tokens tree) :
      Derives .primary (.mark "(" :: (tokens ++ [.mark ")"])) tree
  | atom {word : String} {kind : Kind Node} (isAtom : atom? word = some kind) :
      Derives .primary [.word word] (.synthetic kind)

/-- The text is an expression that stands for the tree. -/
def Reads (alphabet : Alphabet) (text : String) (tree : Node) : Prop :=
  ∃ tokens, Scans alphabet text.toList tokens ∧ Derives .expression tokens tree

/-! ## Phrases of several kinds -/

namespace Phrase

variable {kind next inner outer : Phrase}

theorem eq_of_rank (same : inner.rank = outer.rank) : inner = outer := by
  cases inner <;> cases outer <;> first | rfl | cases same

theorem rank_of_next? (isNext : kind.next? = some next) : next.rank = kind.rank + 1 := by
  cases kind <;> cases isNext <;> rfl

theorem rank_le_primary : ∀ kind : Phrase, kind.rank ≤ primary.rank := by
  intro kind
  cases kind <;> decide

theorem exists_next? (lt : outer.rank < inner.rank) : ∃ next, outer.next? = some next := by
  cases outer with
  | primary => exact absurd (rank_le_primary inner) (Nat.not_le.2 lt)
  | _ => exact ⟨_, rfl⟩

theorem next?_of_operands? (between : kind.operands? = some next) : kind.next? = some next := by
  cases kind <;> first | exact between | cases between

/-- What every kind passes on to the one before it holds of all kinds before one for which it holds. -/
theorem lift (holds : Phrase → Prop)
    (step : ∀ {kind next : Phrase}, kind.next? = some next → holds next → holds kind)
    (start : holds inner) (le : outer.rank ≤ inner.rank) : holds outer := by
  obtain ⟨distance, isDistance⟩ := Nat.exists_eq_add_of_le le
  induction distance generalizing outer with
  | zero => exact eq_of_rank isDistance ▸ start
  | succ distance ih =>
    obtain ⟨next, isNext⟩ := exists_next? (show outer.rank < inner.rank by omega)
    have rank := rank_of_next? isNext
    exact step isNext (ih (by omega) (by omega))

end Phrase

/-- A phrase is also one of every kind that binds less tightly. -/
theorem Derives.lift {inner outer : Phrase} {tokens : List Token} {tree : Node}
    (derived : Derives inner tokens tree) (le : outer.rank ≤ inner.rank) : Derives outer tokens tree :=
  Phrase.lift (fun kind => Derives kind tokens tree) .next derived le

end Script

end Resumable
