import Resumable.Proofs.Grammar

/-!
# The grammar of statements

`Script.Forms` has a rule for each way in which a sequence of tokens is a statement or an expression, with the
tree that it stands for.  The statements are blocks, conditionals, loops, labels, returns and expressions; the
expressions are names, objects, functions, accesses, calls, `new` and assignments, with parentheses where they
are needed.  An `else` belongs to the nearest `if`: what stands in front of one is a statement that is shut, in
which no `if` is open at the end.  An expression that stands as a statement does not begin like a block or a
function.  The callee of a `new` has no call in it outside of parentheses, so the first arguments belong to the
`new`.

What may be assigned to, and where a `return` may stand, is not checked.  A `new` without arguments and a comma
behind the last of several items are not covered.
-/

namespace Resumable.Script

/-! ## Clauses -/

/-- The kinds of clauses. -/
inductive Clause where
  /-- A statement. If it is shut, an `else` behind it does not belong to an `if` in it. -/
  | statement (shut : Bool)
  /-- An expression without a comma. -/
  | expression
  /-- An expression to which accesses can be added, with calls among those it has or not. -/
  | access (called : Bool)
  | primary
  deriving Repr, DecidableEq

/-- Sequences of tokens with commas between them. -/
def commas : List (List Token) → List Token
  | [] => []
  | [tokens] => tokens
  | tokens :: rest => tokens ++ .mark "," :: commas rest

/-- The tokens of what may be absent. -/
def tokensIfAny : Option (List Token × Node) → List Token
  | none => []
  | some part => part.1

/-- The tokens of a property of an object. -/
def propertyTokens (property : String × List Token × Node) : List Token :=
  [.word property.1, .mark ":"] ++ property.2.1

/-- A property of an object. -/
def propertyTree (property : String × List Token × Node) : Node :=
  .synthetic (.propertyAssignment property.1 property.2.2)

/-- The tokens of the head of a function. -/
def functionTokens (isGenerator : Bool) (name : Option String) (parameters : List String) : List Token :=
  [.word "function"] ++ (if isGenerator then [.mark "*"] else []) ++ name.toList.map .word ++ [.mark "("] ++
    commas (parameters.map fun parameter => [.word parameter]) ++ [.mark ")"]

/-- A function. -/
def functionTree (isGenerator : Bool) (name : Option String) (parameters : List String) (body : List Node) :
    Node :=
  .synthetic (.functionExpression name (parameters.map fun parameter => .synthetic (.identifier parameter))
    (.synthetic (.block body)) isGenerator)

/-- The tokens are a clause of the kind that stands for the tree. -/
inductive Forms : Clause → List Token → Node → Prop
  | block {shut : Bool} {items : List (List Token × Node)}
      (each : ∀ item ∈ items, Forms (.statement false) item.1 item.2) :
      Forms (.statement shut) ([.mark "\x7b"] ++ items.flatMap Prod.fst ++ [.mark "\x7d"])
        (.synthetic (.block (items.map Prod.snd)))
  | ifThen {first second : List Token} {condition thenBranch : Node}
      (isCondition : Forms .expression first condition) (isThen : Forms (.statement false) second thenBranch) :
      Forms (.statement false) ([.word "if", .mark "("] ++ first ++ [.mark ")"] ++ second)
        (.synthetic (.ifStatement condition thenBranch none))
  | ifElse {shut : Bool} {first second third : List Token} {condition thenBranch elseBranch : Node}
      (isCondition : Forms .expression first condition) (isThen : Forms (.statement true) second thenBranch)
      (isElse : Forms (.statement shut) third elseBranch) :
      Forms (.statement shut)
        ([.word "if", .mark "("] ++ first ++ [.mark ")"] ++ second ++ ([.word "else"] ++ third))
        (.synthetic (.ifStatement condition thenBranch (some elseBranch)))
  | while {shut : Bool} {first second : List Token} {condition body : Node}
      (isCondition : Forms .expression first condition) (isBody : Forms (.statement shut) second body) :
      Forms (.statement shut) ([.word "while", .mark "("] ++ first ++ [.mark ")"] ++ second)
        (.synthetic (.whileStatement condition body))
  | doWhile {shut : Bool} {first second : List Token} {body condition : Node}
      (isBody : Forms (.statement false) first body) (isCondition : Forms .expression second condition) :
      Forms (.statement shut)
        ([.word "do"] ++ first ++ [.word "while", .mark "("] ++ second ++ [.mark ")", .mark ";"])
        (.synthetic (.doWhileStatement body condition))
  | for {shut : Bool} {initializer condition incrementor : Option (List Token × Node)} {tokens : List Token}
      {body : Node} (isInitializer : ∀ part ∈ initializer, Forms .expression part.1 part.2)
      (isCondition : ∀ part ∈ condition, Forms .expression part.1 part.2)
      (isIncrementor : ∀ part ∈ incrementor, Forms .expression part.1 part.2)
      (isBody : Forms (.statement shut) tokens body) :
      Forms (.statement shut)
        ([.word "for", .mark "("] ++ tokensIfAny initializer ++ [.mark ";"] ++ tokensIfAny condition ++
          [.mark ";"] ++ tokensIfAny incrementor ++ [.mark ")"] ++ tokens)
        (.synthetic (.forStatement (initializer.map Prod.snd) (condition.map Prod.snd)
          (incrementor.map Prod.snd) body))
  | labeled {shut : Bool} {label : String} {tokens : List Token} {statement : Node} (free : label ∉ reserved)
      (isStatement : Forms (.statement shut) tokens statement) :
      Forms (.statement shut) ([.word label, .mark ":"] ++ tokens)
        (.synthetic (.labeledStatement label statement))
  | return {shut : Bool} {value : Option (List Token × Node)}
      (isValue : ∀ part ∈ value, Forms .expression part.1 part.2) :
      Forms (.statement shut) ([.word "return"] ++ tokensIfAny value ++ [.mark ";"])
        (.synthetic (.returnStatement (value.map Prod.snd)))
  | expressionStatement {shut : Bool} {tokens : List Token} {expression : Node}
      (isExpression : Forms .expression tokens expression)
      (other : ∀ token ∈ tokens.head?, token ≠ .mark "\x7b" ∧ token ≠ .word "function") :
      Forms (.statement shut) (tokens ++ [.mark ";"]) (.synthetic (.expressionStatement expression))
  | assign {called : Bool} {first second : List Token} {target value : Node}
      (isTarget : Forms (.access called) first target) (isValue : Forms .expression second value) :
      Forms .expression (first ++ [.mark "="] ++ second) (.synthetic (.binaryExpression .assign target value))
  | ofAccess {called : Bool} {tokens : List Token} {tree : Node}
      (isAccess : Forms (.access called) tokens tree) :
      Forms .expression tokens tree
  | call {called : Bool} {tokens : List Token} {callee : Node} {arguments : List (List Token × Node)}
      (isCallee : Forms (.access called) tokens callee)
      (each : ∀ item ∈ arguments, Forms .expression item.1 item.2) :
      Forms (.access true) (tokens ++ [.mark "("] ++ commas (arguments.map Prod.fst) ++ [.mark ")"])
        (.synthetic (.callExpression callee (arguments.map Prod.snd)))
  | new {tokens : List Token} {callee : Node} {arguments : List (List Token × Node)}
      (isCallee : Forms (.access false) tokens callee)
      (each : ∀ item ∈ arguments, Forms .expression item.1 item.2) :
      Forms (.access false)
        ([.word "new"] ++ tokens ++ [.mark "("] ++ commas (arguments.map Prod.fst) ++ [.mark ")"])
        (.synthetic (.newExpression callee (arguments.map Prod.snd)))
  | property {called : Bool} {tokens : List Token} {object : Node} {name : String}
      (isObject : Forms (.access called) tokens object) :
      Forms (.access called) (tokens ++ [.mark ".", .word name]) (.synthetic (.propertyAccess object name))
  | element {called : Bool} {first second : List Token} {object index : Node}
      (isObject : Forms (.access called) first object) (isIndex : Forms .expression second index) :
      Forms (.access called) (first ++ [.mark "["] ++ second ++ [.mark "]"])
        (.synthetic (.elementAccess object index))
  | ofPrimary {tokens : List Token} {tree : Node} (isPrimary : Forms .primary tokens tree) :
      Forms (.access false) tokens tree
  | name {name : String} (free : name ∉ reserved) : Forms .primary [.word name] (.synthetic (.identifier name))
  | object {properties : List (String × List Token × Node)}
      (each : ∀ property ∈ properties, Forms .expression property.2.1 property.2.2) :
      Forms .primary ([.mark "\x7b"] ++ commas (properties.map propertyTokens) ++ [.mark "\x7d"])
        (.synthetic (.objectLiteral (properties.map propertyTree)))
  | function {isGenerator : Bool} {name : Option String} {parameters : List String}
      {items : List (List Token × Node)} (free : ∀ word ∈ name.toList ++ parameters, word ∉ reserved)
      (each : ∀ item ∈ items, Forms (.statement false) item.1 item.2) :
      Forms .primary
        (functionTokens isGenerator name parameters ++
          ([.mark "\x7b"] ++ items.flatMap Prod.fst ++ [.mark "\x7d"]))
        (functionTree isGenerator name parameters (items.map Prod.snd))
  | enclosed {tokens : List Token} {tree : Node} (inner : Forms .expression tokens tree) :
      Forms .primary ([.mark "("] ++ tokens ++ [.mark ")"]) tree

end Resumable.Script
