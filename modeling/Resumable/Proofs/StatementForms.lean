import Resumable.Proofs.StatementTexts
import Resumable.Proofs.Traversal

/-!
# Printed statements in the grammar

What keeps a text from being read as the tree that it was printed from is at the ends of statements and at the
beginnings of expressions.  A statement is shut if no `if` is open at its end (`Node.isShut`).  The spine of an
expression leads to the part that its text begins with: it may reach a call (`Node.isCalled`), and it may reach
an object or a function with no parenthesis in front of it (`Node.isExposed`).

The tokens that are written for a node are a clause that stands for it, form by form: for an expression
(`Script.IsFormed`) if the spine of what is constructed by a `new` reaches no call, and for a statement
(`Script.IsStated`) if the branch in front of an `else` is shut, and an expression by itself is not exposed.
-/

namespace Resumable

open Script

/-! ## Spines -/

namespace Node

/-- An `else` behind the statement does not belong to an `if` in it. -/
def isShut : Node → Bool :=
  para fun _ parts =>
    match parts with
    | .ifStatement _ _ elseBranch => elseBranch.any Prod.snd
    | .whileStatement _ body | .forStatement _ _ _ body | .labeledStatement _ body => body.2
    | _ => true

/-- The expression is a call, or an access with a call on its spine. -/
def isCalled : Node → Bool :=
  para fun _ parts =>
    match parts with
    | .callExpression .. => true
    | .propertyAccess object _ | .elementAccess object _ => object.2
    | _ => false

/-- The text of the expression begins with an object or a function. -/
def isExposed : Node → Bool :=
  para fun _ parts =>
    let leads (least : Nat) (part : Node × Bool) : Bool := least ≤ Precedence.ofKind part.1.kind && part.2
    match parts with
    | .objectLiteral _ | .functionExpression .. => true
    | .callExpression callee _ => leads Precedence.member callee
    | .propertyAccess object _ | .elementAccess object _ => leads Precedence.member object
    | .binaryExpression .assign target _ => leads (Precedence.assignment + 1) target
    | _ => false

/-- The `else` of the node belongs to it: no `if` in front of it is open. -/
def hasOwnElse (node : Node) : Bool :=
  match node.kind with
  | .ifStatement _ thenBranch (some _) => thenBranch.isShut
  | _ => true

/-- The node needs no parenthesis that is not written: an expression that is a statement does not begin like a block
or a function, and the arguments of a `new` are its own. -/
def isGuarded (node : Node) : Bool :=
  match node.kind with
  | .expressionStatement expression => !expression.isExposed
  | .newExpression callee _ => !callee.isCalled
  | _ => true

/-- An expression with a call on its spine is not enclosed. -/
theorem isCalled_of_lt {node : Node} (looser : Precedence.ofKind node.kind < Precedence.member) :
    node.isCalled = false := by
  cases node with
  | mk span kind =>
    cases kind with
    | callExpression callee arguments => exact absurd looser (Nat.lt_irrefl _)
    | propertyAccess object name => exact absurd looser (Nat.lt_irrefl _)
    | elementAccess object index => exact absurd looser (Nat.lt_irrefl _)
    | _ => rfl

/-! ### Trees without source ranges -/

theorem ofKind_bare (node : Node) : Precedence.ofKind node.bare.kind = Precedence.ofKind node.kind := by
  rw [bare_eq]
  cases node with
  | mk span kind => cases kind <;> rfl

/-- What is found from kinds alone does not depend on source ranges. -/
theorem para_bare {β : Type} {step : Kind (Node × β) → β}
    (agrees : ∀ parts : Kind (Node × β), step (parts.map fun part => (part.1.bare, part.2)) = step parts)
    (node : Node) : node.bare.para (fun _ => step) = node.para fun _ => step := by
  induction node using inductionOn with
  | step node ih =>
    rw [bare_eq, para_eq, para_eq]
    refine (congrArg step ?_).trans (agrees _)
    show (node.kind.map bare).map _ = _
    rw [Kind.map_map, Kind.map_map]
    exact Kind.map_congr _ fun child isChild => congrArg (Prod.mk child.bare) (ih child isChild)

theorem isShut_bare (node : Node) : node.bare.isShut = node.isShut := by
  refine para_bare (fun parts => ?_) node
  cases parts with
  | ifStatement condition thenBranch elseBranch => cases elseBranch <;> rfl
  | _ => rfl

theorem isCalled_bare (node : Node) : node.bare.isCalled = node.isCalled :=
  para_bare (fun parts => by cases parts <;> rfl) node

theorem isExposed_bare (node : Node) : node.bare.isExposed = node.isExposed := by
  refine para_bare (fun parts => ?_) node
  cases parts with
  | binaryExpression operator left right =>
    cases operator with
    | assign => simp only [Kind.map, ofKind_bare]
    | _ => rfl
  | callExpression callee arguments => simp only [Kind.map, ofKind_bare]
  | propertyAccess object name => simp only [Kind.map, ofKind_bare]
  | elementAccess object index => simp only [Kind.map, ofKind_bare]
  | _ => rfl

theorem hasOwnElse_bare (node : Node) : node.bare.hasOwnElse = node.hasOwnElse := by
  rw [bare_eq]
  cases node with
  | mk span kind =>
    cases kind with
    | ifStatement condition thenBranch elseBranch =>
      cases elseBranch with
      | none => rfl
      | some elseBranch => exact isShut_bare thenBranch
    | _ => rfl

end Node

namespace Script

/-! ## Expressions -/

/-- The tokens that are written for the expression are a clause that stands for it. -/
def IsFormed (node : Node) : Prop :=
  Forms (if Precedence.ofKind node.kind ≤ Precedence.assignment then .expression else .access node.isCalled)
    node.tokens node.bare

section Places

variable {node : Node} {nodes : List Node} {least : Nat}

theorem IsFormed.expression (isFormed : IsFormed node) : Forms .expression node.tokens node.bare := by
  unfold IsFormed at isFormed
  split at isFormed
  · exact isFormed
  · exact .ofAccess isFormed

theorem IsFormed.placed (isFormed : IsFormed node) (least : Nat) :
    Forms .expression (Token.placed least (node, node.tokens)) node.bare := by
  unfold Token.placed
  split
  · exact .ofAccess (.ofPrimary (.enclosed isFormed.expression))
  · exact isFormed.expression

theorem IsFormed.access (isFormed : IsFormed node) (tight : Precedence.assignment < least)
    (le : least ≤ Precedence.member) :
    Forms (.access node.isCalled) (Token.placed least (node, node.tokens)) node.bare := by
  unfold Token.placed
  split
  · next looser =>
    rw [Node.isCalled_of_lt (Nat.lt_of_lt_of_le looser le)]
    exact .ofPrimary (.enclosed isFormed.expression)
  · next enough =>
    unfold IsFormed at isFormed
    rwa [if_neg fun loose => enough (Nat.lt_of_le_of_lt loose tight)] at isFormed

/-- The tokens that are written for the statement are a clause that stands for it. -/
def IsStated (node : Node) : Prop :=
  ∀ shut, (shut = true → node.isShut = true) → Forms (.statement shut) node.tokens node.bare

/-- A part with its tokens. -/
def part (node : Node) : List Token × Node := (node.tokens, node.bare)

theorem forms_part {optional : Option Node} (each : ∀ inner ∈ optional, IsFormed inner) :
    ∀ item ∈ optional.map part, Forms .expression item.1 item.2 := by
  cases optional with
  | none => nofun
  | some inner =>
    rintro _ ⟨⟩
    exact (each inner rfl).expression

theorem ifAny_eq (optional : Option Node) :
    Token.ifAny (optional.map fun node => (node, node.tokens)) = tokensIfAny (optional.map part) := by
  cases optional <;> rfl

theorem map_part (optional : Option Node) : (optional.map part).map Prod.snd = optional.map Node.bare := by
  cases optional <;> rfl

/-- An argument with its tokens. -/
def argument (node : Node) : List Token × Node :=
  (Token.placed (Precedence.comma + 1) (node, node.tokens), node.bare)

theorem listed_eq (nodes : List Node) :
    Token.listed (nodes.map fun node => (node, node.tokens)) = commas ((nodes.map argument).map Prod.fst) := by
  rw [Token.listed, List.map_map, List.map_map]
  rfl

theorem forms_arguments (each : ∀ node ∈ nodes, IsFormed node) :
    ∀ item ∈ nodes.map argument, Forms .expression item.1 item.2 :=
  List.forall_mem_map.2 fun node mem => (each node mem).placed _

theorem tokens_block (span : Span) (statements : List Node) : Node.tokens ⟨span, .block statements⟩ =
    [.mark "\x7b"] ++ (statements.map part).flatMap Prod.fst ++ [.mark "\x7d"] := by
  rw [Node.tokens_eq]
  show [_] ++ (statements.map _).flatMap _ ++ [_] = _
  rw [List.flatMap_map, List.flatMap_map]
  rfl

theorem bare_block (span : Span) (statements : List Node) :
    Node.bare ⟨span, .block statements⟩ = .synthetic (.block ((statements.map part).map Prod.snd)) := by
  rw [Node.bare_eq, List.map_map]
  rfl

/-- The property is an assignment of an expression. -/
def IsEntry (node : Node) : Prop := ∃ name value, node.kind = .propertyAssignment name value ∧ IsFormed value

/-- A property with the tokens of its value. -/
def member (node : Node) : String × List Token × Node :=
  match node.kind with
  | .propertyAssignment name value => (name, argument value)
  | _ => ("", part node)

theorem IsEntry.member_spec (isEntry : IsEntry node) : node.tokens = propertyTokens (member node) ∧
    node.bare = propertyTree (member node) ∧ Forms .expression (member node).2.1 (member node).2.2 := by
  obtain ⟨name, value, isKind, isFormed⟩ := isEntry
  cases node
  cases isKind
  exact ⟨rfl, rfl, isFormed.placed _⟩

/-- The parameter is a name. -/
def IsParameter (node : Node) : Prop := ∃ name, node.kind = .identifier name ∧ name ∉ reserved

/-- The name of a parameter. -/
def nameOf (node : Node) : String :=
  match node.kind with
  | .identifier name => name
  | _ => ""

theorem IsParameter.nameOf_spec (isParameter : IsParameter node) :
    Token.placed (Precedence.comma + 1) (node, node.tokens) = [.word (nameOf node)] ∧
      node.bare = .synthetic (.identifier (nameOf node)) ∧ nameOf node ∉ reserved := by
  obtain ⟨name, isKind, free⟩ := isParameter
  cases node
  cases isKind
  exact ⟨rfl, rfl, free⟩

end Places

section Nodes

variable {span : Span}

namespace IsFormed

theorem identifier {name : String} (free : name ∉ reserved) : IsFormed ⟨span, .identifier name⟩ :=
  .ofPrimary (.name free)

theorem call {callee : Node} {arguments : List Node} (isCallee : IsFormed callee)
    (each : ∀ item ∈ arguments, IsFormed item) : IsFormed ⟨span, .callExpression callee arguments⟩ := by
  have called := Forms.call (isCallee.access (by decide) (Nat.le_refl _)) (forms_arguments each)
  rw [← listed_eq, List.map_map] at called
  unfold IsFormed
  rw [Node.tokens_eq, Node.bare_eq]
  exact called

theorem new {callee : Node} {arguments : List Node} (isCallee : IsFormed callee)
    (notCalled : callee.isCalled = false) (each : ∀ item ∈ arguments, IsFormed item) :
    IsFormed ⟨span, .newExpression callee arguments⟩ := by
  have access := isCallee.access (by decide) (Nat.le_refl _)
  rw [notCalled] at access
  have constructed := Forms.new access (forms_arguments each)
  rw [← listed_eq, List.map_map] at constructed
  unfold IsFormed
  rw [Node.tokens_eq, Node.bare_eq]
  exact constructed

theorem property {object : Node} {name : String} (isObject : IsFormed object) :
    IsFormed ⟨span, .propertyAccess object name⟩ :=
  Forms.property (isObject.access (by decide) (Nat.le_refl _))

theorem element {object index : Node} (isObject : IsFormed object) (isIndex : IsFormed index) :
    IsFormed ⟨span, .elementAccess object index⟩ :=
  Forms.element (isObject.access (by decide) (Nat.le_refl _)) isIndex.expression

theorem assign {target value : Node} (isTarget : IsFormed target) (isValue : IsFormed value) :
    IsFormed ⟨span, .binaryExpression .assign target value⟩ :=
  Forms.assign (isTarget.access (by decide) (by decide)) (isValue.placed _)

theorem object {properties : List Node} (each : ∀ property ∈ properties, IsEntry property) :
    IsFormed ⟨span, .objectLiteral properties⟩ := by
  have tokens : properties.map Node.tokens = (properties.map member).map propertyTokens := by
    rw [List.map_map]
    exact List.map_congr_left fun property mem => (each property mem).member_spec.1
  have trees : properties.map Node.bare = (properties.map member).map propertyTree := by
    rw [List.map_map]
    exact List.map_congr_left fun property mem => (each property mem).member_spec.2.1
  have valued : ∀ item ∈ properties.map member, Forms .expression item.2.1 item.2.2 :=
    List.forall_mem_map.2 fun property mem => (each property mem).member_spec.2.2
  have isObject := Forms.object valued
  rw [← tokens, ← trees] at isObject
  unfold IsFormed
  rw [Node.tokens_eq, Node.bare_eq]
  refine .ofPrimary ?_
  show Forms .primary ([_] ++ commas ((properties.map _).map _) ++ [_]) _
  rw [List.map_map]
  exact isObject

theorem function {name : Option String} {parameters statements : List Node} {inner : Span} {isGenerator : Bool}
    (free : ∀ word ∈ name, word ∉ reserved) (named : ∀ parameter ∈ parameters, IsParameter parameter)
    (each : ∀ statement ∈ statements, IsStated statement) :
    IsFormed ⟨span, .functionExpression name parameters ⟨inner, .block statements⟩ isGenerator⟩ := by
  have tokens : Token.listed (parameters.map fun node => (node, node.tokens)) =
      commas ((parameters.map nameOf).map fun name => [.word name]) := by
    rw [Token.listed, List.map_map, List.map_map]
    exact congrArg commas (List.map_congr_left fun parameter mem => (named parameter mem).nameOf_spec.1)
  have trees : parameters.map Node.bare =
      (parameters.map nameOf).map fun name => .synthetic (.identifier name) := by
    rw [List.map_map]
    exact List.map_congr_left fun parameter mem => (named parameter mem).nameOf_spec.2.1
  have isFree : ∀ word ∈ name.toList ++ parameters.map nameOf, word ∉ reserved := by
    intro word mem
    rcases List.mem_append.1 mem with mem | mem
    · exact free word (Option.mem_toList.1 mem)
    · obtain ⟨parameter, isOne, rfl⟩ := List.mem_map.1 mem
      exact (named parameter isOne).nameOf_spec.2.2
  have stated : ∀ item ∈ statements.map part, Forms (.statement false) item.1 item.2 :=
    List.forall_mem_map.2 fun statement mem => each statement mem false (absurd · Bool.false_ne_true)
  have isFunction : Forms .primary (functionTokens isGenerator name _ ++ _) _ := .function isFree stated
  unfold functionTokens functionTree at isFunction
  rw [← tokens, ← trees, ← tokens_block inner, ← bare_block inner] at isFunction
  unfold IsFormed
  rw [Node.tokens_eq, Node.bare_eq]
  exact .ofPrimary isFunction

end IsFormed

/-! ## Statements -/

namespace IsStated

theorem block {statements : List Node} (each : ∀ statement ∈ statements, IsStated statement) :
    IsStated ⟨span, .block statements⟩ := by
  intro shut _
  rw [tokens_block, bare_block]
  exact .block (List.forall_mem_map.2 fun statement mem => each statement mem false (absurd · Bool.false_ne_true))

theorem expressionStatement {expression : Node} (isFormed : IsFormed expression)
    (other : ∀ token ∈ expression.tokens.head?, token ≠ .mark "\x7b" ∧ token ≠ .word "function") :
    IsStated ⟨span, .expressionStatement expression⟩ :=
  fun _ _ => .expressionStatement isFormed.expression other

theorem ifThen {condition thenBranch : Node} (isCondition : IsFormed condition) (isThen : IsStated thenBranch) :
    IsStated ⟨span, .ifStatement condition thenBranch none⟩ := by
  intro shut isShut
  cases shut with
  | false => exact .ifThen isCondition.expression (isThen false (absurd · Bool.false_ne_true))
  | true => cases isShut rfl

theorem ifElse {condition thenBranch elseBranch : Node} (isCondition : IsFormed condition)
    (isThen : IsStated thenBranch) (isShut : thenBranch.isShut = true) (isElse : IsStated elseBranch) :
    IsStated ⟨span, .ifStatement condition thenBranch (some elseBranch)⟩ :=
  fun shut shuts => .ifElse isCondition.expression (isThen true fun _ => isShut) (isElse shut shuts)

theorem whileStatement {condition body : Node} (isCondition : IsFormed condition) (isBody : IsStated body) :
    IsStated ⟨span, .whileStatement condition body⟩ :=
  fun shut isShut => .while isCondition.expression (isBody shut isShut)

theorem doWhileStatement {body condition : Node} (isBody : IsStated body) (isCondition : IsFormed condition) :
    IsStated ⟨span, .doWhileStatement body condition⟩ := by
  intro shut _
  exact .doWhile (isBody false (absurd · Bool.false_ne_true)) isCondition.expression

theorem forStatement {initializer condition incrementor : Option Node} {body : Node}
    (isInitializer : ∀ part ∈ initializer, IsFormed part) (isCondition : ∀ part ∈ condition, IsFormed part)
    (isIncrementor : ∀ part ∈ incrementor, IsFormed part) (isBody : IsStated body) :
    IsStated ⟨span, .forStatement initializer condition incrementor body⟩ := by
  intro shut isShut
  have loop := Forms.for (forms_part isInitializer) (forms_part isCondition) (forms_part isIncrementor)
    (isBody shut isShut)
  rw [← ifAny_eq, ← ifAny_eq, ← ifAny_eq, map_part, map_part, map_part] at loop
  rw [Node.tokens_eq, Node.bare_eq]
  exact loop

theorem labeledStatement {label : String} {statement : Node} (free : label ∉ reserved)
    (isStatement : IsStated statement) : IsStated ⟨span, .labeledStatement label statement⟩ :=
  fun shut isShut => .labeled free (isStatement shut isShut)

theorem returnStatement {value : Option Node} (isValue : ∀ part ∈ value, IsFormed part) :
    IsStated ⟨span, .returnStatement value⟩ := by
  intro shut _
  have returned : Forms (.statement shut) _ _ := .return (forms_part isValue)
  rw [← ifAny_eq, map_part] at returned
  rw [Node.tokens_eq, Node.bare_eq]
  exact returned

end IsStated

end Nodes

end Script

end Resumable
