import Resumable.Proofs.MissingParentheses

/-!
# Printed statements are read as they were

`Script.Routine` are the statements of blocks, conditionals, loops, labels, returns and expressions, with names,
objects, functions, accesses, calls and assignments as expressions.  Such a statement is clear if each `else` in
it belongs to its own `if`, and no expression that is a statement begins with an object or a function
(`Script.AllClear`).  The text of a statement is read as the statement exactly if the statement is clear
(`Script.Routine.reads_print_iff_allClear`), as no parenthesis is written because an expression is a statement,
and no block around a branch.
-/

namespace Resumable

open Script

/-! ## Trees without source ranges -/

theorem Node.forall_subtree_bare {holds : Node → Prop} (node : Node) :
    (∀ inner ∈ node.bare.subtree, holds inner) ↔ ∀ inner ∈ node.subtree, holds inner.bare := by
  induction node using Node.inductionOn with
  | step node ih =>
    rw [forall_subtree_iff, forall_subtree_iff]
    refine and_congr_right' ?_
    have children : node.bare.children = node.children.map Node.bare := by
      rw [Node.bare_eq]
      exact Kind.children_map _ _
    rw [children, List.forall_mem_map]
    exact ⟨fun each child isChild => (ih child isChild).1 (each child isChild),
      fun each child isChild => (ih child isChild).2 (each child isChild)⟩

namespace Script

/-! ## Every else belongs to its if -/

/-- Each `else` of the tree belongs to its own `if`. -/
def AllOwnElse (node : Node) : Prop := ∀ inner ∈ node.subtree, inner.hasOwnElse = true

theorem allOwnElse_iff {node : Node} :
    AllOwnElse node ↔ node.hasOwnElse = true ∧ ∀ child ∈ node.children, AllOwnElse child :=
  forall_subtree_iff

section Forms

variable {clause : Clause} {tokens : List Token} {tree : Node}

theorem Forms.isShut (forms : Forms clause tokens tree) (shuts : clause = .statement true) :
    tree.isShut = true := by
  induction forms with
  | block | doWhile | «return» | expressionStatement => rfl
  | ifThen => cases shuts
  | ifElse _ _ _ _ _ ih => exact ih shuts
  | «while» _ _ _ ih => exact ih shuts
  | «for» _ _ _ _ _ _ _ ih => exact ih shuts
  | labeled _ _ ih => exact ih shuts
  | _ => cases shuts

theorem allOwnElse_part {part : Option (List Token × Node)} (each : ∀ item ∈ part, AllOwnElse item.2) :
    ∀ inner ∈ (part.map Prod.snd).toList, AllOwnElse inner := by
  cases part with
  | none => nofun
  | some item => exact List.forall_mem_singleton.2 (each item rfl)

/-- What stands in front of an `else` is shut in each tree that a text stands for. -/
theorem Forms.allOwnElse (forms : Forms clause tokens tree) : AllOwnElse tree := by
  induction forms with
  | block _ ih => exact allOwnElse_iff.2 ⟨rfl, List.forall_mem_map.2 ih⟩
  | ifThen _ _ ih ih' =>
    exact allOwnElse_iff.2 ⟨rfl, List.forall_mem_cons.2 ⟨ih, List.forall_mem_singleton.2 ih'⟩⟩
  | ifElse _ isThen _ ih ih' ih'' =>
    exact allOwnElse_iff.2 ⟨isThen.isShut rfl, List.forall_mem_cons.2 ⟨ih, List.forall_mem_cons.2
      ⟨ih', List.forall_mem_singleton.2 ih''⟩⟩⟩
  | «while» _ _ ih ih' =>
    exact allOwnElse_iff.2 ⟨rfl, List.forall_mem_cons.2 ⟨ih, List.forall_mem_singleton.2 ih'⟩⟩
  | doWhile _ _ ih ih' =>
    exact allOwnElse_iff.2 ⟨rfl, List.forall_mem_cons.2 ⟨ih, List.forall_mem_singleton.2 ih'⟩⟩
  | «for» _ _ _ _ ih ih' ih'' ih''' =>
    refine allOwnElse_iff.2 ⟨rfl, List.forall_mem_append.2 ⟨?_, List.forall_mem_singleton.2 ih'''⟩⟩
    exact List.forall_mem_append.2 ⟨List.forall_mem_append.2 ⟨allOwnElse_part ih, allOwnElse_part ih'⟩,
      allOwnElse_part ih''⟩
  | labeled _ _ ih => exact allOwnElse_iff.2 ⟨rfl, List.forall_mem_singleton.2 ih⟩
  | «return» _ ih => exact allOwnElse_iff.2 ⟨rfl, allOwnElse_part ih⟩
  | expressionStatement _ _ ih => exact allOwnElse_iff.2 ⟨rfl, List.forall_mem_singleton.2 ih⟩
  | assign _ _ ih ih' =>
    exact allOwnElse_iff.2 ⟨rfl, List.forall_mem_cons.2 ⟨ih, List.forall_mem_singleton.2 ih'⟩⟩
  | call _ _ ih ih' | new _ _ ih ih' =>
    exact allOwnElse_iff.2 ⟨rfl, List.forall_mem_cons.2 ⟨ih, List.forall_mem_map.2 ih'⟩⟩
  | property _ ih => exact allOwnElse_iff.2 ⟨rfl, List.forall_mem_singleton.2 ih⟩
  | element _ _ ih ih' =>
    exact allOwnElse_iff.2 ⟨rfl, List.forall_mem_cons.2 ⟨ih, List.forall_mem_singleton.2 ih'⟩⟩
  | ofAccess _ ih | ofPrimary _ ih | enclosed _ ih => exact ih
  | name => exact allOwnElse_iff.2 ⟨rfl, nofun⟩
  | object _ ih =>
    refine allOwnElse_iff.2 ⟨rfl, List.forall_mem_map.2 fun property mem => ?_⟩
    exact allOwnElse_iff.2 ⟨rfl, List.forall_mem_singleton.2 (ih property mem)⟩
  | function _ _ ih =>
    refine allOwnElse_iff.2 ⟨rfl, List.forall_mem_append.2 ⟨List.forall_mem_map.2 fun _ _ => ?_, ?_⟩⟩
    · exact allOwnElse_iff.2 ⟨rfl, nofun⟩
    · exact List.forall_mem_singleton.2 (allOwnElse_iff.2 ⟨rfl, List.forall_mem_map.2 ih⟩)

end Forms

/-! ## Routine code -/

/-- The categories of routine code. -/
inductive Category where
  | statement
  | expression
  | property
  deriving Repr, DecidableEq

/-- The node is a name. -/
def IsName (alphabet : Alphabet) (node : Node) : Prop :=
  ∃ name, node.kind = .identifier name ∧ alphabet.IsWord name ∧ name ∉ reserved

/-- The statements of blocks, conditionals, loops, labels, returns and expressions, with the expressions of names,
objects, functions, accesses, calls and assignments. -/
inductive Routine (alphabet : Alphabet) : Category → Node → Prop
  | block {span : Span} {statements : List Node}
      (each : ∀ inner ∈ statements, Routine alphabet .statement inner) :
      Routine alphabet .statement ⟨span, .block statements⟩
  | ifStatement {span : Span} {condition thenBranch : Node} {elseBranch : Option Node}
      (isCondition : Routine alphabet .expression condition) (isThen : Routine alphabet .statement thenBranch)
      (isElse : ∀ inner ∈ elseBranch, Routine alphabet .statement inner) :
      Routine alphabet .statement ⟨span, .ifStatement condition thenBranch elseBranch⟩
  | whileStatement {span : Span} {condition body : Node} (isCondition : Routine alphabet .expression condition)
      (isBody : Routine alphabet .statement body) :
      Routine alphabet .statement ⟨span, .whileStatement condition body⟩
  | doWhileStatement {span : Span} {body condition : Node} (isBody : Routine alphabet .statement body)
      (isCondition : Routine alphabet .expression condition) :
      Routine alphabet .statement ⟨span, .doWhileStatement body condition⟩
  | forStatement {span : Span} {initializer condition incrementor : Option Node} {body : Node}
      (isInitializer : ∀ inner ∈ initializer, Routine alphabet .expression inner)
      (isCondition : ∀ inner ∈ condition, Routine alphabet .expression inner)
      (isIncrementor : ∀ inner ∈ incrementor, Routine alphabet .expression inner)
      (isBody : Routine alphabet .statement body) :
      Routine alphabet .statement ⟨span, .forStatement initializer condition incrementor body⟩
  | labeledStatement {span : Span} {label : String} {statement : Node} (isWord : alphabet.IsWord label)
      (free : label ∉ reserved) (isStatement : Routine alphabet .statement statement) :
      Routine alphabet .statement ⟨span, .labeledStatement label statement⟩
  | returnStatement {span : Span} {value : Option Node}
      (isValue : ∀ inner ∈ value, Routine alphabet .expression inner) :
      Routine alphabet .statement ⟨span, .returnStatement value⟩
  | expressionStatement {span : Span} {expression : Node}
      (isExpression : Routine alphabet .expression expression) :
      Routine alphabet .statement ⟨span, .expressionStatement expression⟩
  | identifier {span : Span} {name : String} (isWord : alphabet.IsWord name) (free : name ∉ reserved) :
      Routine alphabet .expression ⟨span, .identifier name⟩
  | object {span : Span} {properties : List Node}
      (each : ∀ inner ∈ properties, Routine alphabet .property inner) :
      Routine alphabet .expression ⟨span, .objectLiteral properties⟩
  | assignment {span : Span} {name : String} {value : Node} (isWord : alphabet.IsWord name)
      (isValue : Routine alphabet .expression value) :
      Routine alphabet .property ⟨span, .propertyAssignment name value⟩
  | function {span inner : Span} {name : Option String} {parameters statements : List Node} {isGenerator : Bool}
      (isNamed : ∀ word ∈ name, alphabet.IsWord word ∧ word ∉ reserved)
      (isParameter : ∀ parameter ∈ parameters, IsName alphabet parameter)
      (each : ∀ inner ∈ statements, Routine alphabet .statement inner) :
      Routine alphabet .expression
        ⟨span, .functionExpression name parameters ⟨inner, .block statements⟩ isGenerator⟩
  | property {span : Span} {object : Node} {name : String} (isObject : Routine alphabet .expression object)
      (isWord : alphabet.IsWord name) : Routine alphabet .expression ⟨span, .propertyAccess object name⟩
  | call {span : Span} {callee : Node} {arguments : List Node} (isCallee : Routine alphabet .expression callee)
      (each : ∀ inner ∈ arguments, Routine alphabet .expression inner) :
      Routine alphabet .expression ⟨span, .callExpression callee arguments⟩
  | assign {span : Span} {target value : Node} (isTarget : Routine alphabet .expression target)
      (isValue : Routine alphabet .expression value) :
      Routine alphabet .expression ⟨span, .binaryExpression .assign target value⟩

section Routine

variable {alphabet : Alphabet} {category : Category} {node : Node}

/-! ### Its texts -/

/-- The text of the node is its tokens. -/
def Category.IsWritten (alphabet : Alphabet) : Category → Node → Prop
  | statement => IsLine alphabet
  | expression => IsShown alphabet
  | property => IsMember alphabet

theorem IsName.isShown (isName : IsName alphabet node) : IsShown alphabet node := by
  obtain ⟨name, isKind, isWord, -⟩ := isName
  cases node
  cases isKind
  exact .identifier isWord

theorem Routine.isWritten (routine : Routine alphabet category node) : category.IsWritten alphabet node := by
  induction routine with
  | block _ ih => exact IsLine.block ih
  | @ifStatement _ _ _ elseBranch _ _ _ ih ih' ih'' =>
    cases elseBranch with
    | none => exact IsLine.ifThen ih ih'
    | some elseBranch => exact IsLine.ifElse ih ih' (ih'' elseBranch rfl)
  | whileStatement _ _ ih ih' => exact IsLine.whileStatement ih ih'
  | doWhileStatement _ _ ih ih' => exact IsLine.doWhileStatement ih ih'
  | forStatement _ _ _ _ ih ih' ih'' ih''' => exact IsLine.forStatement ih ih' ih'' ih'''
  | labeledStatement isWord _ _ ih => exact IsLine.labeledStatement isWord ih
  | returnStatement _ ih => exact IsLine.returnStatement ih
  | expressionStatement _ ih => exact IsLine.expressionStatement ih
  | identifier isWord _ => exact IsShown.identifier isWord
  | object _ ih => exact IsShown.object ih
  | assignment isWord _ ih => exact IsMember.assignment isWord ih
  | function isNamed isParameter _ ih =>
    exact IsShown.function (fun word mem => (isNamed word mem).1)
      (fun parameter mem => (isParameter parameter mem).isShown) (.block ih)
  | property _ isWord ih => exact IsShown.property ih isWord
  | call _ _ ih ih' => exact IsShown.call ih ih'
  | assign _ _ ih ih' => exact IsShown.assign ih ih'

/-! ### How its expressions begin -/

/-- The tokens begin with an object or a function exactly if it is said so. -/
def Begins (exposed : Bool) (tokens : List Token) : Prop :=
  ∃ token rest, tokens = token :: rest ∧ ((token = .mark "\x7b" ∨ token = .word "function") ↔ exposed = true)

theorem Begins.append {exposed : Bool} {tokens : List Token} (begins : Begins exposed tokens)
    (behind : List Token) :
    Begins exposed (tokens ++ behind) := by
  obtain ⟨token, rest, rfl, isExposed⟩ := begins
  exact ⟨token, rest ++ behind, rfl, isExposed⟩

theorem Begins.placed {exposed : Bool} (begins : Begins exposed node.tokens) (least : Nat) :
    Begins (least ≤ Precedence.ofKind node.kind && exposed) (Token.placed least (node, node.tokens)) := by
  unfold Token.placed
  split
  · next looser =>
    rw [decide_eq_false (Nat.not_le.2 looser)]
    exact ⟨.mark "(", _, rfl, iff_of_false (by decide) Bool.false_ne_true⟩
  · next enough => rwa [decide_eq_true (Nat.le_of_not_lt enough)]

theorem Routine.begins (routine : Routine alphabet category node) (isExpression : category = .expression) :
    Begins node.isExposed node.tokens := by
  induction routine with
  | @identifier _ name _ free =>
    refine ⟨.word name, [], rfl, iff_of_false ?_ Bool.false_ne_true⟩
    rintro (same | same)
    · cases same
    · rw [Token.word.inj same] at free
      exact free (by decide)
  | object => exact ⟨_, _, rfl, iff_of_true (.inl rfl) rfl⟩
  | function => exact ⟨_, _, rfl, iff_of_true (.inr rfl) rfl⟩
  | property _ _ ih => exact ((ih rfl).placed _).append _
  | call _ _ ih =>
    rw [Node.tokens_eq]
    exact ((((ih rfl).placed _).append _).append _).append _
  | assign _ _ ih => exact (((ih rfl).placed _).append _).append _
  | _ => cases isExpression

/-! ### Its clauses -/

/-- The tree is clear: each `else` in it belongs to its own `if`, and nothing is exposed in it. -/
def AllClear (node : Node) : Prop := AllOwnElse node ∧ AllGuarded node

theorem AllClear.local (clear : AllClear node) : node.hasOwnElse = true ∧ node.isGuarded = true :=
  ⟨(allOwnElse_iff.1 clear.1).1, (allGuarded_iff.1 clear.2).1⟩

theorem AllClear.child (clear : AllClear node) {child : Node} (isChild : child ∈ node.children) :
    AllClear child :=
  ⟨(allOwnElse_iff.1 clear.1).2 child isChild, (allGuarded_iff.1 clear.2).2 child isChild⟩

/-- The tokens of the node are a clause that stands for it. -/
def Category.IsClause : Category → Node → Prop
  | statement => IsStated
  | expression => IsFormed
  | property => IsEntry

theorem Routine.isClause (routine : Routine alphabet category node) (clear : AllClear node) :
    category.IsClause node := by
  induction routine with
  | block _ ih => exact IsStated.block fun inner mem => ih inner mem (clear.child mem)
  | @ifStatement _ _ _ elseBranch _ _ _ ih ih' ih'' =>
    have isCondition := ih (clear.child (.head _))
    have isThen := ih' (clear.child (.tail _ (.head _)))
    cases elseBranch with
    | none => exact IsStated.ifThen isCondition isThen
    | some elseBranch =>
      have isElse := ih'' elseBranch rfl (clear.child (.tail _ (.tail _ (.head _))))
      exact IsStated.ifElse isCondition isThen clear.local.1 isElse
  | whileStatement _ _ ih ih' =>
    exact IsStated.whileStatement (ih (clear.child (.head _))) (ih' (clear.child (.tail _ (.head _))))
  | doWhileStatement _ _ ih ih' =>
    exact IsStated.doWhileStatement (ih (clear.child (.head _))) (ih' (clear.child (.tail _ (.head _))))
  | @forStatement _ initializer condition incrementor _ _ _ _ _ ih ih' ih'' ih''' =>
    have first (part : Node) (isPart : part ∈ initializer) : AllClear part := clear.child
      (List.mem_append_left _ (List.mem_append_left _ (List.mem_append_left _ (Option.mem_toList.2 isPart))))
    have second (part : Node) (isPart : part ∈ condition) : AllClear part := clear.child
      (List.mem_append_left _ (List.mem_append_left _ (List.mem_append_right _ (Option.mem_toList.2 isPart))))
    have third (part : Node) (isPart : part ∈ incrementor) : AllClear part := clear.child
      (List.mem_append_left _ (List.mem_append_right _ (Option.mem_toList.2 isPart)))
    have isBody := ih''' (clear.child (List.mem_append_right _ (.head _)))
    exact IsStated.forStatement (fun part isPart => ih part isPart (first part isPart))
      (fun part isPart => ih' part isPart (second part isPart))
      (fun part isPart => ih'' part isPart (third part isPart)) isBody
  | labeledStatement _ free _ ih => exact IsStated.labeledStatement free (ih (clear.child (.head _)))
  | returnStatement _ ih =>
    exact IsStated.returnStatement fun part isPart => ih part isPart (clear.child (Option.mem_toList.2 isPart))
  | @expressionStatement _ expression isExpression ih =>
    refine IsStated.expressionStatement (ih (clear.child (.head _))) fun token isHead => ?_
    obtain ⟨first, rest, isTokens, isExposed⟩ := isExpression.begins rfl
    rw [isTokens] at isHead
    obtain rfl := Option.some.inj isHead
    have guarded : (!expression.isExposed) = true := clear.local.2
    rw [Bool.not_eq_true'] at guarded
    exact not_or.1 (mt isExposed.1 (Bool.eq_false_iff.1 guarded))
  | identifier _ free => exact IsFormed.identifier free
  | object _ ih => exact IsFormed.object fun inner mem => ih inner mem (clear.child mem)
  | assignment _ _ ih => exact ⟨_, _, rfl, ih (clear.child (.head _))⟩
  | function isNamed isParameter _ ih =>
    refine IsFormed.function (fun word mem => (isNamed word mem).2) ?_ fun inner mem => ih inner mem ?_
    · rintro parameter mem
      obtain ⟨name, isKind, -, free⟩ := isParameter parameter mem
      exact ⟨name, isKind, free⟩
    · exact (clear.child (List.mem_append_right _ (.head _))).child mem
  | property _ _ ih => exact IsFormed.property (ih (clear.child (.head _)))
  | call _ _ ih ih' =>
    exact IsFormed.call (ih (clear.child (.head _))) fun inner mem => ih' inner mem (clear.child (.tail _ mem))
  | assign _ _ ih ih' =>
    exact IsFormed.assign (ih (clear.child (.head _))) (ih' (clear.child (.tail _ (.head _))))

/-! ### What its tokens show -/

/-- If the tokens of the node meet its needs then nothing is missing in it. -/
def Category.IsExact : Category → Node → Prop
  | statement, node => Script.IsExact false node
  | expression, node | property, node => ∀ opened, Script.IsExact opened node

theorem IsName.isExact (isName : IsName alphabet node) (opened : Bool) : IsExact opened node := by
  obtain ⟨name, isKind, -⟩ := isName
  cases node
  cases isKind
  exact .identifier

theorem Routine.isExact (routine : Routine alphabet category node) : category.IsExact node := by
  induction routine with
  | block _ ih => exact IsExact.block ih
  | @ifStatement _ _ _ elseBranch _ _ _ ih ih' ih'' =>
    cases elseBranch with
    | none => exact IsExact.ifThen ih ih'
    | some elseBranch => exact IsExact.ifElse ih ih' (ih'' elseBranch rfl)
  | whileStatement _ _ ih ih' => exact IsExact.whileStatement ih ih'
  | doWhileStatement _ _ ih ih' => exact IsExact.doWhileStatement ih ih'
  | forStatement _ _ _ _ ih ih' ih'' ih''' => exact IsExact.forStatement ih ih' ih'' ih'''
  | labeledStatement _ _ _ ih => exact IsExact.labeledStatement ih
  | returnStatement _ ih => exact IsExact.returnStatement ih
  | expressionStatement isExpression ih =>
    refine IsExact.expressionStatement ih fun exposed => ?_
    obtain ⟨token, rest, isTokens, isExposed⟩ := isExpression.begins rfl
    refine ⟨token, rest, isTokens, ?_⟩
    rcases isExposed.2 exposed with rfl | rfl
    · rfl
    · rfl
  | identifier => exact fun opened => IsExact.identifier
  | object _ ih => exact fun opened => IsExact.object ih
  | assignment _ _ ih => exact fun opened => IsExact.assignment ih
  | function _ isParameter _ ih =>
    exact fun opened => IsExact.function (fun parameter mem => (isParameter parameter mem).isExact) (.block ih)
  | property _ _ ih => exact fun opened => IsExact.property ih
  | call _ _ ih ih' => exact fun opened => IsExact.call ih ih'
  | assign _ _ ih ih' => exact fun opened => IsExact.assign ih ih'

end Routine

/-! ## Reading what is printed -/

section Reading

variable {alphabet : Alphabet} {node : Node}

theorem Routine.writes_print (routine : Routine alphabet .statement node) :
    Writes alphabet true node.tokens node.print := by
  have statement : node.print = Part.statement 0 (node, node.textAt) := by cases routine <;> rfl
  rw [statement]
  exact IsLine.writes_statement routine.isWritten 0

theorem Routine.forms_iff (routine : Routine alphabet .statement node) :
    Forms (.statement false) node.tokens node.bare ↔ AllClear node := by
  refine ⟨fun forms => ⟨fun inner mem => ?_, routine.isExact.allGuarded forms⟩, ?_⟩
  · rw [← Node.hasOwnElse_bare]
    exact node.forall_subtree_bare.1 forms.allOwnElse inner mem
  · exact fun clear => routine.isClause clear false nofun

theorem Routine.reads_iff (routine : Routine alphabet .statement node) :
    (Clause.statement false).Reads alphabet node.print node.bare ↔ AllClear node :=
  routine.writes_print.reads_iff.trans routine.forms_iff

/-- The text of a statement stands for the statement and nothing else, up to source ranges, exactly if the
statement is clear; and no two clear statements have the same text. -/
theorem Routine.reads_print_iff_allClear (routine : Routine alphabet .statement node) :
    ((∀ tree, (Clause.statement false).Reads alphabet node.print tree ↔ tree = node.bare) ↔ AllClear node) ∧
      ∀ other, Routine alphabet .statement other → AllClear node → AllClear other → other.print = node.print →
        other.bare = node.bare := by
  refine ⟨Clause.Reads.forall_iff.trans routine.reads_iff, fun other isOther clear clear' same => ?_⟩
  have reads := isOther.reads_iff.2 clear'
  rw [same] at reads
  exact reads.unique (routine.reads_iff.2 clear)

theorem routine_name {name : String} (notEmpty : name.toList ≠ []) (letters : name.toList.all isLetter = true)
    (free : name ∉ reserved) : Routine .ascii .expression (.synthetic (.identifier name)) :=
  .identifier (Alphabet.isWord_of_letters notEmpty letters) free

/-- A conditional with a block in front of its `else`, and a function and an object in its branches. -/
def choice : Node :=
  let name (name : String) : Node := .synthetic (.identifier name)
  let statement (expression : Node) : Node := .synthetic (.expressionStatement expression)
  let object : Node := .synthetic (.objectLiteral [.synthetic (.propertyAssignment "c" (name "d"))])
  let assign : Node := statement (.synthetic (.binaryExpression .assign (name "b") object))
  let inner : Node := .synthetic (.ifStatement (name "a") assign none)
  let function : Node := .synthetic (.functionExpression none [name "g"]
    (.synthetic (.block [.synthetic (.returnStatement (some (name "g")))])) false)
  let call : Node := .synthetic (.callExpression (.synthetic (.propertyAccess (name "e") "f")) [function])
  .synthetic (.ifStatement (name "a") (.synthetic (.block [inner])) (some (statement call)))

example : choice.print =
    "if (a) \x7b\n    if (a) b = \x7b c: d \x7d;\n\x7d else e.f(function (g) \x7b\n    return g;\n\x7d);\n" :=
      by rfl

theorem reads_print_choice : Routine .ascii .statement choice ∧ AllClear choice ∧
    ((∀ tree, (Clause.statement false).Reads .ascii choice.print tree ↔ tree = choice.bare) ↔ AllClear choice) ∧
      ∀ other, Routine .ascii .statement other → AllClear choice → AllClear other → other.print = choice.print →
        other.bare = choice.bare := by
  have isWord {name : String} (notEmpty : name.toList ≠ []) (letters : name.toList.all isLetter = true) :
      Alphabet.ascii.IsWord name := Alphabet.isWord_of_letters notEmpty letters
  have isA : Routine .ascii .expression (.synthetic (.identifier "a")) :=
    routine_name (by decide) rfl (by decide)
  have routine : Routine .ascii .statement choice := by
    refine .ifStatement isA (.block (List.forall_mem_singleton.2 (.ifStatement isA ?_ nofun))) ?_
    · refine .expressionStatement (.assign (routine_name (by decide) rfl (by decide)) (.object ?_))
      refine List.forall_mem_singleton.2 (.assignment (isWord (by decide) rfl) ?_)
      exact routine_name (by decide) rfl (by decide)
    · rintro _ ⟨⟩
      refine .expressionStatement (.call (.property ?_ (isWord (by decide) rfl)) ?_)
      · exact routine_name (by decide) rfl (by decide)
      refine List.forall_mem_singleton.2 (.function nofun ?_ ?_)
      · exact List.forall_mem_singleton.2 ⟨"g", rfl, isWord (by decide) rfl, by decide⟩
      · refine List.forall_mem_singleton.2 (.returnStatement ?_)
        rintro _ ⟨⟩
        exact routine_name (by decide) rfl (by decide)
  refine ⟨routine, ⟨?_, ?_⟩, routine.reads_print_iff_allClear⟩
  · unfold AllOwnElse
    decide +kernel
  · unfold AllGuarded
    decide +kernel

/-- A conditional without an `else` in front of the `else` of another one. -/
def openBranch : Node :=
  let name (name : String) : Node := .synthetic (.identifier name)
  let statement (expression : Node) : Node := .synthetic (.expressionStatement expression)
  let inner : Node := .synthetic (.ifStatement (name "b") (statement (name "x")) none)
  .synthetic (.ifStatement (name "a") inner (some (statement (name "y"))))

/-- A conditional with an `else` in a conditional without one. -/
def shutBranch : Node :=
  let name (name : String) : Node := .synthetic (.identifier name)
  let statement (expression : Node) : Node := .synthetic (.expressionStatement expression)
  let inner : Node := .synthetic (.ifStatement (name "b") (statement (name "x")) (some (statement (name "y"))))
  .synthetic (.ifStatement (name "a") inner none)

/-- An empty object as a statement. -/
def objectAlone : Node := .synthetic (.expressionStatement (.synthetic (.objectLiteral [])))

/-- An `else` behind a conditional without one is written like the `else` of that, and an object that is a
statement is written like a block. -/
theorem not_reads_openBranch : Routine .ascii .statement openBranch ∧ Routine .ascii .statement shutBranch ∧
    Routine .ascii .statement objectAlone ∧ openBranch.print = shutBranch.print ∧
      openBranch.bare ≠ shutBranch.bare ∧
      (Clause.statement false).Reads .ascii openBranch.print shutBranch.bare ∧
        ¬ (Clause.statement false).Reads .ascii openBranch.print openBranch.bare ∧
          objectAlone.print = "\x7b\x7d;\n" ∧
            ¬ (Clause.statement false).Reads .ascii objectAlone.print objectAlone.bare := by
  have isA : Routine .ascii .expression (.synthetic (.identifier "a")) :=
    routine_name (by decide) rfl (by decide)
  have isB : Routine .ascii .expression (.synthetic (.identifier "b")) :=
    routine_name (by decide) rfl (by decide)
  have isX : Routine .ascii .expression (.synthetic (.identifier "x")) :=
    routine_name (by decide) rfl (by decide)
  have isY : Routine .ascii .expression (.synthetic (.identifier "y")) :=
    routine_name (by decide) rfl (by decide)
  have isOpen : Routine .ascii .statement openBranch := by
    refine .ifStatement isA (.ifStatement isB (.expressionStatement isX) nofun) ?_
    rintro _ ⟨⟩
    exact .expressionStatement isY
  have isShut : Routine .ascii .statement shutBranch := by
    refine .ifStatement isA (.ifStatement isB (.expressionStatement isX) ?_) nofun
    rintro _ ⟨⟩
    exact .expressionStatement isY
  have isObject : Routine .ascii .statement objectAlone := .expressionStatement (.object nofun)
  have same : openBranch.print = shutBranch.print := rfl
  have clear : AllClear shutBranch :=
    ⟨by unfold AllOwnElse; decide +kernel, by unfold AllGuarded; decide +kernel⟩
  refine ⟨isOpen, isShut, isObject, same, fun equal => ?_, ?_, fun reads => ?_, rfl, fun reads => ?_⟩
  · exact absurd (congrArg Node.isShut equal) (by decide)
  · rw [same]
    exact isShut.reads_iff.2 clear
  · exact absurd (isOpen.reads_iff.1 reads).local.1 (by decide)
  · exact absurd (isObject.reads_iff.1 reads).local.2 (by decide)

end Reading

end Script

end Resumable
