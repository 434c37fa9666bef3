import Resumable.Proofs.Guards
import Resumable.Proofs.Signs

/-!
# Parentheses that are missing

The tokens that are written for a node, read one after the other along with its needs, show what is missing: if
they meet the needs then no expression that is a statement is exposed, and no `new` constructs what a call leads
to (`Script.IsExact`, form by form).
-/

namespace Resumable.Script

/-! ## What is missing -/

/-- No node of the tree needs a parenthesis that is not written. -/
def AllGuarded (node : Node) : Prop := ∀ inner ∈ node.subtree, inner.isGuarded = true

theorem allGuarded_iff {node : Node} :
    AllGuarded node ↔ node.isGuarded = true ∧ ∀ child ∈ node.children, AllGuarded child :=
  forall_subtree_iff

/-- If the tokens meet the needs then the statement holds, whatever follows them and meets needs of its own. -/
def Reveals (opened after : Bool) (needs : List Bool) (tokens : List Token) (holds : Prop) : Prop :=
  ∀ following more, Meets opened (needs ++ more) (tokens ++ following) → holds ∧ Meets after more following

/-- A parenthesis stands in front of what follows the tokens. -/
def opens (opened : Bool) (tokens : List Token) : Bool := tokens.foldl (fun _ token => token = .mark "(") opened

namespace Reveals

variable {opened after after' : Bool} {needs others : List Bool} {tokens behind : List Token}
  {holds holds' : Prop}

theorem mono (reveals : Reveals opened after needs tokens holds) (weaker : holds → holds') :
    Reveals opened after needs tokens holds' :=
  fun following more meets => (reveals following more meets).imp weaker id

theorem append (first : Reveals opened after needs tokens holds)
    (second : Reveals after after' others behind holds') :
    Reveals opened after' (needs ++ others) (tokens ++ behind) (holds ∧ holds') := by
  intro following more meets
  rw [List.append_assoc, List.append_assoc] at meets
  obtain ⟨isFirst, meets⟩ := first _ _ meets
  obtain ⟨isSecond, meets⟩ := second _ _ meets
  exact ⟨⟨isFirst, isSecond⟩, meets⟩

theorem plain (opened : Bool) (tokens : List Token) :
    Reveals opened (opens opened tokens) ((tokens.filter Token.isFirm).map fun _ => false) tokens True := by
  induction tokens generalizing opened with
  | nil => exact fun following more meets => ⟨trivial, meets⟩
  | cons token tokens ih =>
    intro following more meets
    cases isFirm : token.isFirm with
    | true =>
      rw [List.filter_cons_of_pos isFirm, List.map_cons] at meets
      have notOpening : decide (token = .mark "(") = false := decide_eq_false fun isOpening => by
        rw [isOpening] at isFirm
        cases isFirm
      rw [opens, List.foldl_cons, notOpening]
      exact ih _ _ _ (meets.firm isFirm).2
    | false =>
      rw [List.filter_cons_of_neg (Bool.eq_false_iff.1 isFirm)] at meets
      exact ih _ _ _ (meets.mark isFirm)

/-- Parentheses behind the tokens. -/
theorem closed (first : Reveals opened after needs tokens holds)
    (second : Reveals after after' [] behind True) :
    Reveals opened after' needs (tokens ++ behind) holds := by
  have both := first.append second
  rw [List.append_nil] at both
  exact both.mono And.left

/-- A parenthesis that is needed in front of the first token is there, or none is needed. -/
theorem sharpen {need : Bool} (reveals : Reveals false after needs tokens holds)
    (begins : need = true → OpensWith 0 tokens) :
    Reveals false after (Script.sharpen need needs) tokens (need = false ∧ holds) := by
  intro following more meets
  cases need with
  | false =>
    obtain ⟨isHeld, meets⟩ := reveals following more meets
    exact ⟨⟨rfl, isHeld⟩, meets⟩
  | true =>
    obtain ⟨token, rest, rfl, isFirm⟩ := begins rfl
    cases (Meets.firm meets isFirm).1 rfl

theorem commas {α : Type} {items : List α} {needsOf : α → List Bool} {tokensOf : α → List Token}
    {holds : α → Prop}
    (each : ∀ item ∈ items, ∀ opened, Reveals opened false (needsOf item) (tokensOf item) (holds item)) :
    Reveals opened (opened && items.isEmpty) (List.intercalate [false] (items.map needsOf))
      (commas (items.map tokensOf)) (∀ item ∈ items, holds item) := by
  induction items generalizing opened with
  | nil =>
    rw [List.isEmpty_nil, Bool.and_true]
    exact fun following more meets => ⟨List.forall_mem_nil _, meets⟩
  | cons item items ih =>
    obtain ⟨first, each⟩ := List.forall_mem_cons.1 each
    rw [List.isEmpty_cons, Bool.and_false]
    cases items with
    | nil => simpa [Script.commas] using first opened
    | cons next items =>
      refine ((first opened).append ((plain _ [.mark ","]).append (ih each))).mono
        fun holds => ?_
      exact List.forall_mem_cons.2 ⟨holds.1, holds.2.2⟩

theorem flatMap {nodes : List Node}
    (each : ∀ node ∈ nodes, Reveals false false node.needs node.tokens (AllGuarded node)) :
    Reveals false false (nodes.flatMap Node.needs) (nodes.flatMap Node.tokens)
      (∀ node ∈ nodes, AllGuarded node) := by
  induction nodes with
  | nil => exact fun following more meets => ⟨List.forall_mem_nil _, meets⟩
  | cons node nodes ih =>
    obtain ⟨first, each⟩ := List.forall_mem_cons.1 each
    exact (first.append (ih each)).mono List.forall_mem_cons.2

end Reveals

/-- If the tokens that are written for the node meet its needs then nothing is missing in it. -/
def IsExact (opened : Bool) (node : Node) : Prop :=
  Reveals opened false node.needs node.tokens (AllGuarded node)

/-- Nothing is missing in a node whose tokens are a clause that stands for it. -/
theorem IsExact.allGuarded {clause : Clause} {node : Node} (isExact : IsExact false node)
    (forms : Forms clause node.tokens node.bare) : AllGuarded node := by
  have meets := forms.guarded false
  rw [Node.needs_bare, ← List.append_nil node.needs, ← List.append_nil node.tokens] at meets
  exact (isExact [] [] meets).1

section Nodes

variable {opened : Bool} {span : Span} {node : Node} {nodes : List Node}

theorem IsExact.placed (isExact : ∀ opened, IsExact opened node) (least : Nat) (opened : Bool) :
    Reveals opened false node.needs (Token.placed least (node, node.tokens)) (AllGuarded node) := by
  unfold Token.placed
  split
  · have inner := (Reveals.plain opened [.mark "("]).append (isExact true)
    exact (inner.closed (.plain _ [.mark ")"])).mono And.right
  · exact isExact opened

theorem IsExact.optional {part : Option Node} (each : ∀ inner ∈ part, ∀ opened, IsExact opened inner) :
    Reveals opened (opened && part.isNone) ((part.map fun node => (node, node.needs)).elim [] Prod.snd)
      (Token.ifAny (part.map fun node => (node, node.tokens))) (∀ inner ∈ part.toList, AllGuarded inner) := by
  cases part with
  | none =>
    rw [Option.isNone_none, Bool.and_true]
    exact fun following more meets => ⟨nofun, meets⟩
  | some inner =>
    rw [Option.isNone_some, Bool.and_false]
    exact (each inner rfl opened).mono List.forall_mem_singleton.2

theorem IsExact.arguments (each : ∀ item ∈ nodes, ∀ opened, IsExact opened item) :
    Reveals opened (opened && nodes.isEmpty)
      (List.intercalate [false] ((nodes.map fun node => (node, node.needs)).map Prod.snd))
      (Token.listed (nodes.map fun node => (node, node.tokens))) (∀ item ∈ nodes, AllGuarded item) := by
  rw [Token.listed, List.map_map, List.map_map]
  exact .commas fun item mem => IsExact.placed (each item mem) _

namespace IsExact

theorem identifier {name : String} : IsExact opened ⟨span, .identifier name⟩ :=
  (Reveals.plain opened [.word name]).mono fun _ => allGuarded_iff.2 ⟨rfl, nofun⟩

theorem property {object : Node} {name : String} (isObject : ∀ opened, IsExact opened object) :
    IsExact opened ⟨span, .propertyAccess object name⟩ := by
  refine ((IsExact.placed isObject _ opened).append (.plain _ [.mark ".", .word name])).mono
    fun ⟨object, _⟩ => ?_
  exact allGuarded_iff.2 ⟨rfl, List.forall_mem_singleton.2 object⟩

theorem element {object index : Node} (isObject : ∀ opened, IsExact opened object)
    (isIndex : ∀ opened, IsExact opened index) : IsExact opened ⟨span, .elementAccess object index⟩ := by
  have accessed := (IsExact.placed isObject Precedence.member opened).append (.plain _ [.mark "["])
  refine ((accessed.append (isIndex false)).append (.plain _ [.mark "]"])).mono
    fun ⟨⟨⟨object, _⟩, index⟩, _⟩ => ?_
  exact allGuarded_iff.2 ⟨rfl, List.forall_mem_cons.2 ⟨object, List.forall_mem_singleton.2 index⟩⟩

theorem call {callee : Node} {arguments : List Node} (isCallee : ∀ opened, IsExact opened callee)
    (each : ∀ item ∈ arguments, ∀ opened, IsExact opened item) :
    IsExact opened ⟨span, .callExpression callee arguments⟩ := by
  unfold IsExact
  rw [Node.needs_eq, Node.tokens_eq]
  have called := (IsExact.placed isCallee Precedence.member opened).closed (.plain _ [.mark "("])
  refine ((called.append (IsExact.arguments each)).closed (.plain _ [.mark ")"])).mono fun holds => ?_
  exact allGuarded_iff.2 ⟨rfl, List.forall_mem_cons.2 holds⟩

theorem new {callee : Node} {arguments : List Node} (isCallee : ∀ opened, IsExact opened callee)
    (begins : OpensWith 0 (Token.placed Precedence.member (callee, callee.tokens)))
    (each : ∀ item ∈ arguments, ∀ opened, IsExact opened item) :
    IsExact opened ⟨span, .newExpression callee arguments⟩ := by
  unfold IsExact
  rw [Node.needs_eq, Node.tokens_eq]
  have constructed := (IsExact.placed isCallee Precedence.member false).sharpen
    fun _ : callee.isCalled = true => begins
  have begun := ((Reveals.plain opened [.word "new"]).append constructed).closed (.plain _ [.mark "("])
  refine ((begun.append (IsExact.arguments each)).closed (.plain _ [.mark ")"])).mono
    fun ⟨⟨_, notCalled, callee⟩, all⟩ => ?_
  exact allGuarded_iff.2 ⟨congrArg not notCalled, List.forall_mem_cons.2 ⟨callee, all⟩⟩

theorem assign {target value : Node} (isTarget : ∀ opened, IsExact opened target)
    (isValue : ∀ opened, IsExact opened value) :
    IsExact opened ⟨span, .binaryExpression .assign target value⟩ := by
  have begun := (IsExact.placed isTarget (Precedence.assignment + 1) opened).append (.plain _ [.mark "="])
  refine (begun.append (IsExact.placed isValue Precedence.yield false)).mono fun ⟨⟨target, _⟩, value⟩ => ?_
  exact allGuarded_iff.2 ⟨rfl, List.forall_mem_cons.2 ⟨target, List.forall_mem_singleton.2 value⟩⟩

theorem assignment {name : String} {value : Node} (isValue : ∀ opened, IsExact opened value) :
    IsExact opened ⟨span, .propertyAssignment name value⟩ := by
  have begun := Reveals.plain opened [.word name, .mark ":"]
  refine (begun.append (IsExact.placed isValue (Precedence.comma + 1) false)).mono fun ⟨_, value⟩ => ?_
  exact allGuarded_iff.2 ⟨rfl, List.forall_mem_singleton.2 value⟩

theorem object {properties : List Node} (each : ∀ property ∈ properties, ∀ opened, IsExact opened property) :
    IsExact opened ⟨span, .objectLiteral properties⟩ := by
  have begun := (Reveals.plain opened [.mark "\x7b"]).append (.commas each)
  unfold IsExact
  rw [Node.needs_eq, Node.tokens_eq]
  show Reveals _ _ ([_] ++ List.intercalate _ ((properties.map _).map _) ++ [_])
    ([_] ++ commas ((properties.map _).map _) ++ [_]) _
  rw [List.map_map, List.map_map]
  refine (begun.append (.plain _ [.mark "\x7d"])).mono fun ⟨⟨_, all⟩, _⟩ => ?_
  exact allGuarded_iff.2 ⟨rfl, all⟩

theorem function {name : Option String} {parameters : List Node} {body : Node} {isGenerator : Bool}
    (each : ∀ parameter ∈ parameters, ∀ opened, IsExact opened parameter) (isBody : IsExact false body) :
    IsExact opened ⟨span, .functionExpression name parameters body isGenerator⟩ := by
  have star : Reveals false false (if isGenerator then [false] else [])
      (if isGenerator then [.mark "*"] else []) True := by
    cases isGenerator
    · exact .plain false []
    · exact .plain false [.mark "*"]
  have named : Reveals false false (name.toList.map fun _ => false) (name.toList.map .word) True := by
    cases name with
    | none => exact .plain false []
    | some name => exact .plain false [.word name]
  have begun := (((Reveals.plain opened [.word "function"]).append star).append named).closed
    (.plain _ [.mark "("])
  have head := (begun.append (IsExact.arguments each)).closed (.plain _ [.mark ")"])
  unfold IsExact
  rw [Node.needs_eq, Node.tokens_eq]
  refine (head.append isBody).mono fun ⟨⟨_, all⟩, body⟩ => ?_
  exact allGuarded_iff.2 ⟨rfl, List.forall_mem_append.2 ⟨all, List.forall_mem_singleton.2 body⟩⟩

/-! ### Statements -/

theorem block {statements : List Node} (each : ∀ statement ∈ statements, IsExact false statement) :
    IsExact false ⟨span, .block statements⟩ := by
  have begun := (Reveals.plain false [.mark "\x7b"]).append (.flatMap each)
  unfold IsExact
  rw [Node.needs_eq, Node.tokens_eq]
  show Reveals _ _ ([_] ++ (statements.map _).flatMap _ ++ [_]) ([_] ++ (statements.map _).flatMap _ ++ [_]) _
  rw [List.flatMap_map, List.flatMap_map]
  refine (begun.append (.plain _ [.mark "\x7d"])).mono fun ⟨⟨_, all⟩, _⟩ => ?_
  exact allGuarded_iff.2 ⟨rfl, all⟩

theorem expressionStatement {expression : Node} (isExpression : ∀ opened, IsExact opened expression)
    (begins : expression.isExposed = true → OpensWith 0 expression.tokens) :
    IsExact false ⟨span, .expressionStatement expression⟩ := by
  have bare := (isExpression false).sharpen begins
  refine (bare.append (.plain _ [.mark ";"])).mono fun ⟨⟨notExposed, expression⟩, _⟩ => ?_
  exact allGuarded_iff.2 ⟨congrArg not notExposed, List.forall_mem_singleton.2 expression⟩

theorem ifThen {condition thenBranch : Node} (isCondition : ∀ opened, IsExact opened condition)
    (isThen : IsExact false thenBranch) : IsExact false ⟨span, .ifStatement condition thenBranch none⟩ := by
  have head := ((Reveals.plain false [.word "if", .mark "("]).append (isCondition true)).closed
    (.plain _ [.mark ")"])
  refine (head.append isThen).mono fun ⟨⟨_, condition⟩, thenBranch⟩ => ?_
  exact allGuarded_iff.2 ⟨rfl, List.forall_mem_cons.2 ⟨condition, List.forall_mem_singleton.2 thenBranch⟩⟩

theorem ifElse {condition thenBranch elseBranch : Node} (isCondition : ∀ opened, IsExact opened condition)
    (isThen : IsExact false thenBranch) (isElse : IsExact false elseBranch) :
    IsExact false ⟨span, .ifStatement condition thenBranch (some elseBranch)⟩ := by
  have head := ((Reveals.plain false [.word "if", .mark "("]).append (isCondition true)).closed
    (.plain _ [.mark ")"])
  have otherwise := (Reveals.plain false [.word "else"]).append isElse
  refine ((head.append isThen).append otherwise).mono fun ⟨⟨⟨_, condition⟩, thenBranch⟩, _, elseBranch⟩ => ?_
  exact allGuarded_iff.2 ⟨rfl, List.forall_mem_cons.2 ⟨condition, List.forall_mem_cons.2
    ⟨thenBranch, List.forall_mem_singleton.2 elseBranch⟩⟩⟩

theorem whileStatement {condition body : Node} (isCondition : ∀ opened, IsExact opened condition)
    (isBody : IsExact false body) : IsExact false ⟨span, .whileStatement condition body⟩ := by
  have begun := (Reveals.plain false [.word "while", .mark "("]).append (isCondition true)
  refine ((begun.closed (.plain _ [.mark ")"])).append isBody).mono fun ⟨⟨_, condition⟩, body⟩ => ?_
  exact allGuarded_iff.2 ⟨rfl, List.forall_mem_cons.2 ⟨condition, List.forall_mem_singleton.2 body⟩⟩

theorem doWhileStatement {body condition : Node} (isBody : IsExact false body)
    (isCondition : ∀ opened, IsExact opened condition) :
    IsExact false ⟨span, .doWhileStatement body condition⟩ := by
  have begun := ((Reveals.plain false [.word "do"]).append isBody).append (.plain _ [.word "while", .mark "("])
  have whole := (begun.append (isCondition true)).append (.plain _ [.mark ")", .mark ";"])
  refine whole.mono fun ⟨⟨⟨⟨_, body⟩, _⟩, condition⟩, _⟩ => ?_
  exact allGuarded_iff.2 ⟨rfl, List.forall_mem_cons.2 ⟨body, List.forall_mem_singleton.2 condition⟩⟩

theorem forStatement {initializer condition incrementor : Option Node} {body : Node}
    (isInitializer : ∀ part ∈ initializer, ∀ opened, IsExact opened part)
    (isCondition : ∀ part ∈ condition, ∀ opened, IsExact opened part)
    (isIncrementor : ∀ part ∈ incrementor, ∀ opened, IsExact opened part) (isBody : IsExact false body) :
    IsExact false ⟨span, .forStatement initializer condition incrementor body⟩ := by
  have begun := (Reveals.plain false [.word "for", .mark "("]).append (IsExact.optional isInitializer)
  have first := (begun.append (.plain _ [.mark ";"])).append (IsExact.optional isCondition)
  have second := (first.append (.plain _ [.mark ";"])).append (IsExact.optional isIncrementor)
  unfold IsExact
  rw [Node.needs_eq, Node.tokens_eq]
  refine ((second.closed (.plain _ [.mark ")"])).append isBody).mono
    fun ⟨⟨⟨⟨⟨⟨_, initializer⟩, _⟩, condition⟩, _⟩, incrementor⟩, body⟩ => ?_
  refine allGuarded_iff.2 ⟨rfl, List.forall_mem_append.2 ⟨?_, List.forall_mem_singleton.2 body⟩⟩
  exact List.forall_mem_append.2 ⟨List.forall_mem_append.2 ⟨initializer, condition⟩, incrementor⟩

theorem labeledStatement {label : String} {statement : Node} (isStatement : IsExact false statement) :
    IsExact false ⟨span, .labeledStatement label statement⟩ := by
  refine ((Reveals.plain false [.word label, .mark ":"]).append isStatement).mono fun ⟨_, statement⟩ => ?_
  exact allGuarded_iff.2 ⟨rfl, List.forall_mem_singleton.2 statement⟩

theorem returnStatement {value : Option Node} (isValue : ∀ part ∈ value, ∀ opened, IsExact opened part) :
    IsExact false ⟨span, .returnStatement value⟩ := by
  have begun := (Reveals.plain false [.word "return"]).append (IsExact.optional isValue)
  unfold IsExact
  rw [Node.needs_eq, Node.tokens_eq]
  refine (begun.append (.plain _ [.mark ";"])).mono fun ⟨⟨_, value⟩, _⟩ => ?_
  exact allGuarded_iff.2 ⟨rfl, value⟩

end IsExact

end Nodes

end Resumable.Script
