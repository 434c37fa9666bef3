import Mathlib.Algebra.GroupWithZero.Nat
import Resumable.Proofs.FreshNames
import Resumable.Proofs.Survivors

/-!
# Counting what stands in a scope

A `Census` says what a node of one function's own scope counts: a node with a name of its own, a
`yield` statement, and a function that stands in the scope.  A run does not change the census of a
scope while it lowers the functions in it (`census_lowerNode`), and neither does an edit of the
scope by the engines of the library, apart from the names that they make up (`census_lowerAt`,
`census_desugar`, `census_awaitStep`).  Lowering the for-in loops of a scope drops the initializers
that declare a loop variable, of which only the name is left.
-/

namespace Resumable

/-- What the nodes of a scope count. -/
structure Census where
  /-- A node of a form, with a name of its own. -/
  named : Form → String → Nat
  /-- A `yield` statement with its span, and whether it iterates over an operand. -/
  yielding : Span → Bool → Nat
  /-- A function that stands in the scope, and whether it is a member of a class or an object. -/
  function : Bool → Node → Nat

namespace Node

/-- The children are the members of a class or of an object. -/
def isMemberList (node : Node) : Bool :=
  match node.kind with
  | .classDeclaration .. | .objectLiteral .. => true
  | _ => false

theorem isMemberList_map {α : Type} (f g : α → Node) (span : Span) (kind : Kind α) :
    isMemberList ⟨span, kind.map f⟩ = isMemberList ⟨span, kind.map g⟩ := by
  cases kind <;> rfl

end Node

namespace Census

variable (c : Census)

/-- What a node counts by itself. -/
def here (node : Node) : Nat :=
  match node.kind with
  | .suspensionStatement isIteration operand => c.yielding node.span (isIteration && operand.isSome)
  | kind => (kind.ownName?.map (c.named kind.form)).getD 0

/-- What is left of the initializer of a for-in loop that is dropped: the loop variable. -/
def bound (loopsLowered : Bool) (node : Node) : Nat :=
  match node.kind with
  | .forInStatement initializer _ _ =>
    if loopsLowered then ((declaredVariable? initializer).map (c.named .variableDeclaration)).getD 0
    else 0
  | _ => 0

/-- Nothing is counted where a name stands that was made up. -/
def Ignores (name : String) : Prop :=
  c.named .identifier name = 0 ∧ c.named .variableDeclaration name = 0

theorem here_map {α : Type} (f g : α → Node) (span : Span) (kind : Kind α) :
    c.here ⟨span, kind.map f⟩ = c.here ⟨span, kind.map g⟩ := by
  cases kind
  case suspensionStatement isIteration operand => cases operand <;> rfl
  all_goals rfl

theorem bound_of_not_loop {loopsLowered : Bool} {node : Node}
    (other : loopsLowered = false ∨ node.form ≠ .forInStatement) : c.bound loopsLowered node = 0 := by
  obtain ⟨span, kind⟩ := node
  cases kind
  case forInStatement =>
    rcases other with rfl | other
    · rfl
    · exact absurd rfl other
  all_goals rfl

theorem bound_map {α : Type} {f g : α → Node} (loopsLowered : Bool) (span : Span) (kind : Kind α)
    (same : ∀ a ∈ kind.children, declaredVariable? (f a) = declaredVariable? (g a)) :
    c.bound loopsLowered ⟨span, kind.map f⟩ = c.bound loopsLowered ⟨span, kind.map g⟩ := by
  cases kind
  case forInStatement initializer expression body =>
    simp only [bound, Node.kind, Kind.map, same initializer (by simp [Kind.children])]
  all_goals rfl

end Census

namespace Node

/-- The census of a scope. Under `loopsLowered` the initializers are left out that lowering the
for-in loops of the scope drops. -/
def census (c : Census) (loopsLowered : Bool) (node : Node) : Bool → Nat :=
  node.para fun node parts isMember =>
    if node.isFunctionScope then c.function isMember node
    else c.here node + c.bound loopsLowered node +
      ((parts.kept fun part => dropsInitializer loopsLowered part.1).map fun part =>
        part.2 node.isMemberList).sum

variable {c : Census} {loopsLowered isMember : Bool} {node : Node}

theorem census_scope (scope : node.isFunctionScope = true) :
    node.census c loopsLowered isMember = c.function isMember node := by
  rw [census, para_eq, if_pos scope]

theorem census_plain (plain : node.isFunctionScope = false) :
    node.census c loopsLowered isMember = c.here node + c.bound loopsLowered node +
      ((node.keptChildren loopsLowered).map fun child =>
        child.census c loopsLowered node.isMemberList).sum := by
  rw [census, para_eq, plain]
  simp only [Bool.false_eq_true, if_false, Kind.kept_map, List.map_map]
  rfl

/-- The census of a node that opens no scope, all of it. -/
theorem census_all (plain : node.isFunctionScope = false) :
    node.census c false isMember =
      c.here node + (node.children.map fun child => child.census c false node.isMemberList).sum := by
  rw [census_plain plain, c.bound_of_not_loop (.inl rfl), keptChildren_false, Nat.add_zero]

theorem census_member (plain : node.isFunctionScope = false) (isMember isMember' : Bool) :
    node.census c loopsLowered isMember = node.census c loopsLowered isMember' := by
  rw [census_plain plain, census_plain plain]

theorem census_mk (span : Span) (kind : Kind Node) :
    census c false ⟨span, kind⟩ isMember =
      if kind.form.isFunctionScope then c.function isMember ⟨span, kind⟩
      else c.here ⟨span, kind⟩ + (kind.children.map fun child =>
        child.census c false (isMemberList ⟨span, kind⟩)).sum := by
  split
  · exact census_scope ‹_›
  · exact census_all (Bool.not_eq_true _ ▸ ‹_›)

/-- A node with other children of the same census has the same census. -/
theorem census_rebuilt {α : Type} {parts : Kind α} {before after : α → Node} {flag flag' : Bool}
    (same : parts.map before = node.kind) (plain : node.isFunctionScope = false)
    (flags : flag = flag' ∨ node.form ≠ .forInStatement)
    (each : ∀ part ∈ parts.children,
      (flag = false ∨ declaredVariable? (after part) = declaredVariable? (before part)) ∧
      ∀ isMember, (after part).census c flag isMember = (before part).census c flag' isMember)
    (isMember : Bool) :
    census c flag ⟨node.span, parts.map after⟩ isMember = node.census c flag' isMember := by
  obtain ⟨span, kind⟩ := node
  obtain rfl : parts.map before = kind := same
  have form : form ⟨span, parts.map after⟩ = form ⟨span, parts.map before⟩ := by
    simp [Node.form, Node.kind]
  have memberList := isMemberList_map after before span parts
  have stillPlain : isFunctionScope ⟨span, parts.map after⟩ = false := by
    rw [isFunctionScope, form]
    exact plain
  have declares (part : α) (mem : part ∈ parts.children) : flag = true →
      declaredVariable? (after part) = declaredVariable? (before part) := fun isTrue =>
    (each part mem).1.resolve_left (by simp [isTrue])
  have bound : c.bound flag ⟨span, parts.map after⟩ = c.bound flag' ⟨span, parts.map before⟩ := by
    rcases flags with rfl | other
    · cases flag with
      | false => rw [c.bound_of_not_loop (.inl rfl), c.bound_of_not_loop (.inl rfl)]
      | true => exact c.bound_map true span parts fun part mem => declares part mem rfl
    · rw [c.bound_of_not_loop (.inr other), c.bound_of_not_loop (.inr (form ▸ other))]
  obtain ⟨kept, inside, keptAfter, keptBefore⟩ := keptChildren_rebuilt
    (show parts.map before = kind ⟨span, parts.map before⟩ from rfl) flags
    (fun part mem => (each part mem).1) span
  change census c flag ⟨span, parts.map after⟩ isMember = _
  rw [census_plain plain, census_plain stillPlain, c.here_map after before, bound, memberList,
    keptAfter, keptBefore, List.map_map, List.map_map]
  congr 2
  exact List.map_congr_left fun part mem => (each part (inside mem)).2 _

end Node

/-! ## Lowering the functions in a scope -/

namespace Lowering

variable {σ : Type}

theorem ownName?_withBody (node body : Node) :
    (node.withBody body).kind.ownName? = node.kind.ownName? := by
  obtain ⟨span, kind⟩ := node
  cases kind <;> rfl

theorem ownName?_rebuilt {node : Node} {results : Kind (Node × Option Node)}
    (same : results.map Prod.fst = node.kind) :
    ((node.assemble results).getD node).kind.ownName? = node.kind.ownName? := by
  rw [Node.assemble_getD same]
  exact (Kind.ownName?_map _ results).trans (by rw [← same, Kind.ownName?_map])

/-- A run keeps the name of a node. -/
theorem ownName?_lowerNode (limit : UInt32) (engines : Engines σ) (node : Node) (s : State σ) :
    (((lowerNode limit engines node).run s).1.getD node).kind.ownName? = node.kind.ownName? := by
  have rebuilt (start : State σ) :
      (((node.rebuild (parts limit engines node)).run start).1.getD node).kind.ownName? =
        node.kind.ownName? := by
    obtain ⟨results, same, answer, -⟩ := Node.rebuild_each (R := fun _ _ => True) node
      (fun child _ s => trivial) start
    rw [answer, ownName?_rebuilt same]
  by_cases refused : node.isFunctionScope = true ∧ limit.toNat ≤ s.depth
  · rw [run_lowerNode_refused limit _ refused.1 refused.2]
    rfl
  · cases node using Node.cases_scope with
    | function node body isFunction has mem =>
      have room := fun deep => refused ⟨Node.isFunctionScope_of_like isFunction, deep⟩
      rw [run_lowerNode_function limit _ isFunction has (Nat.lt_of_not_le room), map_withBody_getD has]
      exact ownName?_withBody node _
    | expression node isExpression =>
      have room := fun deep => refused ⟨Node.isFunctionScope_of_expression isExpression, deep⟩
      rw [run_lowerNode_expression limit _ isExpression (Nat.lt_of_not_le room)]
      exact rebuilt s.deeper
    | plain node plain =>
      rw [lowerNode_plain limit _ plain]
      exact rebuilt s

/-- Lowering the functions in a scope does not change its census, unless their bodies count. -/
theorem census_lowerNode {c : Census}
    (blind : ∀ (f f' : Node) (isMember : Bool), f.form = f'.form →
      f.kind.ownName? = f'.kind.ownName? → c.function isMember f = c.function isMember f')
    (limit : UInt32) (engines : Engines σ) (loopsLowered : Bool) (node : Node) (s : State σ)
    (isMember : Bool) :
    (((lowerNode limit engines node).run s).1.getD node).census c loopsLowered isMember =
      node.census c loopsLowered isMember := by
  induction node using Node.inductionOn generalizing s isMember with
  | step node ih =>
    have kept := isFunctionScope_lowerNode limit engines node s
    cases scope : node.isFunctionScope with
    | true =>
      rw [Node.census_scope (kept.trans scope), Node.census_scope scope]
      exact blind _ _ _ (form_lowerNode limit engines node s) (ownName?_lowerNode limit engines node s)
    | false =>
      obtain ⟨results, same, answer, related⟩ := Node.rebuild_each
        (R := fun child result => declaredVariable? (result.getD child) = declaredVariable? child ∧
          ∀ isMember, (result.getD child).census c loopsLowered isMember =
            child.census c loopsLowered isMember) node
        (fun child mem s => ⟨declaredVariable?_lowerNode limit engines child s,
          fun isMember => ih child mem s isMember⟩) s
      rw [lowerNode_plain limit _ scope, answer, Node.assemble_getD same]
      exact Node.census_rebuilt same scope (.inl rfl)
        (fun part mem => ⟨.inr (related part mem).1, (related part mem).2⟩) isMember

end Lowering

/-! ## Lowering the for-in loops of a scope -/

namespace ForIn

open Build

variable {c : Census}

/-- What the label of a loop counts. -/
def labelCount (c : Census) (label : Option String) : Nat :=
  (label.map (c.named .labeledStatement)).getD 0

theorem census_statements (body : Node) :
    (body.statements.map fun statement => statement.census c false false).sum =
      body.census c false false := by
  obtain ⟨span, kind⟩ := body
  cases kind
  case block | program =>
    simp [Node.statements, Node.kind, Node.census_mk, Kind.form, Form.isFunctionScope,
      Form.isFunctionLike, Kind.children, Census.here, Kind.ownName?, Node.isMemberList]
  all_goals exact Nat.add_zero _

theorem census_loop {names : Names}
    (ignores : ∀ name ∈ [names.keys, names.collection, names.property, names.index], c.Ignores name)
    (label : Option String) (span : Span) (initializer expression body : Node) (isMember : Bool) :
    (loop names label span initializer expression body).census c false isMember =
      labelCount c label + expression.census c false false +
        ((declaredVariable? initializer).map (c.named .variableDeclaration)).getD
          (initializer.census c false false) +
        body.census c false false := by
  simp only [List.mem_cons, List.not_mem_nil, or_false, forall_eq_or_imp, forall_eq, Census.Ignores] at ignores
  obtain ⟨⟨keys, keys'⟩, ⟨collection, collection'⟩, ⟨property, property'⟩, ⟨index, index'⟩⟩ := ignores
  have currentKey : names.currentKey.census c false false = 0 := by
    simp [Names.currentKey, element, identifier, Node.synthetic, Node.census_mk, Kind.form,
      Form.isFunctionScope, Form.isFunctionLike, Kind.children, Census.here, Node.kind,
      Kind.ownName?, Node.isMemberList, keys, index]
  have bound : (bindVariable initializer names.currentKey).census c false false =
      ((declaredVariable? initializer).map (c.named .variableDeclaration)).getD
          (initializer.census c false false) := by
    unfold bindVariable
    cases declaredVariable? initializer <;>
    simp [currentKey, variableStatement, variableDeclaration, assignmentStatement, expressionStatement,
      assignment, binary, Node.synthetic, Node.census_mk, Kind.form,
      Form.isFunctionScope, Form.isFunctionLike, Kind.children, Census.here, Node.kind,
      Kind.ownName?, Node.isMemberList]
  have walk : (names.walkKeys initializer body.statements).census c false false =
      (bindVariable initializer names.currentKey).census c false false +
        body.census c false false := by
    rw [← census_statements body]
    simp [Names.walkKeys, Names.skipDeleted, currentKey, forStatement, variableStatement,
      variableDeclaration, number, binary, identifier, Build.property, postfixIncrement, block,
      ifStatement, Build.not, unary, continueStatement, Node.synthetic, Node.census_mk, Kind.form,
      Form.isFunctionScope, Form.isFunctionLike, Kind.children, Census.here, Node.kind,
      Kind.ownName?, Node.isMemberList, keys, index, index', collection]
  rw [← bound]
  cases label <;>
    simp [loop, walk, labelCount, Names.collectKeys, labeledStatement, forInStatement, expressionStatement,
      methodCall, call, array, variableStatement, variableDeclaration, identifier, Build.property,
      Node.synthetic, Node.census_mk, Kind.form, Form.isFunctionScope, Form.isFunctionLike,
      Kind.children, Census.here, Node.kind, Kind.ownName?, Node.isMemberList, keys, keys',
      collection, collection', property, property']
  all_goals omega

/-- The names of a loop are the next four. -/
theorem gives_take (s : NameSupply) :
    let names := Names.take.run s
    s.Gives [names.1.keys, names.1.collection, names.1.property, names.1.index] names.2 :=
  NameSupply.gives_next 4 s

/-- Lowering the for-in loops of a scope takes names, and apart from these the census is that of the
scope without the initializers that are dropped. A label that is handed to a loop is counted with
it. -/
theorem census_lowerAt (node : Node) (label : Option String) (s : NameSupply) :
    let out := (lowerAt node label).run s
    ∃ names, s.Gives names out.2 ∧ ∀ c : Census, (∀ name ∈ names, c.Ignores name) → ∀ isMember,
      (out.1.getD node).census c false isMember = node.census c true isMember +
        if node.form = .forInStatement then labelCount c label else 0 := by
  induction node using Node.inductionOn generalizing label s with
  | step node ih =>
    cases node using cases_node with
    | scope node scope =>
      rw [lowerAt_scope scope]
      refine ⟨[], NameSupply.isTrace_gives.nil s, fun c _ isMember => ?_⟩
      have notLoop : node.form ≠ .forInStatement := by
        intro isLoop
        rw [Node.isFunctionScope, isLoop] at scope
        cases scope
      rw [if_neg notLoop, Nat.add_zero, Node.census_scope scope]
      exact Node.census_scope scope
    | loop span initializer expression body =>
      have plain : Node.isFunctionScope ⟨span, .forInStatement initializer expression body⟩ = false :=
        rfl
      simp only [Node.children, Node.kind, Kind.children, List.mem_cons, List.not_mem_nil, or_false,
        forall_eq_or_imp, forall_eq] at ih
      obtain ⟨ofInitializer, ofExpression, ofBody⟩ := ih
      let first := (lowerAt initializer none).run s
      let second := (lowerAt expression none).run first.2
      let third := (lowerAt body none).run second.2
      obtain ⟨names₁, gives₁, census₁⟩ := ofInitializer none s
      obtain ⟨names₂, gives₂, census₂⟩ := ofExpression none first.2
      obtain ⟨names₃, gives₃, census₃⟩ := ofBody none second.2
      have append {s t u : NameSupply} {a b : List String} (first : s.Gives a t) (rest : t.Gives b u) :=
        NameSupply.isTrace_gives.append first rest
      refine ⟨_, append gives₁ (append gives₂ (append gives₃ (gives_take third.2))), ?_⟩
      intro c ignores isMember
      simp only [List.mem_append, or_imp, forall_and] at ignores
      obtain ⟨ignores₁, ignores₂, ignores₃, ignores⟩ := ignores
      have unlabeled (node : Node) :
          (if node.form = .forInStatement then labelCount c none else 0) = 0 := by
        split <;> rfl
      rw [run_lowerAt_forIn, Option.getD_some, census_loop ignores, declaredVariable?_lowerAt,
        census₁ c ignores₁, census₂ c ignores₂, census₃ c ignores₃, Node.census_plain plain,
        unlabeled, unlabeled, unlabeled]
      cases declares : declaredVariable? initializer <;>
        simp [Census.here, Census.bound, Node.kind, Kind.ownName?, Node.keptChildren, Kind.kept,
          Node.dropsInitializer, Node.isMemberList, Node.form, Kind.form, declares] <;> omega
    | labeled span inner statement isLoop =>
      obtain ⟨span', kind⟩ := statement
      cases kind <;> try cases isLoop
      rename_i initializer expression body
      have plain : Node.isFunctionScope ⟨span, .labeledStatement inner
          ⟨span', .forInStatement initializer expression body⟩⟩ = false := rfl
      obtain ⟨names, gives, census⟩ := ih ⟨span', .forInStatement initializer expression body⟩
        (by simp [Node.children, Node.kind, Kind.children]) (some inner) s
      rw [lowerAt_labeled rfl]
      refine ⟨names, gives, fun c ignores isMember => ?_⟩
      have lowered := census c ignores isMember
      rw [run_lowerAt_forIn] at lowered ⊢
      refine lowered.trans ?_
      rw [Node.census_plain plain, Node.census_member rfl isMember false]
      simp [Census.here, Census.bound, Node.kind, Kind.ownName?, Node.keptChildren, Kind.kept,
        Kind.children, Node.isMemberList, Node.form, Kind.form, labelCount, Nat.add_comm]
    | plain node plain =>
      obtain ⟨-, parts, same, answer, gives, each⟩ := Node.rebuild_traced
        NameSupply.isTrace_gives (I := fun _ => True) (f := fun child => lowerAt child none)
        (R := fun child names result => declaredVariable? result = declaredVariable? child ∧
          ∀ c : Census, (∀ name ∈ names, c.Ignores name) → ∀ isMember,
            result.census c false isMember = child.census c true isMember) node
        (fun child mem s _ => by
          obtain ⟨names, gives, census⟩ := ih child mem none s
          refine ⟨trivial, names, gives, declaredVariable?_lowerAt child s, fun c ignores isMember => ?_⟩
          rw [census c ignores isMember]
          split <;> rfl) s trivial
      rw [lowerAt_plain plain]
      refine ⟨_, gives, fun c ignores isMember => ?_⟩
      rw [answer, if_neg plain.2.1, Nat.add_zero]
      refine Node.census_rebuilt same plain.1 (.inr plain.2.1) (fun part mem => ?_) isMember
      obtain ⟨declares, census⟩ := each part mem
      exact ⟨.inr declares, census c fun name isName => ignores name
        (List.mem_flatMap.2 ⟨part, mem, isName⟩)⟩

end ForIn

/-! ## Replacing the iterating suspensions of a scope -/

namespace ForEach

open Build

theorem census_loop {c : Census} {element iterator step getIterator : String}
    (ignores : ∀ name ∈ [element, iterator, step], c.Ignores name)
    (helper : c.named .identifier getIterator = 0) (quiet : ∀ span flag, c.yielding span flag = 0)
    (span : Span) (operand : Node) (isMember : Bool) :
    (loop getIterator iterator step span (variableStatement element none) operand
      (block [suspensionStatement (some (identifier element)) false])).census c false isMember =
      operand.census c false false := by
  simp only [List.mem_cons, List.not_mem_nil, or_false, forall_eq_or_imp, forall_eq, Census.Ignores] at ignores
  obtain ⟨⟨element, element'⟩, ⟨iterator, iterator'⟩, ⟨step, step'⟩⟩ := ignores
  simp [loop, next, methodCall, call, property, identifier, variableStatement, variableDeclaration,
    forStatement, Build.not, unary, assignment, binary, block, bindVariable, declaredVariable?,
    Node.statements, suspensionStatement, Node.synthetic, Node.census_mk, Kind.form,
    Form.isFunctionScope, Form.isFunctionLike, Kind.children, Node.kind, Census.here, Kind.ownName?,
    Node.isMemberList, helper, quiet, element, element', iterator, iterator', step, step']

end ForEach

namespace Iteration

/-- Replacing the iterating suspensions of a scope takes names, and apart from these, from the helper
that gives an iterator and from the suspensions, the census stays the same. -/
theorem census_desugar (helpers : Helpers) (body : Node) (s : Unit × NameSupply) :
    let out := (desugar (.standard helpers) body).run s
    ∃ names, s.2.Gives names out.2.2 ∧ ∀ c : Census, (∀ name ∈ names, c.Ignores name) →
      c.named .identifier helpers.getIterator = 0 → (∀ span flag, c.yielding span flag = 0) →
      ∀ isMember, (out.1.getD body).census c false isMember = body.census c false isMember := by
  unfold desugar
  induction body using Node.inductionOn generalizing s with
  | step node ih =>
    rw [Node.editOwnScope_eq]
    cases scope : node.isFunctionScope with
    | true => exact ⟨[], NameSupply.isTrace_gives.nil s.2, fun _ _ _ _ _ => rfl⟩
    | false =>
      simp only [Bool.false_eq_true, if_false]
      by_cases iterates : ∃ operand, node.kind = .suspensionStatement true (some operand)
      · obtain ⟨operand, hk⟩ := iterates
        obtain ⟨span, kind⟩ := node
        obtain rfl : kind = .suspensionStatement true (some operand) := hk
        rw [show Node.kind ⟨span, .suspensionStatement true (some operand)⟩ =
          .suspensionStatement true (some operand) from rfl, run_step_suspension]
        refine ⟨_, NameSupply.gives_next 3 s.2, fun c ignores helper quiet isMember => ?_⟩
        rw [Option.getD_some, ForEach.census_loop ignores helper quiet, Node.census_mk]
        simp [Kind.form, Form.isFunctionScope, Form.isFunctionLike, Kind.children, Census.here,
          Node.kind, quiet, Node.isMemberList]
      · have other := fun operand hk => iterates ⟨operand, hk⟩
        rw [step_eq_rebuild _ _ other]
        obtain ⟨-, parts, same, answer, gives, each⟩ := Node.rebuild_traced
          (W := fun (s : Unit × NameSupply) names (later : Unit × NameSupply) =>
            s.2.Gives names later.2)
          ⟨fun s => NameSupply.isTrace_gives.nil s.2, NameSupply.isTrace_gives.append⟩
          (I := fun _ => True)
          (R := fun child names result => ∀ c : Census, (∀ name ∈ names, c.Ignores name) →
            c.named .identifier helpers.getIterator = 0 → (∀ span flag, c.yielding span flag = 0) →
            ∀ isMember, result.census c false isMember = child.census c false isMember) node
          (fun child mem s _ => ⟨trivial, ih child mem s⟩) s trivial
        rw [answer]
        refine ⟨_, gives, fun c ignores helper quiet isMember => ?_⟩
        refine Node.census_rebuilt same scope (.inl rfl) (fun part mem => ⟨.inl rfl, ?_⟩) isMember
        exact each part mem c (fun name isName =>
          ignores name (List.mem_flatMap.2 ⟨part, mem, isName⟩)) helper quiet

end Iteration

/-! ## Asynchronous bodies -/

namespace Delegation

open Build

variable {c : Census}

theorem census_resume (awaits : c.named .asyncSuspensionStatement = c.named .identifier) (span : Span)
    (binding : Option String) (operand : Node) (isMember : Bool) :
    Node.census c false ⟨span, .expressionStatement (resume binding operand)⟩ isMember =
      (binding.map (c.named .asyncSuspensionStatement)).getD 0 + operand.census c false false := by
  rw [awaits]
  cases binding <;>
    simp [resume, yieldExpression, assignment, binary, identifier, Node.synthetic, Node.census_mk,
      Kind.form, Form.isFunctionScope, Form.isFunctionLike, Kind.children, Census.here, Node.kind,
      Kind.ownName?, Node.isMemberList]

/-- Writing awaits as yields keeps the census of a scope, if an identifier counts as the name that an
await binds. -/
theorem census_awaitStep (awaits : c.named .asyncSuspensionStatement = c.named .identifier)
    (body : Node) (log : Log) (isMember : Bool) :
    (((body.editOwnScope awaitStep).run log).1.getD body).census c false isMember =
      body.census c false isMember := by
  induction body using Node.inductionOn generalizing log isMember with
  | step node ih =>
    rw [Node.editOwnScope_eq]
    cases scope : node.isFunctionScope with
    | true => rfl
    | false =>
      have rebuilt (log : Log) : (((node.rebuild (node.kind.map fun child =>
          (child, child.editOwnScope awaitStep))).run log).1.getD node).census c false isMember =
            node.census c false isMember := by
        obtain ⟨results, same, answer, related⟩ := Node.rebuild_each
          (R := fun child result => ∀ isMember, (result.getD child).census c false isMember =
            child.census c false isMember) node
          (fun child mem log isMember => ih child mem log isMember) log
        rw [answer, Node.assemble_getD same]
        exact Node.census_rebuilt same scope (.inl rfl)
          (fun part mem => ⟨.inl rfl, related part mem⟩) isMember
      obtain ⟨span, kind⟩ := node
      cases kind
      case asyncSuspensionStatement binding operand =>
        have kept := ih operand (by simp [Node.children, Node.kind, Kind.children]) log false
        simp only [Bool.false_eq_true, if_false, Node.kind, Kind.map, awaitStep, run_bind, run_pure,
          Option.getD_some]
        rw [census_resume awaits, kept, Node.census_mk]
        simp [Kind.form, Form.isFunctionScope, Form.isFunctionLike, Kind.children, Census.here,
          Node.kind, Kind.ownName?, Node.isMemberList]
      case suspensionStatement => rfl
      case yieldExpression expression => exact rebuilt _
      all_goals exact rebuilt log

/-- A block that hands a body to a helper holds the helper and the function with the body. -/
theorem census_delegate (helper : String) (body : Node) (isMember : Bool) :
    (delegate helper body).census c false isMember =
      c.named .identifier helper + c.function false (functionExpression [] body true) := by
  simp [delegate, returnStatement, call, identifier, this, functionExpression, Node.synthetic,
    Node.census_mk, Kind.form, Form.isFunctionScope, Form.isFunctionLike, Kind.children, Census.here,
    Node.kind, Kind.ownName?, Node.isMemberList]

end Delegation

end Resumable
