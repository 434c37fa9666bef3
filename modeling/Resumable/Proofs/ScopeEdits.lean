import Resumable.Lowering.Run
import Resumable.Proofs.Scope

/-!
# What edits of a scope do to the functions in it

The engines of the library edit one function's own scope and keep the functions that stand in it.
Desugaring `yield for` and writing an `await` as a `yield` keep them all, in their order
(`functions_desugar`, `functions_awaitStep`).  Lowering for-in loops keeps all but those in the
initializer of a loop that declares its variable (`mem_functions_lowerAt`).
-/

namespace Resumable

namespace Node

variable {σ : Type}

/-! ## Rebuilt nodes -/

theorem isFunctionScope_of_kind_map {α : Type} (f g : α → Node) (span span' : Span)
    (kind : Kind α) :
    isFunctionScope ⟨span, kind.map f⟩ = isFunctionScope ⟨span', kind.map g⟩ := by
  simp [isFunctionScope, form, Node.kind]

theorem mk_of_map_fst {β : Type} {node : Node} {parts : Kind (Node × β)}
    (same : parts.map Prod.fst = node.kind) : (⟨node.span, parts.map Prod.fst⟩ : Node) = node := by
  rw [same]
  cases node
  rfl

theorem children_eq_of_map_fst {β : Type} {node : Node} {parts : Kind (Node × β)}
    (same : parts.map Prod.fst = node.kind) : node.children = parts.children.map Prod.fst := by
  rw [children, ← same, Kind.children_map]

theorem functions_assemble {node : Node} {results : Kind (Node × Option Node)}
    (same : results.map Prod.fst = node.kind) (plain : node.isFunctionScope = false) :
    ((node.assemble results).getD node).functions false =
      results.children.flatMap fun result => (result.2.getD result.1).functions false := by
  have open_ : isFunctionScope ⟨node.span, results.map fun result => result.2.getD result.1⟩ =
      false := by
    rw [isFunctionScope_of_kind_map _ Prod.fst _ node.span, same]
    exact plain
  rw [assemble_getD same, functions_of_not_scope false open_, keptChildren_false, children]
  simp only [Node.kind, Kind.children_map, List.flatMap_map]

/-- An edit of a scope that keeps the functions where it does something of its own keeps them. -/
theorem functions_editOwnScope
    {step : Node → Kind (Node × StateM σ (Option Node)) → StateM σ (Option Node)}
    (local_ : ∀ node : Node, node.isFunctionScope = false →
      (∀ child ∈ node.children, ∀ s,
        ((((child.editOwnScope step).run s).1).getD child).functions false =
          child.functions false) →
      ∀ s, (((step node (node.kind.map fun child => (child, child.editOwnScope step))).run
        s).1.getD node).functions false = node.functions false) (node : Node) (s : σ) :
    (((node.editOwnScope step).run s).1.getD node).functions false = node.functions false := by
  induction node using inductionOn generalizing s with
  | step node ih =>
    rw [editOwnScope_eq]
    cases scope : node.isFunctionScope with
    | true => rfl
    | false => exact local_ node scope ih s

theorem functions_rebuild {act : Node → StateM σ (Option Node)} {node : Node}
    (plain : node.isFunctionScope = false)
    (keep : ∀ child ∈ node.children, ∀ s,
      (((act child).run s).1.getD child).functions false = child.functions false) (s : σ) :
    (((node.rebuild (node.kind.map fun child => (child, act child))).run s).1.getD
      node).functions false = node.functions false := by
  obtain ⟨results, same, answer, related⟩ := rebuild_each
    (R := fun child result => (result.getD child).functions false = child.functions false) node keep s
  rw [answer, functions_assemble same plain, functions_of_not_scope false plain,
    keptChildren_false, children_eq_of_map_fst same, List.flatMap_map]
  rw [List.flatMap_def, List.map_congr_left related, List.flatMap_def]

theorem functions_mk (span : Span) (kind : Kind Node) :
    functions false ⟨span, kind⟩ =
      if kind.form.isFunctionScope then [⟨span, kind⟩]
      else kind.children.flatMap (functions false) := by
  rw [functions_eq, keptChildren_false]
  rfl

end Node

open Build

/-! ## Desugaring -/

namespace ForEach

theorem functions_loop (getIterator iterator step element : String) (span : Span) (operand : Node) :
    (loop getIterator iterator step span (variableStatement element none) operand
      (block [suspensionStatement (some (identifier element)) false])).functions false =
      operand.functions false := by
  simp [loop, next, methodCall, call, property, identifier, variableStatement, variableDeclaration,
    forStatement, Build.not, unary, assignment, binary, block, bindVariable, declaredVariable?,
    Node.statements, suspensionStatement, Node.synthetic, Node.functions_mk, Kind.form,
    Form.isFunctionScope, Form.isFunctionLike, Kind.children, Node.kind]

end ForEach

namespace Iteration

/-- Any other node than a `yield for` with an operand is only rebuilt. -/
theorem step_eq_rebuild {σ : Type} (engines : Engines σ) {node : Node}
    (act : Node → StateM (σ × NameSupply) (Option Node))
    (other : ∀ operand, node.kind ≠ .suspensionStatement true (some operand)) :
    step engines node (node.kind.map fun child => (child, act child)) =
      node.rebuild (node.kind.map fun child => (child, act child)) := by
  unfold step
  split
  · rename_i operand edit heq
    cases hk : node.kind <;> rw [hk] at heq <;> simp only [Kind.map, reduceCtorEq] at heq
    case suspensionStatement isIteration expression =>
      cases expression with
      | none => simp at heq
      | some inner =>
        simp only [Option.map_some, Kind.suspensionStatement.injEq] at heq
        exact absurd (by rw [hk, heq.1]) (other inner)
  · rfl

/-- What becomes of a `yield for` with an operand: the walk of an iterator, with three fresh
names. -/
theorem run_step_suspension (helpers : Helpers) (span : Span) (operand : Node)
    (act : Node → StateM (Unit × NameSupply) (Option Node)) (s : Unit × NameSupply) :
    let element := s.2.fresh
    let iterator := element.2.fresh
    let stepName := iterator.2.fresh
    (step (.standard helpers) ⟨span, .suspensionStatement true (some operand)⟩
      ((Kind.suspensionStatement true (some operand)).map fun child => (child, act child))).run s =
      (some (ForEach.loop helpers.getIterator iterator.1 stepName.1 span
        (variableStatement element.1 none) operand
        (block [suspensionStatement (some (identifier element.1)) false])), (), stepName.2) := by
  rfl

theorem functions_desugar (helpers : Helpers) (body : Node) (s : Unit × NameSupply) :
    (((desugar (.standard helpers) body).run s).1.getD body).functions false =
      body.functions false := by
  refine Node.functions_editOwnScope (fun node plain ih s => ?_) body s
  by_cases iterates : ∃ operand, node.kind = .suspensionStatement true (some operand)
  · obtain ⟨operand, hk⟩ := iterates
    obtain ⟨span, kind⟩ := node
    obtain rfl : kind = .suspensionStatement true (some operand) := hk
    rw [show Node.kind ⟨span, .suspensionStatement true (some operand)⟩ =
      .suspensionStatement true (some operand) from rfl, run_step_suspension]
    rw [Option.getD_some, ForEach.functions_loop, Node.functions_mk]
    simp [Kind.form, Form.isFunctionScope, Form.isFunctionLike, Kind.children]
  · rw [step_eq_rebuild _ _ (fun operand hk => iterates ⟨operand, hk⟩)]
    exact Node.functions_rebuild plain ih s

end Iteration

/-! ## Asynchronous bodies -/

namespace Delegation

theorem functions_resume (span : Span) (binding : Option String) (operand : Node) :
    Node.functions false ⟨span, .expressionStatement (resume binding operand)⟩ =
      operand.functions false := by
  cases binding <;>
    simp [resume, yieldExpression, assignment, binary, identifier, Node.synthetic,
      Node.functions_mk, Kind.form, Form.isFunctionScope, Form.isFunctionLike, Kind.children]

theorem functions_awaitStep (body : Node) (s : Log) :
    (((body.editOwnScope awaitStep).run s).1.getD body).functions false =
      body.functions false := by
  refine Node.functions_editOwnScope (fun node plain ih s => ?_) body s
  obtain ⟨span, kind⟩ := node
  cases kind
  case asyncSuspensionStatement binding operand =>
    have kept := ih operand (by simp [Node.children, Node.kind, Kind.children]) s
    simp only [Node.kind, Kind.map, awaitStep, run_bind, run_pure, Option.getD_some]
    rw [functions_resume, kept, Node.functions_mk]
    simp [Kind.form, Form.isFunctionScope, Form.isFunctionLike, Kind.children]
  case suspensionStatement => rfl
  case yieldExpression expression => exact Node.functions_rebuild plain ih _
  all_goals exact Node.functions_rebuild plain ih s

/-! ## What is reported -/

theorem prefix_report (template : Template) (span : Span) (arguments : List String) (log : Log) :
    log.toList <+: ((Log.report template span arguments).run log).2.toList := by
  refine ⟨[template.diagnose span arguments], ?_⟩
  exact Array.toList_push.symm

theorem prefix_checkGenerator (node : Node) (log : Log) :
    log.toList <+: ((checkGenerator node).run log).2.toList := by
  unfold checkGenerator
  split
  · exact prefix_report _ _ _ _
  · exact prefix_report _ _ _ _
  · exact List.prefix_refl _

theorem prefix_lowerGenerator (helpers : Helpers) (body : Node) (log : Log) :
    log.toList <+: ((lowerGenerator helpers body).run log).2.toList := by
  have walked : ∀ (nodes : List Node) (log : Log),
      log.toList <+: ((nodes.forM checkGenerator).run log).2.toList := by
    intro nodes
    induction nodes with
    | nil => exact fun log => List.prefix_refl _
    | cons node rest ih =>
      intro log
      simp only [List.forM_eq_forM] at ih ⊢
      rw [List.forM_cons, run_bind]
      exact (prefix_checkGenerator node log).trans (ih _)
  rw [lowerGenerator, Node.walkOwnScope_eq]
  exact walked body.ownScope log

theorem prefix_rebuild {act : Node → StateM Log (Option Node)} {node : Node}
    (keep : ∀ child ∈ node.children, ∀ log : Log, log.toList <+: ((act child).run log).2.toList)
    (log : Log) :
    log.toList <+:
      ((node.rebuild (node.kind.map fun child => (child, act child))).run log).2.toList := by
  obtain ⟨-, -, -, grown, -⟩ := Node.rebuild_rule
    (I := fun later : Log => log.toList <+: later.toList)
    (R := fun _ _ _ => True) node
    (fun child mem s grown => ⟨grown.trans (keep child mem s), trivial⟩)
    (fun _ _ _ _ _ _ _ => trivial) log (List.prefix_refl _)
  exact grown

theorem prefix_awaitStep (body : Node) (log : Log) :
    log.toList <+: ((body.editOwnScope awaitStep).run log).2.toList := by
  induction body using Node.inductionOn generalizing log with
  | step node ih =>
    rw [Node.editOwnScope_eq]
    cases scope : node.isFunctionScope with
    | true => exact List.prefix_refl _
    | false =>
      obtain ⟨span, kind⟩ := node
      cases kind
      case asyncSuspensionStatement binding operand =>
        exact ih operand (by simp [Node.children, Node.kind, Kind.children]) log
      case suspensionStatement => exact prefix_report _ _ _ _
      case yieldExpression expression =>
        exact (prefix_report _ _ _ log).trans (prefix_rebuild ih _)
      all_goals exact prefix_rebuild ih log

theorem prefix_lowerAsync (helpers : Helpers) (body : Node) (log : Log) :
    log.toList <+: ((lowerAsync helpers body).run log).2.toList :=
  prefix_awaitStep body log

end Delegation

/-! ## For-in loops -/

/-- The name that a variable declaration gives. -/
def variableName? (node : Node) : Option String :=
  match node.kind with
  | .variableDeclaration name _ => some name
  | _ => none

theorem variableName?_kind_map {α : Type} (f g : α → Node) (span span' : Span) (kind : Kind α) :
    variableName? ⟨span, kind.map f⟩ = variableName? ⟨span', kind.map g⟩ := by
  cases kind <;> rfl

theorem declaredVariable?_cons (span : Span) (first : Node) (rest : List Node) :
    declaredVariable? ⟨span, .variableStatement (first :: rest)⟩ = variableName? first := by
  obtain ⟨firstSpan, kind⟩ := first
  cases kind <;> rfl

theorem declaredVariable?_kind_map {α : Type} {f g : α → Node} (span span' : Span) (kind : Kind α)
    (same : ∀ a ∈ kind.children, variableName? (f a) = variableName? (g a)) :
    declaredVariable? ⟨span, kind.map f⟩ = declaredVariable? ⟨span', kind.map g⟩ := by
  cases kind
  case variableStatement declarations =>
    cases declarations with
    | nil => rfl
    | cons first rest =>
      simp only [Kind.map, List.map_cons, declaredVariable?_cons]
      exact same first (by simp [Kind.children])
  all_goals rfl

namespace ForIn

/-- The edit that lowers the loops of a tree, told the label right before it. -/
def lowerAt (tree : Node) : Edit := tree.para step

theorem lowerAt_eq (node : Node) :
    lowerAt node = step node (node.kind.map fun child => (child, lowerAt child)) :=
  Node.para_eq step node

theorem lowerAt_scope {node : Node} (scope : node.isFunctionScope = true) (label : Option String) :
    lowerAt node label = pure none := by
  simp [lowerAt_eq node, step, scope]

/-- What becomes of a for-in loop: its parts are lowered in their order before it takes its
names. -/
theorem run_lowerAt_forIn (span : Span) (initializer expression body : Node)
    (label : Option String) (s : NameSupply) :
    let first := (lowerAt initializer none).run s
    let second := (lowerAt expression none).run first.2
    let third := (lowerAt body none).run second.2
    let names := Names.take.run third.2
    (lowerAt ⟨span, .forInStatement initializer expression body⟩ label).run s =
      (some (loop names.1 label span (first.1.getD initializer) (second.1.getD expression)
        (third.1.getD body)), names.2) := by
  rw [lowerAt_eq ⟨span, .forInStatement initializer expression body⟩]
  rfl

theorem lowerAt_labeled {statement : Node} (isLoop : statement.form = .forInStatement) (span : Span)
    (inner : String) (label : Option String) :
    lowerAt ⟨span, .labeledStatement inner statement⟩ label = lowerAt statement (some inner) := by
  have open_ : Node.isFunctionScope ⟨span, .labeledStatement inner statement⟩ = false := rfl
  simp only [lowerAt_eq ⟨span, .labeledStatement inner statement⟩, step, open_, Node.kind, Kind.map,
    if_pos isLoop, Bool.false_eq_true, if_false]

/-- A node at which no loop is lowered, with its label or without. -/
def IsPlain (node : Node) : Prop :=
  node.isFunctionScope = false ∧ node.form ≠ .forInStatement ∧
    ∀ label statement, node.kind = .labeledStatement label statement →
      statement.form ≠ .forInStatement

theorem lowerAt_plain {node : Node} (plain : IsPlain node) (label : Option String) :
    lowerAt node label = node.rebuild (node.kind.map fun child => (child, lowerAt child none)) := by
  obtain ⟨open_, notLoop, notLabel⟩ := plain
  obtain ⟨span, kind⟩ := node
  have unlabeled : (kind.map fun child => (child, lowerAt child)).map
      (fun part => (part.1, part.2 none)) = kind.map fun child => (child, lowerAt child none) :=
    Kind.map_map _ _ _
  rw [lowerAt_eq]
  simp only [step, open_, Bool.false_eq_true, if_false]
  cases kind
  case forInStatement => exact absurd rfl notLoop
  case labeledStatement label' statement =>
    simp only [Node.kind, Kind.map, if_neg (notLabel label' statement rfl)]
  all_goals exact congrArg (Node.rebuild _) unlabeled

/-- A node is a function scope, a loop, a loop with its label, or plain. -/
theorem cases_node {motive : Node → Prop} (node : Node)
    (scope : ∀ node : Node, node.isFunctionScope = true → motive node)
    (loop : ∀ span initializer expression body,
      motive ⟨span, .forInStatement initializer expression body⟩)
    (labeled : ∀ span label statement, statement.form = .forInStatement →
      motive ⟨span, .labeledStatement label statement⟩)
    (plain : ∀ node, IsPlain node → motive node) : motive node := by
  obtain ⟨span, kind⟩ := node
  cases isScope : Node.isFunctionScope ⟨span, kind⟩ with
  | true => exact scope _ isScope
  | false =>
    cases kind
    case forInStatement => exact loop _ _ _ _
    case labeledStatement label statement =>
      by_cases isLoop : statement.form = .forInStatement
      · exact labeled span label statement isLoop
      · refine plain _ ⟨isScope, nofun, ?_⟩
        rintro _ _ ⟨⟩
        exact isLoop
    all_goals exact plain _ ⟨isScope, nofun, nofun⟩

theorem variableName?_lowerAt (node : Node) (s : NameSupply) :
    variableName? (((lowerAt node none).run s).1.getD node) = variableName? node := by
  induction node using cases_node with
  | scope node scope => rw [lowerAt_scope scope]; rfl
  | loop span initializer expression body => rw [run_lowerAt_forIn]; rfl
  | labeled span label statement isLoop =>
    obtain ⟨span', kind⟩ := statement
    cases kind <;> try cases isLoop
    rw [lowerAt_labeled rfl, run_lowerAt_forIn]
    rfl
  | plain node plain =>
    obtain ⟨results, same, answer, -⟩ := Node.rebuild_each (f := fun child => lowerAt child none)
      (R := fun _ _ => True) node (fun _ _ _ => trivial) s
    rw [lowerAt_plain plain, answer, Node.assemble_getD same,
      variableName?_kind_map _ Prod.fst _ node.span, same]
    rfl

/-- Lowering what a loop is opened with does not change whether it declares the loop variable. -/
theorem declaredVariable?_lowerAt (node : Node) (s : NameSupply) :
    declaredVariable? (((lowerAt node none).run s).1.getD node) = declaredVariable? node := by
  induction node using cases_node with
  | scope node scope => rw [lowerAt_scope scope]; rfl
  | loop span initializer expression body => rw [run_lowerAt_forIn]; rfl
  | labeled span label statement isLoop =>
    obtain ⟨span', kind⟩ := statement
    cases kind <;> try cases isLoop
    rw [lowerAt_labeled rfl, run_lowerAt_forIn]
    rfl
  | plain node plain =>
    obtain ⟨results, same, answer, related⟩ := Node.rebuild_each
      (f := fun child => lowerAt child none)
      (R := fun child result => variableName? (result.getD child) = variableName? child) node
      (fun child _ s => variableName?_lowerAt child s) s
    rw [lowerAt_plain plain, answer, Node.assemble_getD same,
      declaredVariable?_kind_map node.span node.span results related, same]
    rfl

theorem functions_statements (body : Node) :
    body.statements.flatMap (Node.functions false) = body.functions false := by
  obtain ⟨span, kind⟩ := body
  cases kind
  case block | program =>
    simp [Node.statements, Node.kind, Node.functions_mk, Kind.form, Form.isFunctionScope,
      Form.isFunctionLike, Kind.children]
  all_goals exact List.append_nil _

/-- Of the initializer that declares the loop variable only the name is left. -/
theorem functions_bindVariable (initializer value : Node) :
    (bindVariable initializer value).functions false =
      (if (declaredVariable? initializer).isSome then [] else initializer.functions false) ++
        value.functions false := by
  unfold bindVariable
  cases declaredVariable? initializer <;>
    simp [variableStatement, variableDeclaration, assignmentStatement, expressionStatement,
      assignment, binary, Node.synthetic, Node.functions_mk, Kind.form, Form.isFunctionScope,
      Form.isFunctionLike, Kind.children]

theorem functions_loop (names : Names) (label : Option String) (span : Span)
    (initializer expression body : Node) :
    (loop names label span initializer expression body).functions false =
      expression.functions false ++
        ((if (declaredVariable? initializer).isSome then [] else initializer.functions false) ++
          body.functions false) := by
  have currentKey : names.currentKey.functions false = [] := by
    simp [Names.currentKey, element, identifier, Node.synthetic, Node.functions_mk, Kind.form,
      Form.isFunctionScope, Form.isFunctionLike, Kind.children]
  have bound := functions_bindVariable initializer names.currentKey
  rw [currentKey, List.append_nil] at bound
  have walk : (names.walkKeys initializer body.statements).functions false =
      (bindVariable initializer names.currentKey).functions false ++ body.functions false := by
    rw [← functions_statements body]
    simp [Names.walkKeys, Names.skipDeleted, currentKey, forStatement, variableStatement,
      variableDeclaration, number, binary, identifier, Build.property, postfixIncrement, block,
      ifStatement, Build.not, unary, continueStatement, Node.synthetic, Node.functions_mk,
      Kind.form, Form.isFunctionScope, Form.isFunctionLike, Kind.children]
  rw [← bound, ← walk]
  cases label <;>
    simp [loop, Names.collectKeys, labeledStatement, forInStatement, expressionStatement,
      methodCall, call, array, variableStatement, variableDeclaration, identifier, Build.property,
      Node.synthetic, Node.functions_mk, Kind.form, Form.isFunctionScope, Form.isFunctionLike,
      Kind.children]

theorem mem_functions_lowerAt_forIn (span : Span) (initializer expression body : Node)
    (label : Option String) (s : NameSupply) (f : Node)
    (parts : ∀ child ∈ Node.children ⟨span, .forInStatement initializer expression body⟩,
      ∀ label s, f ∈ (((lowerAt child label).run s).1.getD child).functions false ↔
        f ∈ child.functions true) :
    f ∈ (((lowerAt ⟨span, .forInStatement initializer expression body⟩ label).run s).1.getD
        ⟨span, .forInStatement initializer expression body⟩).functions false ↔
      f ∈ Node.functions true ⟨span, .forInStatement initializer expression body⟩ := by
  simp only [Node.children, Node.kind, Kind.children, List.mem_cons, List.not_mem_nil, or_false,
    forall_eq_or_imp, forall_eq] at parts
  obtain ⟨first, second, third⟩ := parts
  have plain : Node.isFunctionScope ⟨span, .forInStatement initializer expression body⟩ = false :=
    rfl
  rw [run_lowerAt_forIn, Option.getD_some, functions_loop, declaredVariable?_lowerAt,
    Node.functions_of_not_scope true plain]
  simp only [Node.keptChildren, Node.kind, Kind.kept, Node.dropsInitializer, Bool.true_and]
  cases declaredVariable? initializer with
  | none => simp [first, second, third, or_left_comm]
  | some name => simp [second, third]

/-- Lowering the for-in loops of a scope keeps its functions apart from those in the initializer of
a loop that declares its variable. -/
theorem mem_functions_lowerAt (node : Node) (label : Option String) (s : NameSupply) (f : Node) :
    f ∈ (((lowerAt node label).run s).1.getD node).functions false ↔ f ∈ node.functions true := by
  induction node using Node.inductionOn generalizing label s with
  | step node ih =>
    cases node using cases_node with
    | scope node scope =>
      rw [lowerAt_scope scope, Node.functions_of_scope true scope, ← Node.functions_of_scope false scope]
      rfl
    | loop span initializer expression body =>
      exact mem_functions_lowerAt_forIn span initializer expression body label s f ih
    | labeled span inner statement isLoop =>
      obtain ⟨span', kind⟩ := statement
      cases kind <;> try cases isLoop
      rename_i initializer expression body
      have plain : Node.isFunctionScope ⟨span, .labeledStatement inner
          ⟨span', .forInStatement initializer expression body⟩⟩ = false := rfl
      have statementMem : (⟨span', .forInStatement initializer expression body⟩ : Node) ∈
          Node.children ⟨span, .labeledStatement inner
            ⟨span', .forInStatement initializer expression body⟩⟩ := by
        simp [Node.children, Node.kind, Kind.children]
      have lowered := ih _ statementMem (some inner) s
      rw [run_lowerAt_forIn] at lowered
      rw [lowerAt_labeled rfl, run_lowerAt_forIn]
      apply lowered.trans
      rw [Node.functions_of_not_scope true plain]
      simp [Node.keptChildren, Node.kind, Kind.kept, Kind.children]
    | plain node plain =>
      obtain ⟨results, same, answer, related⟩ := Node.rebuild_each
        (f := fun child => lowerAt child none)
        (R := fun child result =>
          f ∈ (result.getD child).functions false ↔ f ∈ child.functions true) node
        (fun child mem s => ih child mem none s) s
      have kept : node.keptChildren true = node.children :=
        Kind.kept_eq_children _ plain.2.1
      rw [lowerAt_plain plain, answer, Node.functions_assemble same plain.1,
        Node.functions_of_not_scope true plain.1, kept, Node.children_eq_of_map_fst same,
        List.flatMap_map, List.mem_flatMap, List.mem_flatMap]
      exact exists_congr fun result => and_congr_right fun mem => related result mem

end ForIn

end Resumable
