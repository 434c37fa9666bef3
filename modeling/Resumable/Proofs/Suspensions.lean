import Mathlib.Data.List.Perm.Basic
import Resumable.Proofs.Bodies

/-!
# The suspensions of a scope

`Node.suspensions` lists the suspensions of one function's own scope in source order.  A run keeps
them while it lowers the functions in the scope (`suspensions_lowerNode`).  Lowering the for-in loops
of the scope keeps them too, if not their order, apart from those in the initializers that it drops
(`suspensions_walked`), and desugaring takes out the statements `yield for e;` and keeps what is in
their operands (`suspensions_desugared`).
-/

namespace Resumable

/-- The ways in which a node suspends its function. -/
inductive Mode where
  /-- A statement `yield e;`, or `yield for e;` if it iterates. -/
  | statement (iterates hasOperand : Bool)
  /-- A `yield` inside an expression. -/
  | expression
  | await
  deriving DecidableEq

namespace Mode

/-- It is a `yield`, as a statement or inside an expression. -/
def yields : Mode → Bool
  | .await => false
  | _ => true

/-- It is a `yield for`. -/
def iterates : Mode → Bool
  | .statement iterates _ => iterates
  | _ => false

end Mode

/-- A suspension as it stands in a scope. -/
structure Suspension where
  /-- It stands inside the operand of a statement `yield for e;` of the scope. -/
  inOperand : Bool
  span : Span
  mode : Mode
  deriving DecidableEq

namespace Suspension

/-- The suspension, once it is known to stand inside an operand. -/
def inside (suspension : Suspension) : Suspension := { suspension with inOperand := true }

/-- Desugaring the scope puts a loop in the place of the statement. Inside the operand of another
one it is not looked for. -/
def isReplaced (suspension : Suspension) : Bool :=
  suspension.mode == .statement true true && !suspension.inOperand

/-- What is noted of suspensions, without those that desugaring replaces. -/
def remaining {α : Type} (desugars : Bool) (f : Suspension → List α) (suspension : Suspension) :
    List α :=
  if desugars && suspension.isReplaced then [] else f suspension

@[simp] theorem remaining_false {α : Type} (f : Suspension → List α) : remaining false f = f := rfl

theorem remaining_inside {α : Type} (desugars : Bool) (f : Suspension → List α)
    (suspension : Suspension) : remaining desugars f suspension.inside = f suspension.inside := by
  simp [remaining, isReplaced, inside]

end Suspension

namespace Node

/-! ## The list of suspensions -/

/-- How a node suspends its function, if it does. -/
def mode? (node : Node) : Option Mode :=
  match node.kind with
  | .suspensionStatement iterates operand => some (.statement iterates operand.isSome)
  | .yieldExpression _ => some .expression
  | .asyncSuspensionStatement .. => some .await
  | _ => none

theorem mode?_map {α : Type} (f g : α → Node) (span span' : Span) (kind : Kind α) :
    mode? ⟨span, kind.map f⟩ = mode? ⟨span', kind.map g⟩ := by
  cases kind
  case suspensionStatement iterates operand => cases operand <;> rfl
  all_goals rfl

/-- The node is a statement `yield for e;`. -/
def isReplaceable (node : Node) : Bool := node.mode? == some (.statement true true)

theorem isReplaceable_eq_false {node : Node}
    (other : ∀ operand, node.kind ≠ .suspensionStatement true (some operand)) :
    node.isReplaceable = false := by
  unfold isReplaceable mode?
  split
  · rename_i iterates operand hk
    cases operand with
    | none => simp
    | some operand =>
      cases iterates with
      | false => simp
      | true => exact absurd hk (other operand)
  all_goals rfl

/-- The node itself as a suspension. -/
def suspension? (inOperand : Bool) (node : Node) : Option Suspension :=
  node.mode?.map fun mode => ⟨inOperand, node.span, mode⟩

theorem isReplaced_eq_false {node : Node} {inOperand : Bool} {suspension : Suspension}
    (other : node.isReplaceable = false) (mem : suspension ∈ node.suspension? inOperand) :
    suspension.isReplaced = false := by
  obtain ⟨mode, has, rfl⟩ := Option.map_eq_some_iff.1 mem
  have notSo : mode ≠ .statement true true := by
    rintro rfl
    simp [isReplaceable, has] at other
  simp [Suspension.isReplaced, notSo]

/-- The suspensions of a function's own scope in source order, where the scope stands inside an
operand or not. Under `loopsLowered` those are left out that lowering its for-in loops drops. -/
def suspensions (loopsLowered : Bool) (node : Node) : Bool → List Suspension :=
  node.para fun node parts inOperand =>
    if node.isFunctionScope then []
    else (node.suspension? inOperand).toList ++
      (parts.kept fun part => dropsInitializer loopsLowered part.1).flatMap fun part =>
        part.2 (inOperand || node.isReplaceable)

variable {node : Node} {loopsLowered inOperand : Bool}

theorem suspensions_scope (scope : node.isFunctionScope = true) :
    node.suspensions loopsLowered inOperand = [] := by
  rw [suspensions, para_eq, if_pos scope]

theorem suspensions_plain (plain : node.isFunctionScope = false) :
    node.suspensions loopsLowered inOperand = (node.suspension? inOperand).toList ++
      (node.keptChildren loopsLowered).flatMap fun child =>
        child.suspensions loopsLowered (inOperand || node.isReplaceable) := by
  rw [suspensions, para_eq, plain]
  simp only [Bool.false_eq_true, if_false, Kind.kept_map, List.flatMap_map]
  rfl

theorem suspensions_mk (span : Span) (kind : Kind Node) :
    suspensions false ⟨span, kind⟩ inOperand =
      if kind.form.isFunctionScope then []
      else (suspension? inOperand ⟨span, kind⟩).toList ++ kind.children.flatMap fun child =>
        child.suspensions false (inOperand || isReplaceable ⟨span, kind⟩) := by
  split
  · exact suspensions_scope ‹_›
  · rw [suspensions_plain (Bool.not_eq_true _ ▸ ‹_›), keptChildren_false]
    rfl

/-- The suspensions are those of the nodes of the own scope. -/
theorem flatMap_suspensions_ownScope {α : Type} (f : Span → Mode → List α) (node : Node)
    (inOperand : Bool) :
    ((node.suspensions false inOperand).flatMap fun suspension => f suspension.span suspension.mode) =
      node.ownScope.flatMap fun inner => inner.mode?.toList.flatMap (f inner.span) := by
  induction node using inductionOn generalizing inOperand with
  | step node ih =>
    rw [ownScope_eq]
    cases scope : node.isFunctionScope with
    | true => rw [suspensions_scope scope]; rfl
    | false =>
      rw [suspensions_plain scope, keptChildren_false, List.flatMap_append, List.flatMap_assoc,
        List.flatMap_congr fun child mem => ih child mem _, suspension?]
      simp only [Bool.false_eq_true, if_false, List.flatMap_cons, List.flatMap_assoc]
      cases node.mode? <;> rfl

/-- What holds of every suspension holds of every node of the own scope that suspends. -/
theorem forall_suspensions_iff {P : Span → Mode → Prop} (node : Node) (inOperand : Bool) :
    (∀ suspension ∈ node.suspensions false inOperand, P suspension.span suspension.mode) ↔
      ∀ inner ∈ node.ownScope, ∀ mode ∈ inner.mode?, P inner.span mode := by
  have listed := flatMap_suspensions_ownScope (fun span mode => [(span, mode)]) node inOperand
  have suspensions : (∀ suspension ∈ node.suspensions false inOperand,
      P suspension.span suspension.mode) ↔
      ∀ pair ∈ (node.suspensions false inOperand).flatMap fun suspension =>
        [(suspension.span, suspension.mode)], P pair.1 pair.2 := by
    simp only [← List.map_eq_flatMap, List.forall_mem_map]
  rw [suspensions, listed]
  simp only [List.mem_flatMap, Option.mem_toList, List.mem_singleton]
  constructor
  · intro all inner mem mode has
    exact all (inner.span, mode) ⟨inner, mem, mode, has, rfl⟩
  · rintro all pair ⟨inner, mem, mode, has, rfl⟩
    exact all inner mem mode has

/-- A scope has no suspension of some kind if none of its nodes is one. -/
theorem forall_mode_iff {p : Mode → Bool} {q : Node → Bool} (same : ∀ node, q node = node.mode?.any p)
    (node : Node) (inOperand : Bool) :
    (∀ suspension ∈ node.suspensions false inOperand, p suspension.mode = false) ↔
      ∀ inner ∈ node.ownScope, q inner = false := by
  refine (forall_suspensions_iff (P := fun _ mode => p mode = false) node inOperand).trans
    (forall₂_congr fun inner _ => ?_)
  rw [same]
  cases inner.mode? <;> simp

theorem suspensions_subset (node : Node) :
    node.suspensions loopsLowered inOperand ⊆ node.suspensions false inOperand := by
  induction node using inductionOn generalizing inOperand with
  | step node ih =>
    cases scope : node.isFunctionScope with
    | true => rw [suspensions_scope scope]; exact List.nil_subset _
    | false =>
      rw [suspensions_plain scope, suspensions_plain scope, keptChildren_false]
      intro suspension mem
      simp only [List.mem_append, List.mem_flatMap] at mem ⊢
      rcases mem with itself | ⟨child, isKept, mem⟩
      · exact .inl itself
      · have isChild := keptChildren_subset _ _ isKept
        exact .inr ⟨child, isChild, ih child isChild mem⟩

theorem suspensions_inside (node : Node) (inOperand : Bool) :
    node.suspensions loopsLowered true =
      (node.suspensions loopsLowered inOperand).map Suspension.inside := by
  induction node using inductionOn generalizing inOperand with
  | step node ih =>
    cases scope : node.isFunctionScope with
    | true => rw [suspensions_scope scope, suspensions_scope scope]; rfl
    | false =>
      rw [suspensions_plain scope, suspensions_plain scope, List.map_append, List.map_flatMap,
        Bool.true_or]
      congr 1
      · rw [suspension?, suspension?]
        cases node.mode? <;> rfl
      · exact List.flatMap_congr fun child mem => ih child (keptChildren_subset _ _ mem) _

/-! ## Rebuilt nodes -/

/-- What is noted of the suspensions of a node is the same after its children were replaced, if it
is the same for each child and for the node itself. -/
theorem flatMap_suspensions_rebuilt {α β : Type} {parts : Kind α} {before after : α → Node}
    {flag flag' : Bool} {f f' : Suspension → List β} (same : parts.map before = node.kind)
    (plain : node.isFunctionScope = false) (flags : flag = flag' ∨ node.form ≠ .forInStatement)
    (own : ∀ suspension ∈ node.suspension? inOperand, f suspension = f' suspension)
    (each : ∀ part ∈ parts.children,
      (flag = false ∨ declaredVariable? (after part) = declaredVariable? (before part)) ∧
      (((after part).suspensions flag (inOperand || node.isReplaceable)).flatMap f).Perm
        (((before part).suspensions flag' (inOperand || node.isReplaceable)).flatMap f')) :
    ((suspensions flag ⟨node.span, parts.map after⟩ inOperand).flatMap f).Perm
      ((node.suspensions flag' inOperand).flatMap f') := by
  obtain ⟨kept, inside, keptAfter, keptBefore⟩ :=
    keptChildren_rebuilt same flags (fun part mem => (each part mem).1) node.span
  have stillPlain : isFunctionScope ⟨node.span, parts.map after⟩ = false := by
    rw [isFunctionScope_of_kind_map after before _ node.span, same]
    exact plain
  have mode : mode? ⟨node.span, parts.map after⟩ = node.mode? := by
    rw [mode?_map after before _ node.span, same]
    rfl
  have itself : suspension? inOperand ⟨node.span, parts.map after⟩ = node.suspension? inOperand := by
    rw [suspension?, mode]
    rfl
  have ofNode : ((node.suspension? inOperand).toList).flatMap f =
      ((node.suspension? inOperand).toList).flatMap f' :=
    List.flatMap_congr fun suspension mem => own suspension (Option.mem_toList.1 mem)
  rw [suspensions_plain stillPlain, suspensions_plain plain, keptAfter, keptBefore, itself,
    isReplaceable, mode, List.flatMap_append, List.flatMap_append, ofNode, List.flatMap_map,
    List.flatMap_map, List.flatMap_assoc, List.flatMap_assoc]
  exact .append_left _ (.flatMap_left _ fun part mem => (each part (inside mem)).2)

/-- A node with other children has the same suspensions if its children do. -/
theorem suspensions_rebuilt {α : Type} {parts : Kind α} {before after : α → Node}
    {flag flag' : Bool} (same : parts.map before = node.kind)
    (plain : node.isFunctionScope = false) (flags : flag = flag' ∨ node.form ≠ .forInStatement)
    (each : ∀ part ∈ parts.children,
      (flag = false ∨ declaredVariable? (after part) = declaredVariable? (before part)) ∧
      ∀ inOperand, ((after part).suspensions flag inOperand).Perm
        ((before part).suspensions flag' inOperand)) :
    (suspensions flag ⟨node.span, parts.map after⟩ inOperand).Perm
      (node.suspensions flag' inOperand) := by
  have listed : ((suspensions flag ⟨node.span, parts.map after⟩ inOperand).flatMap fun s => [s]).Perm
      ((node.suspensions flag' inOperand).flatMap fun s => [s]) :=
    flatMap_suspensions_rebuilt same plain flags (fun _ _ => rfl)
      fun part mem => ⟨(each part mem).1, ((each part mem).2 _).flatMap_right _⟩
  rwa [List.flatMap_singleton', List.flatMap_singleton'] at listed

end Node

namespace Lowering

variable {σ : Type}

/-- Lowering the functions in a scope keeps its suspensions. -/
theorem suspensions_lowerNode (limit : UInt32) (engines : Engines σ) (loopsLowered : Bool)
    (node : Node) (s : State σ) (inOperand : Bool) :
    ((((lowerNode limit engines node).run s).1.getD node).suspensions loopsLowered inOperand).Perm
      (node.suspensions loopsLowered inOperand) := by
  induction node using Node.inductionOn generalizing s inOperand with
  | step node ih =>
    cases scope : node.isFunctionScope with
    | true =>
      have kept := isFunctionScope_lowerNode limit engines node s
      rw [Node.suspensions_scope (kept.trans scope), Node.suspensions_scope scope]
    | false =>
      obtain ⟨results, same, answer, related⟩ := Node.rebuild_each
        (R := fun child result => declaredVariable? (result.getD child) = declaredVariable? child ∧
          ∀ inOperand, ((result.getD child).suspensions loopsLowered inOperand).Perm
            (child.suspensions loopsLowered inOperand)) node
        (fun child mem s => ⟨declaredVariable?_lowerNode limit engines child s,
          fun inOperand => ih child mem s inOperand⟩) s
      rw [lowerNode_plain limit _ scope, answer, Node.assemble_getD same]
      exact Node.suspensions_rebuilt same scope (.inl rfl)
        fun part mem => ⟨.inr (related part mem).1, (related part mem).2⟩

end Lowering

/-! ## Lowering the for-in loops of a scope -/

open Build

namespace ForIn

theorem suspensions_statements (body : Node) (inOperand : Bool) :
    (body.statements.flatMap fun statement => statement.suspensions false inOperand) =
      body.suspensions false inOperand := by
  obtain ⟨span, kind⟩ := body
  cases kind
  case block | program =>
    simp [Node.statements, Node.kind, Node.suspensions_mk, Kind.form, Form.isFunctionScope,
      Form.isFunctionLike, Kind.children, Node.suspension?, Node.mode?, Node.isReplaceable]
  all_goals exact List.append_nil _

theorem suspensions_loop (names : Names) (label : Option String) (span : Span)
    (initializer expression body : Node) (inOperand : Bool) :
    (loop names label span initializer expression body).suspensions false inOperand =
      expression.suspensions false inOperand ++
        ((if (declaredVariable? initializer).isSome then []
          else initializer.suspensions false inOperand) ++ body.suspensions false inOperand) := by
  have currentKey : names.currentKey.suspensions false inOperand = [] := by
    simp [Names.currentKey, element, identifier, Node.synthetic, Node.suspensions_mk, Kind.form,
      Form.isFunctionScope, Form.isFunctionLike, Kind.children, Node.suspension?, Node.mode?,
      Node.kind, Node.isReplaceable]
  have bound : (bindVariable initializer names.currentKey).suspensions false inOperand =
      if (declaredVariable? initializer).isSome then []
      else initializer.suspensions false inOperand := by
    unfold bindVariable
    cases declaredVariable? initializer <;>
      simp [currentKey, variableStatement, variableDeclaration, assignmentStatement,
        expressionStatement, assignment, binary, Node.synthetic, Node.suspensions_mk, Kind.form,
        Form.isFunctionScope, Form.isFunctionLike, Kind.children, Node.suspension?, Node.mode?,
        Node.kind, Node.isReplaceable]
  have walk : (names.walkKeys initializer body.statements).suspensions false inOperand =
      (bindVariable initializer names.currentKey).suspensions false inOperand ++
        body.suspensions false inOperand := by
    rw [← suspensions_statements body]
    simp [Names.walkKeys, Names.skipDeleted, currentKey, forStatement, variableStatement,
      variableDeclaration, number, binary, identifier, Build.property, postfixIncrement, block,
      ifStatement, Build.not, unary, continueStatement, Node.synthetic, Node.suspensions_mk,
      Kind.form, Form.isFunctionScope, Form.isFunctionLike, Kind.children, Node.suspension?,
      Node.mode?, Node.kind, Node.isReplaceable]
  rw [← bound, ← walk]
  cases label <;>
    simp [loop, Names.collectKeys, labeledStatement, forInStatement, expressionStatement,
      methodCall, call, array, variableStatement, variableDeclaration, identifier, Build.property,
      Node.synthetic, Node.suspensions_mk, Kind.form, Form.isFunctionScope, Form.isFunctionLike,
      Kind.children, Node.suspension?, Node.mode?, Node.kind, Node.isReplaceable]

/-- Lowering the for-in loops of a scope keeps its suspensions, apart from those in an initializer
that declares the loop variable. A loop takes its object before its initializer. -/
theorem suspensions_lowerAt (node : Node) (label : Option String) (s : NameSupply)
    (inOperand : Bool) :
    ((((lowerAt node label).run s).1.getD node).suspensions false inOperand).Perm
      (node.suspensions true inOperand) := by
  induction node using Node.inductionOn generalizing label s inOperand with
  | step node ih =>
    cases node using cases_node with
    | scope node scope =>
      rw [lowerAt_scope scope, Node.suspensions_scope scope]
      exact .of_eq (Node.suspensions_scope scope)
    | loop span initializer expression body =>
      have plain : Node.isFunctionScope ⟨span, .forInStatement initializer expression body⟩ = false :=
        rfl
      simp only [Node.children, Node.kind, Kind.children, List.mem_cons, List.not_mem_nil, or_false,
        forall_eq_or_imp, forall_eq] at ih
      obtain ⟨ofInitializer, ofExpression, ofBody⟩ := ih
      let first := (lowerAt initializer none).run s
      let second := (lowerAt expression none).run first.2
      have keepsInitializer := ofInitializer none s inOperand
      have keepsExpression := ofExpression none first.2 inOperand
      have keepsBody := ofBody none second.2 inOperand
      rw [run_lowerAt_forIn, Option.getD_some, suspensions_loop, declaredVariable?_lowerAt,
        Node.suspensions_plain plain]
      cases declares : declaredVariable? initializer with
      | some name =>
        simpa [Node.keptChildren, Node.kind, Kind.kept, Node.dropsInitializer, declares,
          Node.suspension?, Node.mode?, Node.isReplaceable] using keepsExpression.append keepsBody
      | none =>
        have all := (keepsExpression.append (keepsInitializer.append keepsBody)).trans
          (List.perm_append_comm_assoc _ _ _)
        simpa [Node.keptChildren, Node.kind, Kind.kept, Node.dropsInitializer, declares,
          Node.suspension?, Node.mode?, Node.isReplaceable] using all
    | labeled span inner statement isLoop =>
      have plain : Node.isFunctionScope ⟨span, .labeledStatement inner statement⟩ = false := rfl
      have lowered := ih statement (by simp [Node.children, Node.kind, Kind.children]) (some inner) s
        inOperand
      obtain ⟨span', kind⟩ := statement
      cases kind <;> try cases isLoop
      rw [run_lowerAt_forIn, Option.getD_some] at lowered
      rw [lowerAt_labeled rfl, run_lowerAt_forIn, Option.getD_some, Node.suspensions_plain plain]
      simpa [Node.keptChildren, Node.kind, Kind.kept, Kind.children, Node.suspension?, Node.mode?,
        Node.isReplaceable] using lowered
    | plain node plain =>
      obtain ⟨results, same, answer, related⟩ := Node.rebuild_each
        (f := fun child => lowerAt child none)
        (R := fun child result => declaredVariable? (result.getD child) = declaredVariable? child ∧
          ∀ inOperand, ((result.getD child).suspensions false inOperand).Perm
            (child.suspensions true inOperand)) node
        (fun child mem s => ⟨declaredVariable?_lowerAt child s,
          fun inOperand => ih child mem none s inOperand⟩) s
      rw [lowerAt_plain plain, answer, Node.assemble_getD same]
      exact Node.suspensions_rebuilt same plain.1 (.inr plain.2.1)
        fun part mem => ⟨.inl rfl, (related part mem).2⟩

end ForIn

/-! ## Desugaring -/

namespace ForEach

/-- The loop for a `yield for e;` suspends in its operand and by the `yield` of an element. -/
theorem suspensions_loop (getIterator iterator step element : String) (span : Span)
    (operand : Node) :
    (loop getIterator iterator step span (variableStatement element none) operand
      (block [suspensionStatement (some (identifier element)) false])).suspensions false false =
      operand.suspensions false false ++ [⟨false, .synthetic, .statement false true⟩] := by
  simp [loop, next, methodCall, call, property, identifier, variableStatement, variableDeclaration,
    forStatement, Build.not, unary, assignment, binary, block, bindVariable, declaredVariable?,
    Node.statements, suspensionStatement, Node.synthetic, Node.suspensions_mk, Kind.form,
    Form.isFunctionScope, Form.isFunctionLike, Kind.children, Node.kind, Node.suspension?,
    Node.mode?, Node.isReplaceable, Node.span]

end ForEach

namespace Iteration

variable {α : Type} {f : Suspension → List α}

/-- Desugaring a scope leaves the suspensions that it does not replace. Nothing is to be noted of the
statements that yield the elements, and the place of a suspension must not matter. -/
theorem flatMap_suspensions_desugar (elements : ∀ span, f ⟨false, span, .statement false true⟩ = [])
    (anywhere : ∀ suspension, f suspension.inside = f suspension) (helpers : Helpers) (body : Node)
    (s : Unit × NameSupply) :
    (((((desugar (.standard helpers) body).run s).1.getD body).suspensions false false).flatMap
      f).Perm ((body.suspensions false false).flatMap (Suspension.remaining true f)) := by
  unfold desugar
  induction body using Node.inductionOn generalizing s with
  | step node ih =>
    rw [Node.editOwnScope_eq]
    cases scope : node.isFunctionScope with
    | true =>
      have unchanged : (((pure none : StateM (Unit × NameSupply) (Option Node)).run s).1.getD node) =
        node := rfl
      rw [if_pos rfl, unchanged, Node.suspensions_scope scope]
      exact .refl _
    | false =>
      simp only [Bool.false_eq_true, if_false]
      by_cases iterates : ∃ operand, node.kind = .suspensionStatement true (some operand)
      · obtain ⟨operand, hk⟩ := iterates
        obtain ⟨span, kind⟩ := node
        obtain rfl : kind = .suspensionStatement true (some operand) := hk
        rw [show Node.kind ⟨span, .suspensionStatement true (some operand)⟩ =
          .suspensionStatement true (some operand) from rfl, run_step_suspension]
        -- Nothing inside the operand is replaced, so all that it holds is left.
        have ofOperand : ((operand.suspensions false true).flatMap (Suspension.remaining true f)) =
            (operand.suspensions false false).flatMap f := by
          rw [Node.suspensions_inside operand false, List.flatMap_map]
          refine List.flatMap_congr fun suspension _ => ?_
          rw [Suspension.remaining_inside, anywhere]
        rw [Option.getD_some, ForEach.suspensions_loop, List.flatMap_append, List.flatMap_singleton,
          elements, List.append_nil, ← ofOperand, Node.suspensions_mk]
        exact .of_eq (by simp [Kind.form, Form.isFunctionScope, Form.isFunctionLike, Kind.children, Node.kind,
          Node.suspension?, Node.mode?, Node.isReplaceable, Suspension.remaining, Suspension.isReplaced])
      · have other := fun operand hk => iterates ⟨operand, hk⟩
        have notReplaceable := Node.isReplaceable_eq_false other
        obtain ⟨results, same, answer, related⟩ := Node.rebuild_each
          (R := fun child result => (((result.getD child).suspensions false false).flatMap f).Perm
            ((child.suspensions false false).flatMap (Suspension.remaining true f))) node
          (fun child mem s => ih child mem s) s
        rw [step_eq_rebuild _ _ other, answer, Node.assemble_getD same]
        refine Node.flatMap_suspensions_rebuilt same scope (.inl rfl) (fun suspension mem => ?_)
          fun part mem => ⟨.inl rfl, ?_⟩
        · simp [Suspension.remaining, Node.isReplaced_eq_false notReplaceable mem]
        · rw [notReplaceable]
          exact related part mem

end Iteration

namespace Lowering

/-! ## The stages -/

theorem suspensions_walked (plan : Plan) (tree : Node) (names : NameSupply) (inOperand : Bool) :
    ((walked plan tree names).1.suspensions false inOperand).Perm
      (tree.suspensions plan.lowerForIn inOperand) := by
  unfold walked
  cases plan.lowerForIn with
  | false => exact .refl _
  | true => exact ForIn.suspensions_lowerAt tree none names inOperand

theorem suspensions_desugared {α : Type} {f : Suspension → List α}
    (elements : ∀ span, f ⟨false, span, .statement false true⟩ = [])
    (anywhere : ∀ suspension, f suspension.inside = f suspension) (helpers : Helpers) (plan : Plan)
    (tree : Node) (names : NameSupply) :
    (((desugared helpers plan tree names).1.suspensions false false).flatMap f).Perm
      ((tree.suspensions false false).flatMap (Suspension.remaining plan.desugarIteration f)) := by
  unfold desugared
  cases plan.desugarIteration with
  | false => exact .refl _
  | true => exact Iteration.flatMap_suspensions_desugar elements anywhere helpers tree ((), names)

/-- What the last stage finds in a body is what desugaring leaves of the body as written, without the
initializers that lowering its for-in loops drops. -/
theorem suspensions_ready {α : Type} {f : Suspension → List α}
    (elements : ∀ span, f ⟨false, span, .statement false true⟩ = [])
    (anywhere : ∀ suspension, f suspension.inside = f suspension) (helpers : Helpers) (plan : Plan)
    {body start : Node} (kept : ∀ loopsLowered inOperand,
      (start.suspensions loopsLowered inOperand).Perm (body.suspensions loopsLowered inOperand))
    (names : NameSupply) :
    let walked := walked plan start names
    (((desugared helpers plan walked.1 walked.2).1.suspensions false false).flatMap f).Perm
      ((body.suspensions plan.lowerForIn false).flatMap
        (Suspension.remaining plan.desugarIteration f)) := by
  intro walked
  have walkedKept := (suspensions_walked plan start names false).trans (kept plan.lowerForIn false)
  exact (suspensions_desugared elements anywhere helpers plan walked.1 walked.2).trans
    (walkedKept.flatMap_right _)

end Lowering

end Resumable
