import Resumable.Proofs.Nesting
import Resumable.Proofs.Protocol
import Resumable.Proofs.Suspensions

/-!
# What a run reports

With the engines of the library a run reports two kinds of things: the function scopes that stand
too deep, in source order, and for every body that it enters what a generator cannot run
(`Node.objections`).  An asynchronous body gives no report, since only a body without a `yield`
becomes one.  `reported_lowerNode` says that there is nothing else in the log.
-/

namespace Resumable

/-! ## Objections -/

/-- What is reported of a suspension that stands in the body of a generator. -/
def Mode.objection (span : Span) : Mode → List Diagnostic
  | .statement true _ => [Template.undesugaredIteration.diagnose span []]
  | .await => [Template.awaitInGenerator.diagnose span []]
  | _ => []

/-- What is reported of a suspension in a scope that becomes a generator. -/
def Suspension.objection (suspension : Suspension) : List Diagnostic :=
  suspension.mode.objection suspension.span

/-- The report says that a function stands too deep. -/
def Diagnostic.isRefusal (diagnostic : Diagnostic) : Bool :=
  diagnostic.code == Template.nestingTooDeep.code

theorem Mode.code_objection {span : Span} {mode : Mode} {diagnostic : Diagnostic}
    (mem : diagnostic ∈ mode.objection span) :
    diagnostic.code = Template.undesugaredIteration.code ∨
      diagnostic.code = Template.awaitInGenerator.code := by
  unfold objection at mem
  split at mem
  · rw [List.mem_singleton.1 mem]
    exact .inl rfl
  · rw [List.mem_singleton.1 mem]
    exact .inr rfl
  · cases mem

namespace Node

theorem isYield_eq (node : Node) : node.isYield = node.mode?.any Mode.yields := by
  obtain ⟨span, kind⟩ := node
  cases kind <;> rfl

/-- What is reported of a body: nothing if it has no `yield`, and else what is left in it when it is
handed to the helper for generators. -/
def objections (body : Node) : List Diagnostic :=
  if (Facts.of body).hasSuspension then
    (body.suspensions body.lowersLoops false).flatMap
      (Suspension.remaining (Facts.of body).isIteration Suspension.objection)
  else []

theorem code_objections {body : Node} {diagnostic : Diagnostic} (mem : diagnostic ∈ body.objections) :
    diagnostic.code = Template.undesugaredIteration.code ∨
      diagnostic.code = Template.awaitInGenerator.code := by
  unfold objections at mem
  split at mem
  · obtain ⟨suspension, -, mem⟩ := List.mem_flatMap.1 mem
    unfold Suspension.remaining at mem
    split at mem
    · cases mem
    · exact Mode.code_objection mem
  · cases mem

theorem isRefusal_objections {body : Node} {diagnostic : Diagnostic}
    (mem : diagnostic ∈ body.objections) : diagnostic.isRefusal = false := by
  rcases code_objections mem with code | code <;> rw [Diagnostic.isRefusal, code] <;> rfl

end Node

/-! ## The engines of the library -/

namespace Delegation

theorem log_checkGenerator (node : Node) (log : Log) :
    ((checkGenerator node).run log).2.toList =
      log.toList ++ node.mode?.toList.flatMap (Mode.objection node.span) := by
  obtain ⟨span, kind⟩ := node
  cases kind
  case suspensionStatement iterates operand =>
    cases iterates
    · exact (List.append_nil _).symm
    · exact Array.toList_push
  case asyncSuspensionStatement => exact Array.toList_push
  all_goals exact (List.append_nil _).symm

/-- Making a body a generator reports every suspension that a generator cannot run. -/
theorem log_lowerGenerator (helpers : Helpers) (body : Node) (log : Log) :
    ((lowerGenerator helpers body).run log).2.toList =
      log.toList ++ (body.suspensions false false).flatMap Suspension.objection := by
  have walked (nodes : List Node) (log : Log) :
      ((nodes.forM checkGenerator).run log).2.toList =
        log.toList ++ nodes.flatMap fun node => node.mode?.toList.flatMap (Mode.objection node.span) := by
    induction nodes generalizing log with
    | nil => exact (List.append_nil _).symm
    | cons node rest ih =>
      simp only [List.forM_eq_forM] at ih ⊢
      rw [List.forM_cons, run_bind, ih, log_checkGenerator, List.flatMap_cons, List.append_assoc]
  rw [lowerGenerator, Node.walkOwnScope_eq]
  exact (walked body.ownScope log).trans
    (congrArg _ (Node.flatMap_suspensions_ownScope Mode.objection body false).symm)

/-- Making a body without a `yield` asynchronous reports nothing. -/
theorem log_lowerAsync (helpers : Helpers) {body : Node}
    (calm : ∀ inner ∈ body.ownScope, inner.isYield = false) (log : Log) :
    ((lowerAsync helpers body).run log).2 = log := by
  change ((body.editOwnScope awaitStep).run log).2 = log
  induction body using Node.inductionOn generalizing log with
  | step node ih =>
    rw [Node.editOwnScope_eq]
    cases scope : node.isFunctionScope with
    | true => rfl
    | false =>
      obtain ⟨itself, below⟩ := (Node.forall_ownScope_iff scope).1 calm
      have rebuilt : ((node.rebuild (node.kind.map fun child =>
          (child, child.editOwnScope awaitStep))).run log).2 = log := by
        obtain ⟨-, -, -, kept, -⟩ := Node.rebuild_rule (I := fun later : Log => later = log)
          (R := fun _ _ _ => True) node
          (fun child mem later same => ⟨(ih child mem (below child mem) later).trans same, trivial⟩)
          (fun _ _ _ _ _ _ _ => trivial) log rfl
        exact kept
      obtain ⟨span, kind⟩ := node
      cases kind
      case asyncSuspensionStatement binding operand =>
        have isChild : operand ∈ Node.children ⟨span, .asyncSuspensionStatement binding operand⟩ := by
          simp [Node.children, Node.kind, Kind.children]
        exact ih operand isChild (below operand isChild) log
      case suspensionStatement => cases itself
      case yieldExpression => cases itself
      all_goals exact rebuilt

end Delegation

namespace Lowering

/-! ## One body -/

theorem log_carryOut_standard (helpers : Helpers) (plan : Plan) (body : Node) (nested : Option Node)
    (s : State Unit) :
    let walked := walked plan (nested.getD body) s.names
    let tree := (desugared helpers plan walked.1 walked.2).1
    ((carryOut (.standard helpers) body nested (some plan)).run s).2.log =
      match plan.target with
      | .generator => ((Delegation.lowerGenerator helpers tree).run s.log).2
      | .async => ((Delegation.lowerAsync helpers tree).run s.log).2 := by
  intro walked tree
  let ready := (prepare (.standard helpers) plan body nested).run s.lowering
  obtain ⟨readyEq, log⟩ := prepare_standard helpers plan body nested s.lowering
  have treeEq : ready.1.getD body = tree := congrArg Prod.fst readyEq
  rw [run_carryOut_some]
  simp only [run_andThen]
  rw [show (prepare (.standard helpers) plan body nested).run s.lowering = ready from rfl, treeEq,
    show s.log = ready.2.log from log.symm]
  cases target : plan.target <;> simp only [targetStage, target] <;> rfl

/-- Carrying out the plan of a body reports what there is to object to in the body as written. -/
theorem log_carryOut (helpers : Helpers) (body : Node) (nested : Option Node) (s : State Unit)
    (kept : ∀ loopsLowered inOperand, ((nested.getD body).suspensions loopsLowered inOperand).Perm
      (body.suspensions loopsLowered inOperand)) :
    let out := (carryOut (.standard helpers) body nested (Plan.ofFacts (Facts.of body))).run s
    ∃ new, out.2.log.toList = s.log.toList ++ new ∧ new.Perm body.objections := by
  intro out
  cases suspends : (Facts.of body).suspends with
  | false =>
    have outEq : out = (nested, s) := run_carryOut_calm _ body nested suspends s
    have quiet : (Facts.of body).hasSuspension = false := by simp_all [Facts.suspends]
    refine ⟨[], by rw [outEq, List.append_nil], ?_⟩
    rw [Node.objections, quiet]
    exact .refl _
  | true =>
    let plan : Plan := ⟨(Facts.of body).hasForIn, (Facts.of body).isIteration,
      if (Facts.of body).hasSuspension then .generator else .async⟩
    have hasPlan : Plan.ofFacts (Facts.of body) = some plan := ofFacts_suspends suspends
    have lowers : body.lowersLoops = plan.lowerForIn := by simp [Node.lowersLoops, suspends, plan]
    let walked := walked plan (nested.getD body) s.names
    let tree := (desugared helpers plan walked.1 walked.2).1
    have outEq : out = (carryOut (.standard helpers) body nested (some plan)).run s := by
      simp only [out, hasPlan]
    have log := log_carryOut_standard helpers plan body nested s
    rw [← outEq] at log
    cases yields : (Facts.of body).hasSuspension with
    | true =>
      have target : plan.target = .generator := by simp [plan, yields]
      rw [log, target]
      refine ⟨_, Delegation.log_lowerGenerator helpers tree s.log, ?_⟩
      rw [Node.objections, yields, lowers]
      exact suspensions_ready (fun _ => rfl) (fun _ => rfl) helpers plan kept s.names
    | false =>
      have target : plan.target = .async := by simp [plan, yields]
      have calm : ∀ inner ∈ body.ownScope, inner.isYield = false := by
        rw [Facts.hasSuspension_of, List.any_eq_false] at yields
        simpa using yields
      -- Without a `yield` nothing is desugared.
      have sameTree : tree = walked.1 := by
        have noYields : body.yields = [] := by simpa [Node.yields] using calm
        have desugars : plan.desugarIteration = false := by
          simp [plan, Facts.isIteration_of, noYields]
        simp [tree, desugared, desugars]
      have stillCalm : ∀ inner ∈ tree.ownScope, inner.isYield = false := by
        rw [sameTree]
        refine (Node.forall_mode_iff Node.isYield_eq _ false).1 fun suspension mem => ?_
        have inBody := (kept _ false).subset ((suspensions_walked plan _ s.names false).subset mem)
        exact (Node.forall_mode_iff Node.isYield_eq body false).2 calm suspension
          (Node.suspensions_subset body inBody)
      rw [log, target]
      refine ⟨[], ?_, ?_⟩
      · exact (congrArg _ (Delegation.log_lowerAsync helpers stillCalm s.log)).trans
          (List.append_nil _).symm
      · rw [Node.objections, yields]
        exact .refl _

/-! ## The whole run -/

/-- The report of a function scope that stands too deep. -/
def refusal (limit : UInt32) (node : Node) : Diagnostic :=
  Template.nestingTooDeep.diagnose node.span [toString limit.toNat]

/-- What is reported of the body of a function. -/
def reports (function : Node) : List Diagnostic := function.body?.toList.flatMap Node.objections

/-- What a run adds to the log for a tree: the refusals in source order, and between them what is
reported of the bodies that it enters. -/
structure Reported (limit : UInt32) (around : List Node) (node : Node) (new : List Diagnostic) :
    Prop where
  refusals : new.filter Diagnostic.isRefusal =
    (node.tooDeep limit.toNat around).map (refusal limit)
  others : (new.filter fun diagnostic => !diagnostic.isRefusal).Perm
    ((node.entered limit.toNat (around.countP (·.isFunctionScope))).flatMap reports)

namespace Reported

variable {limit : UInt32} {around : List Node} {node : Node}

theorem refused (scope : node.isFunctionScope = true)
    (atLimit : around.countP (·.isFunctionScope) = limit.toNat) :
    Reported limit around node [refusal limit node] where
  refusals := by
    rw [Node.tooDeep_refused scope atLimit]
    rfl
  others := by
    rw [Node.entered_deep scope (Nat.le_of_eq atLimit.symm)]
    exact .refl _

theorem function {body : Node} {inner own : List Diagnostic} (isFunction : node.isFunctionLike = true)
    (has : node.body? = some body) (room : around.countP (·.isFunctionScope) < limit.toNat)
    (nested : Reported limit (node :: around) body inner) (objections : own.Perm body.objections) :
    Reported limit around node (inner ++ own) := by
  have scope := Node.isFunctionScope_of_like isFunction
  have noRefusal : ∀ diagnostic ∈ own, diagnostic.isRefusal = false := fun _ mem =>
    Node.isRefusal_objections (objections.subset mem)
  have none : own.filter Diagnostic.isRefusal = [] := by
    simpa [List.filter_eq_nil_iff] using noRefusal
  have all : (own.filter fun diagnostic => !diagnostic.isRefusal) = own := by
    simpa [List.filter_eq_self] using noRefusal
  have others := nested.others
  rw [List.countP_cons_of_pos scope] at others
  constructor
  · rw [List.filter_append, none, List.append_nil, nested.refusals, Node.tooDeep_room fun _ => room,
      Node.explored_function isFunction has, List.flatMap_singleton]
  · rw [List.filter_append, all, Node.entered_function isFunction has, if_neg (Nat.not_le.2 room),
      List.flatMap_append, List.flatMap_singleton, reports, has]
    exact others.append (by simpa using objections)

/-- A node that is no function declaration or accessor is reported of through its children. -/
theorem parts {parts : Kind (Node × List Diagnostic × Node)} (same : parts.map Prod.fst = node.kind)
    (other : node.isFunctionLike = false)
    (room : node.isFunctionScope = true → around.countP (·.isFunctionScope) < limit.toNat)
    (each : ∀ part ∈ parts.children, Reported limit (node :: around) part.1 part.2.1) :
    Reported limit around node (parts.children.flatMap fun part => part.2.1) := by
  have children := Course.children_eq same
  constructor
  · rw [List.filter_flatMap, Node.tooDeep_room room, Node.explored_other other, children,
      List.flatMap_map, List.map_flatMap]
    exact List.flatMap_congr fun part mem => (each part mem).refusals
  · rw [List.filter_flatMap, Node.entered_other other room, children, List.flatMap_map,
      List.flatMap_assoc]
    exact .flatMap_left _ fun part mem => (each part mem).others

end Reported

/-- A run reports the function scopes that stand too deep, and what there is to object to in the
bodies that it enters. -/
theorem reported_lowerNode (limit : UInt32) (helpers : Helpers) (node : Node) (around : List Node)
    (s : State Unit) (depth : s.depth = around.countP (·.isFunctionScope))
    (within : s.depth ≤ limit.toNat) :
    let out := (lowerNode limit (.standard helpers) node).run s
    ∃ new, out.2.log.toList = s.log.toList ++ new ∧ Reported limit around node new := by
  induction node using Node.inductionOn generalizing around s with
  | step node ih =>
    intro out
    by_cases refused : node.isFunctionScope = true ∧ limit.toNat ≤ s.depth
    · have outEq : out = _ := run_lowerNode_refused limit _ refused.1 refused.2
      refine ⟨_, ?_, .refused refused.1 (by omega)⟩
      rw [outEq]
      split <;> exact Array.toList_push
    · have room (scope : node.isFunctionScope = true) : s.depth < limit.toNat := by
        simp only [scope, true_and] at refused
        omega
      have rebuilt (start : State Unit)
          (startDepth : start.depth = (node :: around).countP (·.isFunctionScope))
          (within : start.depth ≤ limit.toNat) (other : node.isFunctionLike = false) :
          let later := (node.rebuild (Lowering.parts limit (.standard helpers) node)).run start
          ∃ new, later.2.log.toList = start.log.toList ++ new ∧ Reported limit around node new := by
        obtain ⟨-, parts, same, -, log, each⟩ := Node.rebuild_traced
          (W := fun (s : State Unit) new later => later.log.toList = s.log.toList ++ new)
          ⟨fun _ => (List.append_nil _).symm, fun first second => by
            rw [second, first, List.append_assoc]⟩
          (I := fun later => later.depth = start.depth)
          (R := fun child new _ => Reported limit (node :: around) child new) node
          (fun child mem later still => by
            obtain ⟨new, log, reported⟩ := ih child mem (node :: around) later
              (still.trans startDepth) (still ▸ within)
            exact ⟨((depth_log_lowerNode limit helpers child later).1).trans still, new, log, reported⟩)
          start rfl
        exact ⟨_, log, .parts same other (fun scope => depth ▸ room scope) each⟩
      cases node using Node.cases_scope with
      | function node body isFunction has mem =>
        have scope := Node.isFunctionScope_of_like isFunction
        have deeper : s.visit.deeper.depth = (node :: around).countP (·.isFunctionScope) := by
          rw [List.countP_cons_of_pos scope]
          exact congrArg (· + 1) depth
        obtain ⟨new, log, nested⟩ := ih body mem (node :: around) s.visit.deeper deeper (room scope)
        let inner := (lowerNode limit (.standard helpers) body).run s.visit.deeper
        obtain ⟨own, logThen, objections⟩ := log_carryOut helpers body inner.1 inner.2
          fun loopsLowered inOperand => suspensions_lowerNode limit _ loopsLowered body _ inOperand
        have facts : Facts.of (inner.1.getD body) = Facts.of body :=
          facts_lowerNode limit _ body s.visit.deeper
        have outEq : out = _ := run_lowerNode_function limit _ isFunction has (room scope)
        refine ⟨new ++ own, ?_, .function isFunction has (depth ▸ room scope) nested objections⟩
        rw [outEq, lowerBody_eq]
        simp only [run_bind, State.log_shallower]
        rw [facts]
        exact logThen.trans (by rw [log, List.append_assoc]; rfl)
      | expression node isExpression =>
        have scope := Node.isFunctionScope_of_expression isExpression
        have other := Node.isFunctionLike_of_expression isExpression
        have deeper : s.deeper.depth = (node :: around).countP (·.isFunctionScope) := by
          rw [List.countP_cons_of_pos scope]
          exact congrArg (· + 1) depth
        have outEq : out = _ := run_lowerNode_expression limit _ isExpression (room scope)
        rw [outEq]
        exact rebuilt s.deeper deeper (room scope) other
      | plain node plain =>
        have outEq : out = (node.rebuild (Lowering.parts limit (.standard helpers) node)).run s :=
          congrArg (StateT.run · s) (lowerNode_plain limit _ plain)
        rw [outEq]
        refine rebuilt s ?_ within (Node.isFunctionLike_of_not_scope plain)
        rw [List.countP_cons_of_neg (by simp [plain]), depth]

/-- The log after a run of the library. -/
theorem reported_runStandard (options : Options) (names : NameSupply) (log : Log) (tree : Node) :
    ∃ new, (runStandard options names log tree).log.toList = log.toList ++ new ∧
      Reported options.maxFunctionDepth [] tree new :=
  reported_lowerNode options.maxFunctionDepth options.helpers tree []
    ⟨(), names.reserveAll tree.names.toList, log, 0, .zero⟩ rfl (Nat.zero_le _)

/-- The depth guard is exact and balanced. A run reports the function scopes with exactly as many
function scopes around them as the limit says, in source order, and counts them. A scope at the limit
is kept without doing anything for its parts, and the lowering of every node comes back to the depth
from which it started. -/
theorem runStandard_depth_guard (options : Options) (names : NameSupply) (log : Log) (tree : Node) :
    let limit := options.maxFunctionDepth
    let engines : Engines Unit := .standard options.helpers
    let outcome := runStandard options names log tree
    let refused := tree.tooDeep limit.toNat []
    (∃ new, outcome.log.toList = log.toList ++ new ∧
      new.filter Diagnostic.isRefusal = refused.map (refusal limit)) ∧
      outcome.stats.depthLimitHits = refused.length ∧
      (∀ (node : Node) (parts : Kind (Node × Run Unit (Option Node))) (s : State Unit),
        parts.map Prod.fst = node.kind → node.isFunctionScope = true → limit.toNat ≤ s.depth →
        (step limit engines node parts).run s =
          (none, (if node.isFunctionLike then s.visit else s).refuse limit node)) ∧
      ∀ (node : Node) (s : State Unit), ((lowerNode limit engines node).run s).2.depth = s.depth := by
  intro limit engines outcome refused
  obtain ⟨new, grown, reported⟩ := reported_runStandard options names log tree
  have counted := (stats_lowerNode limit engines tree
    ⟨(), names.reserveAll tree.names.toList, log, 0, .zero⟩).2
  refine ⟨⟨new, grown, reported.refusals⟩, ?_, fun node parts s same scope deep => ?_, fun node s => ?_⟩
  · have hits : outcome.stats.depthLimitHits = (tally limit.toNat tree 0).depthLimitHits := by
      rw [show outcome.stats = _ from counted, Stats.depthLimitHits_add]
      exact Nat.zero_add _
    exact hits.trans (depthLimitHits_tally limit.toNat tree [] (Nat.zero_le _))
  · exact run_step_refused limit engines same scope deep
  · exact (depth_log_lowerNode limit options.helpers node s).1

/-- A function inside another one under the limit 1: the inner one is refused. -/
theorem depth_guard_pair :
    let options : Options := ⟨"$__", 1, .standard⟩
    let inner := Node.synthetic (.functionDeclaration (some "g") false [] (Build.block []))
    let outer := Node.synthetic (.functionDeclaration (some "f") false [] (Build.block [inner]))
    let outcome := runStandard options options.nameSupply #[] outer
    let inside : State Unit := ⟨(), options.nameSupply, #[], 1, .zero⟩
    outcome.log.toList.filter Diagnostic.isRefusal = [refusal 1 inner] ∧
      outcome.stats.depthLimitHits = 1 ∧
      (step 1 (.standard options.helpers) inner
        (inner.kind.map fun child => (child, pure (some outer)))).run inside =
          (none, inside.visit.refuse 1 inner) := by
  intro options inner outer outcome inside
  obtain ⟨⟨new, grown, refusals⟩, hits, kept, -⟩ :=
    runStandard_depth_guard options options.nameSupply #[] outer
  have isNew : outcome.log.toList = new := grown
  have refused : outer.tooDeep 1 [] = [inner] := by rfl
  refine ⟨?_, hits, kept inner _ inside rfl rfl (Nat.le_refl 1)⟩
  rw [isNew, refusals]
  exact congrArg (List.map (refusal 1)) refused

end Lowering

end Resumable
