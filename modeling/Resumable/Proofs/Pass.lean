import Resumable.Proofs.ScopeEdits

/-!
# What the lowering does at a node

The lowering of a node is one of four things: a function scope that stands too deep is refused
(`run_lowerNode_refused`), the body of another function declaration or accessor is lowered one level
deeper (`run_lowerNode_function`), a function expression is rebuilt one level deeper
(`run_lowerNode_expression`), and anything else is rebuilt (`lowerNode_plain`).  With the engines of
the library a body that suspends comes back as a block that hands a rewritten body to a helper, and
the functions that stand in the rewritten body stood in it before (`lowerBody_standard`).
-/

namespace Resumable.Lowering

variable {σ : Type}

/-- The lowering of one node of a tree. -/
def lowerNode (limit : UInt32) (engines : Engines σ) (node : Node) : Run σ (Option Node) :=
  node.edit (step limit engines)

theorem lowerNode_eq (limit : UInt32) (engines : Engines σ) (node : Node) :
    lowerNode limit engines node =
      step limit engines node (node.kind.map fun child => (child, lowerNode limit engines child)) := by
  rw [lowerNode, Node.edit, Node.para_eq]
  rfl

/-! ## States -/

/-- The state once a node was refused. -/
def State.refuse (limit : UInt32) (node : Node) (s : State σ) : State σ :=
  { s with
    stats := { s.stats with depthLimitHits := s.stats.depthLimitHits + 1 }
    log := s.log.push (Template.nestingTooDeep.diagnose node.span [toString limit.toNat]) }

/-- The state once a function declaration or accessor was met. -/
def State.visit (s : State σ) : State σ :=
  { s with stats := { s.stats with functionsVisited := s.stats.functionsVisited + 1 } }

/-- The state inside a function. -/
def State.deeper (s : State σ) : State σ := { s with depth := s.depth + 1 }

/-- The state back outside of a function. -/
def State.shallower (s : State σ) : State σ := { s with depth := s.depth - 1 }

@[simp] theorem State.depth_visit (s : State σ) : s.visit.depth = s.depth := rfl

@[simp] theorem State.depth_deeper (s : State σ) : s.deeper.depth = s.depth + 1 := rfl

@[simp] theorem State.depth_refuse (limit : UInt32) (node : Node) (s : State σ) :
    (s.refuse limit node).depth = s.depth := rfl

@[simp] theorem State.depth_shallower (s : State σ) : s.shallower.depth = s.depth - 1 := rfl

@[simp] theorem State.log_visit (s : State σ) : s.visit.log = s.log := rfl

@[simp] theorem State.log_deeper (s : State σ) : s.deeper.log = s.log := rfl

@[simp] theorem State.log_shallower (s : State σ) : s.shallower.log = s.log := rfl

/-! ## Nodes -/

theorem run_descend_deep {limit : UInt32} {s : State σ} (deep : limit.toNat ≤ s.depth)
    (node : Node) :
    (descend limit node).run s = (false, s.refuse limit node) := by
  simp only [descend, run_bind]
  exact (congrArg (StateT.run · s) (if_pos deep)).trans rfl

theorem run_descend_room {limit : UInt32} {s : State σ} (room : s.depth < limit.toNat)
    (node : Node) :
    (descend limit node).run s = (true, s.deeper) := by
  simp only [descend, run_bind]
  exact (congrArg (StateT.run · s) (if_neg (Nat.not_le.2 room))).trans rfl

theorem run_lowerFunction_deep {limit : UInt32} {s : State σ} (deep : limit.toNat ≤ s.depth)
    (engines : Engines σ) (node : Node) (body : Node × Run σ (Option Node)) :
    (lowerFunction limit engines node body).run s = (none, s.visit.refuse limit node) := by
  have visited : (count fun stats =>
      { stats with functionsVisited := stats.functionsVisited + 1 }).run s = ((), s.visit) := rfl
  simp only [lowerFunction, run_bind, visited, run_descend_deep (s := s.visit) deep]
  rfl

theorem run_lowerFunction_room {limit : UInt32} {s : State σ} (room : s.depth < limit.toNat)
    (engines : Engines σ) (node : Node) (body : Node × Run σ (Option Node)) :
    (lowerFunction limit engines node body).run s =
      let lowered := (lowerBody engines body.1 body.2).run s.visit.deeper
      (node.replaceBody lowered.1, lowered.2.shallower) := by
  have visited : (count fun stats =>
      { stats with functionsVisited := stats.functionsVisited + 1 }).run s = ((), s.visit) := rfl
  simp only [lowerFunction, run_bind, visited, run_descend_room (s := s.visit) room]
  rfl

/-- The parts of a node that are handed to a step of the lowering. -/
abbrev parts (limit : UInt32) (engines : Engines σ) (node : Node) :
    Kind (Node × Run σ (Option Node)) :=
  node.kind.map fun child => (child, lowerNode limit engines child)

/-- A function declaration or an accessor is lowered through its body. -/
theorem lowerNode_function (limit : UInt32) (engines : Engines σ) {node body : Node}
    (isFunction : node.isFunctionLike = true) (has : node.body? = some body) :
    lowerNode limit engines node =
      lowerFunction limit engines node (body, lowerNode limit engines body) := by
  rw [lowerNode_eq]
  obtain ⟨span, kind⟩ := node
  cases kind
  case functionDeclaration | getAccessorDeclaration | setAccessorDeclaration =>
    cases has
    rfl
  all_goals cases isFunction

theorem run_lowerNode_function (limit : UInt32) (engines : Engines σ) {node body : Node}
    (isFunction : node.isFunctionLike = true) (has : node.body? = some body) {s : State σ}
    (room : s.depth < limit.toNat) :
    (lowerNode limit engines node).run s =
      let lowered := (lowerBody engines body (lowerNode limit engines body)).run s.visit.deeper
      (lowered.1.map node.withBody, lowered.2.shallower) := by
  rw [lowerNode_function limit engines isFunction has, run_lowerFunction_room room]
  simp only [Node.replaceBody, has, Option.isSome_some, if_true]

theorem run_lowerNode_expression (limit : UInt32) (engines : Engines σ) {node : Node}
    (isExpression : node.form = .functionExpression) {s : State σ} (room : s.depth < limit.toNat) :
    (lowerNode limit engines node).run s =
      let rebuilt := (node.rebuild (parts limit engines node)).run s.deeper
      (rebuilt.1, rebuilt.2.shallower) := by
  rw [lowerNode_eq]
  obtain ⟨span, kind⟩ := node
  cases kind <;> try cases isExpression
  simp only [Node.kind, Kind.map, step, run_bind, run_descend_room room]
  rfl

/-- A function that stands too deep is reported and kept, and nothing in it is looked at: what would
be done with its parts does not matter. -/
theorem run_step_refused (limit : UInt32) (engines : Engines σ) {node : Node}
    {parts : Kind (Node × Run σ (Option Node))} (same : parts.map Prod.fst = node.kind)
    (scope : node.isFunctionScope = true) {s : State σ} (deep : limit.toNat ≤ s.depth) :
    (step limit engines node parts).run s =
      (none, (if node.isFunctionLike then s.visit else s).refuse limit node) := by
  obtain ⟨span, kind⟩ := node
  obtain rfl : parts.map Prod.fst = kind := same
  cases parts
  case functionDeclaration | getAccessorDeclaration | setAccessorDeclaration =>
    simp only [step]
    rw [run_lowerFunction_deep deep]
    rfl
  case functionExpression =>
    simp only [step, run_bind, run_descend_deep deep]
    rfl
  all_goals cases scope

theorem run_lowerNode_refused (limit : UInt32) (engines : Engines σ) {node : Node}
    (scope : node.isFunctionScope = true) {s : State σ} (deep : limit.toNat ≤ s.depth) :
    (lowerNode limit engines node).run s =
      (none, (if node.isFunctionLike then s.visit else s).refuse limit node) := by
  rw [lowerNode_eq]
  refine run_step_refused limit engines ?_ scope deep
  rw [Kind.map_map]
  exact Kind.map_id' _

theorem lowerNode_plain (limit : UInt32) (engines : Engines σ) {node : Node}
    (plain : node.isFunctionScope = false) :
    lowerNode limit engines node = node.rebuild (parts limit engines node) := by
  rw [lowerNode_eq]
  obtain ⟨span, kind⟩ := node
  cases kind
  case functionDeclaration | functionExpression | getAccessorDeclaration | setAccessorDeclaration =>
    cases plain
  all_goals rfl

/-! ## Bodies -/

/-- The state once a body was found to suspend. -/
def State.lowering (s : State σ) : State σ :=
  { s with stats := { s.stats with bodiesLowered := s.stats.bodiesLowered + 1 } }

theorem run_lowerBody_none {engines : Engines σ} {body : Node} {inner : Run σ (Option Node)}
    {s : State σ} (calm : Plan.ofFacts (Facts.of ((inner.run s).1.getD body)) = none) :
    (lowerBody engines body inner).run s = inner.run s := by
  simp only [lowerBody, run_bind, calm]
  rfl

theorem run_lowerBody_some {engines : Engines σ} {body : Node} {inner : Run σ (Option Node)}
    {s : State σ} {plan : Plan}
    (suspends : Plan.ofFacts (Facts.of ((inner.run s).1.getD body)) = some plan) :
    (lowerBody engines body inner).run s =
      let nested := inner.run s
      let walked := (andThen (forInStage engines plan) body nested.1).run nested.2.lowering
      let desugared := (andThen (iterationStage engines plan) body walked.1).run walked.2
      (andThen (targetStage engines plan) body desugared.1).run desugared.2 := by
  simp only [lowerBody, run_bind, suspends]
  rfl

/-- A stage that follows others works on what the tree became. -/
theorem run_andThen (stage : Node → Run σ (Option Node)) (tree : Node) (soFar : Option Node)
    (s : State σ) :
    (andThen stage tree soFar).run s =
      (((stage (soFar.getD tree)).run s).1.or soFar, ((stage (soFar.getD tree)).run s).2) :=
  rfl

theorem or_getD (result soFar : Option Node) (tree : Node) :
    (result.or soFar).getD tree = result.getD (soFar.getD tree) := by
  cases result <;> rfl

/-! ## Bodies under the engines of the library -/

section Standard

variable (helpers : Helpers) (plan : Plan) (tree : Node) (s : State Unit)

/-- Lowering the for-in loops of a body touches neither the depth nor the log. -/
theorem forInStage_standard :
    let out := (forInStage (.standard helpers) plan tree).run s
    (∀ f, f ∈ (out.1.getD tree).functions false ↔ f ∈ tree.functions plan.lowerForIn) ∧
      out.2.depth = s.depth ∧ out.2.log = s.log := by
  obtain ⟨lowerForIn, desugarIteration, target⟩ := plan
  cases lowerForIn with
  | false => exact ⟨fun _ => Iff.rfl, rfl, rfl⟩
  | true => exact ⟨ForIn.mem_functions_lowerAt tree none s.names, rfl, rfl⟩

theorem iterationStage_standard :
    let out := (iterationStage (.standard helpers) plan tree).run s
    (out.1.getD tree).functions false = tree.functions false ∧
      out.2.depth = s.depth ∧ out.2.log = s.log := by
  obtain ⟨lowerForIn, desugarIteration, target⟩ := plan
  cases desugarIteration with
  | false => exact ⟨rfl, rfl, rfl⟩
  | true => exact ⟨Iteration.functions_desugar helpers tree ((), s.names), rfl, rfl⟩

/-- The last stage hands the body, or the body with its awaits rewritten, to a helper. -/
theorem targetStage_standard :
    let out := (targetStage (.standard helpers) plan tree).run s
    ∃ helper rewritten, out.1 = some (Delegation.delegate helper rewritten) ∧
      rewritten.functions false = tree.functions false ∧
      out.2.depth = s.depth ∧ s.log.toList <+: out.2.log.toList := by
  obtain ⟨lowerForIn, desugarIteration, target⟩ := plan
  cases target with
  | generator =>
    exact ⟨helpers.generator, tree, rfl, rfl, rfl,
      Delegation.prefix_lowerGenerator helpers tree s.log⟩
  | async =>
    exact ⟨helpers.awaiter, _, rfl, Delegation.functions_awaitStep tree s.log, rfl,
      Delegation.prefix_lowerAsync helpers tree s.log⟩

end Standard

/-- What becomes of a body that suspends. The functions in the rewritten body are those of the body
whose inner functions were lowered, apart from what lowering for-in loops drops. -/
theorem lowerBody_standard (helpers : Helpers) {body : Node} {inner : Run Unit (Option Node)}
    {s : State Unit} {plan : Plan}
    (suspends : Plan.ofFacts (Facts.of ((inner.run s).1.getD body)) = some plan) :
    let out := (lowerBody (.standard helpers) body inner).run s
    ∃ helper rewritten, out.1 = some (Delegation.delegate helper rewritten) ∧
      (∀ f, f ∈ rewritten.functions false ↔
        f ∈ ((inner.run s).1.getD body).functions plan.lowerForIn) ∧
      out.2.depth = (inner.run s).2.depth ∧
      (inner.run s).2.log.toList <+: out.2.log.toList := by
  intro out
  let nested := inner.run s
  let walked := (andThen (forInStage (.standard helpers) plan) body nested.1).run nested.2.lowering
  let desugared := (andThen (iterationStage (.standard helpers) plan) body walked.1).run walked.2
  have walkedTree := or_getD
    ((forInStage (.standard helpers) plan (nested.1.getD body)).run nested.2.lowering).1 nested.1 body
  have desugaredTree := or_getD
    ((iterationStage (.standard helpers) plan (walked.1.getD body)).run walked.2).1 walked.1 body
  obtain ⟨kept, depth₁, log₁⟩ :=
    forInStage_standard helpers plan (nested.1.getD body) nested.2.lowering
  obtain ⟨same, depth₂, log₂⟩ := iterationStage_standard helpers plan (walked.1.getD body) walked.2
  obtain ⟨helper, rewritten, answer, functions, depth₃, log₃⟩ :=
    targetStage_standard helpers plan (desugared.1.getD body) desugared.2
  have outEq : out = (andThen (targetStage (.standard helpers) plan) body desugared.1).run
      desugared.2 := run_lowerBody_some suspends
  refine ⟨helper, rewritten, ?_, fun f => ?_, ?_, ?_⟩
  · rw [outEq, run_andThen, answer]
    rfl
  · rw [functions, show desugared.1.getD body = _ from desugaredTree, same,
      show walked.1.getD body = _ from walkedTree]
    exact kept f
  · rw [outEq]
    exact depth₃.trans (depth₂.trans depth₁)
  · rw [outEq]
    have before : nested.2.log = desugared.2.log := log₁.symm.trans log₂.symm
    exact before ▸ log₃

/-! ## Depth and log -/

theorem prefix_lowerBody (helpers : Helpers) (body : Node) (inner : Run Unit (Option Node))
    (s : State Unit) :
    (inner.run s).2.log.toList <+:
      ((lowerBody (.standard helpers) body inner).run s).2.log.toList := by
  cases found : Plan.ofFacts (Facts.of ((inner.run s).1.getD body)) with
  | none => exact (run_lowerBody_none found).symm ▸ List.prefix_refl _
  | some plan =>
    obtain ⟨-, -, -, -, -, grown⟩ := lowerBody_standard helpers found
    exact grown

/-- The lowering comes back to the depth it started from, and only adds to the log. -/
theorem depth_log_lowerNode (limit : UInt32) (helpers : Helpers) (node : Node) (s : State Unit) :
    ((lowerNode limit (.standard helpers) node).run s).2.depth = s.depth ∧
      s.log.toList <+: ((lowerNode limit (.standard helpers) node).run s).2.log.toList := by
  induction node using Node.inductionOn generalizing s with
  | step node ih =>
    have rebuilt : ∀ s : State Unit,
        ((node.rebuild (parts limit (.standard helpers) node)).run s).2.depth = s.depth ∧
          s.log.toList <+:
            ((node.rebuild (parts limit (.standard helpers) node)).run s).2.log.toList := by
      intro s
      obtain ⟨-, -, -, kept, -⟩ := Node.rebuild_rule
        (I := fun later : State Unit => later.depth = s.depth ∧ s.log.toList <+: later.log.toList)
        (R := fun _ _ _ => True) node
        (fun child mem later inv =>
          ⟨⟨(ih child mem later).1.trans inv.1, inv.2.trans (ih child mem later).2⟩, trivial⟩)
        (fun _ _ _ _ _ _ _ => trivial) s ⟨rfl, List.prefix_refl _⟩
      exact kept
    have refused : node.isFunctionScope = true → limit.toNat ≤ s.depth →
        ((lowerNode limit (.standard helpers) node).run s).2.depth = s.depth ∧
          s.log.toList <+: ((lowerNode limit (.standard helpers) node).run s).2.log.toList := by
      intro scope deep
      rw [run_lowerNode_refused limit _ scope deep]
      split <;> exact ⟨rfl, by simp [State.refuse]⟩
    cases node using Node.cases_scope with
    | function node body isFunction has mem =>
      by_cases deep : limit.toNat ≤ s.depth
      · exact refused (Node.isFunctionScope_of_like isFunction) deep
      · rw [run_lowerNode_function limit _ isFunction has (by omega)]
        obtain ⟨depth, log⟩ := ih body mem s.visit.deeper
        refine ⟨?_, log.trans (prefix_lowerBody helpers body _ _)⟩
        cases found : Plan.ofFacts (Facts.of
            ((((lowerNode limit (.standard helpers) body).run s.visit.deeper).1).getD body)) with
        | none =>
          rw [run_lowerBody_none found]
          simp [depth]
        | some plan =>
          obtain ⟨-, -, -, -, depth', -⟩ := lowerBody_standard helpers found
          simp [depth', depth]
    | expression node isExpression =>
      by_cases deep : limit.toNat ≤ s.depth
      · exact refused (Node.isFunctionScope_of_expression isExpression) deep
      · rw [run_lowerNode_expression limit _ isExpression (by omega)]
        obtain ⟨depth, log⟩ := rebuilt s.deeper
        exact ⟨by simp [depth], log⟩
    | plain node plain =>
      rw [lowerNode_plain limit _ plain]
      exact rebuilt s

end Resumable.Lowering
