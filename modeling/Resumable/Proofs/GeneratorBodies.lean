import Resumable.Proofs.MixedBodies

/-!
# Bodies that only yield

Whether the statements `yield for e;` of a body are desugared is decided by its last `yield` alone.
If that is no `yield for`, the others of the body are stranded: they reach the helper for generators
as they are, and each of them is reported (`Node.strands`).  In a tree without mixed bodies and with
a plain operand for every `yield for`, this is all that a run ever objects to, and a generator gets a
`yield for` in no other case (`runStandard_accepts`).
-/

namespace Resumable

namespace Node

theorem iterates_eq (node : Node) : node.iterates = node.mode?.any Mode.iterates := by
  obtain ⟨span, kind⟩ := node
  cases kind <;> rfl

/-- The node is no `yield for`, or it has an operand without a `yield` statement in the operand's own
scope. -/
def hasPlainOperand (node : Node) : Bool :=
  match node.kind with
  | .suspensionStatement true none => false
  | .suspensionStatement true (some operand) =>
    operand.ownScope.all (·.form != .suspensionStatement)
  | _ => true

/-- The last `yield` of the body is no `yield for`, but one stands in the body, and not where lowering
the for-in loops drops it. -/
def strands (body : Node) : Bool :=
  !(body.yields.getLast?.any iterates) &&
    (body.suspensions body.lowersLoops false).any (·.mode.iterates)

/-- The body of a function strands a `yield for`. -/
def bodyStrands (function : Node) : Bool := function.body?.any strands

/-! ## Plain operands -/

theorem iterates_eq_false {node : Node} (other : node.form ≠ .suspensionStatement) :
    node.iterates = false := by
  obtain ⟨span, kind⟩ := node
  cases kind
  case suspensionStatement => exact absurd rfl other
  all_goals rfl

/-- No `yield for` stands in the scope of a plain operand. -/
theorem iterates_eq_false_of_mem_operand {node operand : Node} (plain : node.hasPlainOperand = true)
    (hk : node.kind = .suspensionStatement true (some operand)) :
    ∀ inner ∈ operand.ownScope, inner.iterates = false := by
  simp only [hasPlainOperand, hk, List.all_eq_true, bne_iff_ne] at plain
  exact fun inner inside => iterates_eq_false (plain inner inside)

/-- If operands are plain, desugaring replaces every `yield for` of a scope. -/
theorem isReplaced_of_iterates {node : Node} {loopsLowered : Bool}
    (plain : ∀ inner ∈ node.ownScope, inner.hasPlainOperand = true) {suspension : Suspension}
    (mem : suspension ∈ node.suspensions loopsLowered false)
    (iterates : suspension.mode.iterates = true) : suspension.isReplaced = true := by
  induction node using inductionOn with
  | step node ih =>
    cases scope : node.isFunctionScope with
    | true => rw [suspensions_scope scope] at mem; cases mem
    | false =>
      obtain ⟨itself, below⟩ := (forall_ownScope_iff scope).1 plain
      rw [suspensions_plain scope, List.mem_append, List.mem_flatMap] at mem
      rcases mem with here | ⟨child, isKept, mem⟩
      · obtain ⟨mode, has, rfl⟩ := Option.map_eq_some_iff.1 (Option.mem_toList.1 here)
        obtain ⟨span, kind⟩ := node
        cases kind <;> try cases has <;> try cases iterates
        rename_i operand
        cases operand with
        | none => cases itself
        | some operand => rfl
      · by_cases replaced : ∃ operand, node.kind = .suspensionStatement true (some operand)
        · -- No `yield` statement stands in the operand.
          obtain ⟨operand, hk⟩ := replaced
          have isOperand : child = operand := by
            have isChild := keptChildren_subset _ _ isKept
            rw [children, hk] at isChild
            exact List.mem_singleton.1 isChild
          have calm := iterates_eq_false_of_mem_operand itself hk
          subst isOperand
          have quiet := (forall_mode_iff iterates_eq child _).2 calm suspension
            (suspensions_subset child mem)
          rw [iterates] at quiet
          cases quiet
        · have other := isReplaceable_eq_false fun operand hk => replaced ⟨operand, hk⟩
          rw [other] at mem
          have isChild := keptChildren_subset _ _ isKept
          exact ih child isChild (below child isChild) mem

/-- What is left of a body when it is handed over is nothing that concerns a `yield for`, unless the
body strands some. -/
theorem flatMap_remaining_eq_nil_iff {α : Type} {f : Suspension → List α} {body : Node}
    (plain : ∀ inner ∈ body.ownScope, inner.hasPlainOperand = true)
    (about : ∀ suspension ∈ body.suspensions body.lowersLoops false,
      f suspension = [] ↔ suspension.mode.iterates = false) :
    (body.suspensions body.lowersLoops false).flatMap
        (Suspension.remaining (Facts.of body).isIteration f) = [] ↔ body.strands = false := by
  rw [List.flatMap_eq_nil_iff, strands, ← Facts.isIteration_of]
  cases desugars : (Facts.of body).isIteration with
  | true =>
    simp only [Bool.not_true, Bool.false_and, iff_true]
    intro suspension mem
    unfold Suspension.remaining
    split
    · rfl
    · rename_i notReplaced
      refine (about suspension mem).2 (Bool.eq_false_iff.2 fun iterates => notReplaced ?_)
      rw [isReplaced_of_iterates plain mem iterates]
      rfl
  | false =>
    simp only [Suspension.remaining_false, Bool.not_false, Bool.true_and, List.any_eq_false,
      Bool.not_eq_true]
    exact forall₂_congr about

/-- A body without a `yield` strands none. -/
theorem strands_eq_false {body : Node} (calm : (Facts.of body).hasSuspension = false) :
    body.strands = false := by
  rw [Facts.hasSuspension_of, List.any_eq_false] at calm
  have quiet : ∀ inner ∈ body.ownScope, inner.iterates = false := by
    intro inner mem
    have notYield := calm inner mem
    rw [isYield_eq] at notYield
    rw [iterates_eq]
    cases has : inner.mode? with
    | none => rfl
    | some mode => cases mode <;> simp_all [Mode.yields, Mode.iterates]
  have none := (forall_mode_iff iterates_eq body false).2 quiet
  rw [strands, Bool.and_eq_false_iff]
  refine .inr (List.any_eq_false.2 fun suspension mem => ?_)
  rw [none suspension (suspensions_subset body mem)]
  exact Bool.false_ne_true

theorem any_iterates_eq_false_iff (node : Node) :
    node.ownScope.any iterates = false ↔ ((node.suspensions false false).flatMap fun suspension =>
      if suspension.mode.iterates then [()] else []) = [] := by
  have suspensions := forall_mode_iff iterates_eq node false
  simpa [List.flatMap_eq_nil_iff] using suspensions.symm

/-- A pure body is objected to exactly if it strands a `yield for`. -/
theorem objections_eq_nil_iff {body : Node} (noAwaits : ∀ inner ∈ body.ownScope, inner.isAwait = false)
    (plain : ∀ inner ∈ body.ownScope, inner.hasPlainOperand = true) :
    body.objections = [] ↔ body.strands = false := by
  rw [objections]
  split
  · refine flatMap_remaining_eq_nil_iff plain fun suspension mem => ?_
    have notAwait := (forall_mode_iff isAwait_eq body false).2 noAwaits suspension
      (suspensions_subset body mem)
    obtain ⟨inOperand, span, mode⟩ := suspension
    cases mode with
    | statement iterates hasOperand =>
      cases iterates <;> simp [Suspension.objection, Mode.objection, Mode.iterates]
    | expression => simp [Suspension.objection, Mode.objection, Mode.iterates]
    | await => cases notAwait
  · rename_i calm
    simp [strands_eq_false (Bool.eq_false_iff.2 calm)]

end Node

namespace Call

/-- The body that is handed to the engine which makes it a generator or asynchronous. -/
def handedOver? : Call → Option Node
  | .generator body _ | .async body _ => some body
  | _ => none

/-- A `yield for` stands in the own scope of a body that is handed to the generator engine. -/
def leavesIteration : Call → Bool
  | .generator body _ => body.ownScope.any Node.iterates
  | _ => false

theorem leavesIteration_eq_false {call : Call} (notHanded : call.handedOver? = none) :
    call.leavesIteration = false := by
  cases call <;> first | rfl | cases notHanded

end Call

namespace Lowering

/-! ## What is handed to the helpers -/

theorem handedOver?_loops {statements : List Node} {calls : List Call}
    (loops : List.Forall₂ Iteration.IsCallFor statements calls) :
    ∀ call ∈ calls, call.handedOver? = none := by
  induction loops with
  | nil => exact nofun
  | cons first rest ih =>
    obtain ⟨operand, element, answer, -, rfl⟩ := first
    exact List.forall_mem_cons.2 ⟨rfl, ih⟩

/-- Before its last stage, a body is not handed over. -/
theorem calls_prepare {σ : Type} (engines : Engines σ) (plan : Plan) (body : Node)
    (nested : Option Node) (s : State (σ × List Call)) :
    let out := (prepare engines.recording plan body nested).run s
    ∃ calls, out.2.engines.2 = s.engines.2 ++ calls ∧ ∀ call ∈ calls, call.handedOver? = none := by
  intro out
  let walked := (andThen (forInStage engines.recording plan) body nested).run s
  obtain ⟨walks, record₁, walking⟩ := calls_forInStage engines plan (nested.getD body) s
  obtain ⟨loops, record₂, desugaring⟩ :=
    calls_iterationStage engines plan (walked.1.getD body) walked.2
  refine ⟨walks ++ loops, ?_, fun call mem => ?_⟩
  · rw [← List.append_assoc, ← record₁]
    exact record₂
  · rcases List.mem_append.1 mem with isWalk | isLoop
    · split at walking
      · obtain ⟨answer, rfl, -⟩ := walking
        rw [List.mem_singleton.1 isWalk]
        rfl
      · rw [walking.1] at isWalk
        cases isWalk
    · split at desugaring
      · exact handedOver?_loops desugaring.1 call isLoop
      · rw [desugaring.1] at isLoop
        cases isLoop

/-- With the engines of the library, a body that suspends is handed over once, at the end, as the
stages before the last one leave it. -/
theorem handsOver_carryOut (helpers : Helpers) (plan : Plan) (body : Node) (nested : Option Node)
    (s : State (Unit × List Call)) :
    let out := (carryOut (Engines.standard helpers).recording body nested (some plan)).run s
    let walked := walked plan (nested.getD body) s.names
    let ready := desugared helpers plan walked.1 walked.2
    out.2.names = ready.2 ∧ ∃ before answer,
      out.2.engines.2 = s.engines.2 ++ (before ++
        [if plan.target = .generator then .generator ready.1 answer else .async ready.1 answer]) ∧
      ∀ call ∈ before, call.handedOver? = none := by
  intro out walked ready
  let prepared := (prepare (Engines.standard helpers).recording plan body nested).run s.lowering
  obtain ⟨before, record₁, quiet⟩ := calls_prepare (.standard helpers) plan body nested s.lowering
  obtain ⟨answer, record₂, -⟩ :=
    calls_targetStage (.standard helpers) plan (prepared.1.getD body) prepared.2
  -- The stages answer as they do without a record.
  let standard : State Unit := ⟨s.engines.1, s.names, s.log, s.depth, s.lowering.stats⟩
  obtain ⟨same, alike⟩ := mirrors_prepare (mirror_recording (.standard helpers)) plan body nested
    s.lowering standard ⟨rfl, rfl, rfl, rfl, rfl⟩
  obtain ⟨readyEq, -⟩ := prepare_standard helpers plan body nested standard
  have tree : prepared.1.getD body = ready.1 :=
    (congrArg (·.getD body) same).trans (congrArg Prod.fst readyEq)
  have names : prepared.2.names = ready.2 := alike.names.trans (congrArg Prod.snd readyEq)
  have kept : out.2.names = prepared.2.names := by
    obtain ⟨lowerForIn, desugarIteration, target⟩ := plan
    cases target <;> rfl
  refine ⟨kept.trans names, before, answer, ?_, quiet⟩
  rw [← tree, ← List.append_assoc, show s.engines.2 = s.lowering.engines.2 from rfl, ← record₁]
  exact record₂

/-- A `yield for` is left in a body before its last stage exactly if the body as written strands
one. -/
theorem any_iterates_ready (helpers : Helpers) {plan : Plan} {body start : Node}
    (lowers : plan.lowerForIn = body.lowersLoops)
    (desugars : plan.desugarIteration = (Facts.of body).isIteration)
    (kept : ∀ loopsLowered inOperand,
      (start.suspensions loopsLowered inOperand).Perm (body.suspensions loopsLowered inOperand))
    (plain : ∀ inner ∈ body.ownScope, inner.hasPlainOperand = true) (names : NameSupply) :
    let walked := walked plan start names
    (desugared helpers plan walked.1 walked.2).1.ownScope.any Node.iterates = body.strands := by
  intro walked
  have left := suspensions_ready
    (f := fun suspension => if suspension.mode.iterates then [()] else []) (fun _ => rfl)
    (fun _ => rfl) helpers plan kept names
  rw [lowers, desugars] at left
  have none : (desugared helpers plan walked.1 walked.2).1.ownScope.any Node.iterates = false ↔
      body.strands = false := by
    rw [Node.any_iterates_eq_false_iff, ← List.isEmpty_iff, left.isEmpty_eq, List.isEmpty_iff]
    refine Node.flatMap_remaining_eq_nil_iff plain fun suspension _ => ?_
    cases suspension.mode.iterates <;> simp
  cases strands : body.strands with
  | false => exact none.2 strands
  | true => exact Bool.of_not_eq_false fun notLeft => by simp [none.1 notLeft] at strands

/-- The body that is handed to the generator engine has a `yield for` left exactly if the body as
written strands one. -/
theorem leavesIteration_carryOut (helpers : Helpers) (body : Node) (nested : Option Node)
    (s : State (Unit × List Call))
    (kept : ∀ loopsLowered inOperand, ((nested.getD body).suspensions loopsLowered inOperand).Perm
      (body.suspensions loopsLowered inOperand)) :
    let out := (carryOut (Engines.standard helpers).recording body nested
      (Plan.ofFacts (Facts.of body))).run s
    ∃ own, out.2.engines.2 = s.engines.2 ++ own ∧
      ((∀ inner ∈ body.ownScope, inner.hasPlainOperand = true) →
        own.any Call.leavesIteration = body.strands) := by
  intro out
  cases suspends : (Facts.of body).suspends with
  | false =>
    have outEq : out = (nested, s) := run_carryOut_calm _ body nested suspends s
    have quiet : (Facts.of body).hasSuspension = false := by simp_all [Facts.suspends]
    rw [outEq, Node.strands_eq_false quiet]
    exact ⟨[], (List.append_nil _).symm, fun _ => rfl⟩
  | true =>
    let plan : Plan := ⟨(Facts.of body).hasForIn, (Facts.of body).isIteration,
      if (Facts.of body).hasSuspension then .generator else .async⟩
    have hasPlan : Plan.ofFacts (Facts.of body) = some plan := ofFacts_suspends suspends
    have outEq : out = (carryOut (Engines.standard helpers).recording body nested (some plan)).run s := by
      simp only [out, hasPlan]
    obtain ⟨-, before, answer, record, quiet⟩ := handsOver_carryOut helpers plan body nested s
    refine ⟨_, outEq ▸ record, fun plain => ?_⟩
    rw [List.any_append, List.any_eq_false.2 fun call mem => by
      simp [Call.leavesIteration_eq_false (quiet call mem)]]
    cases yields : (Facts.of body).hasSuspension with
    | false =>
      simp [plan, yields, Node.strands_eq_false yields, Call.leavesIteration]
    | true =>
      have target : plan.target = .generator := by simp [plan, yields]
      have lowers : plan.lowerForIn = body.lowersLoops := by
        simp [Node.lowersLoops, suspends, plan]
      have left := any_iterates_ready helpers lowers rfl kept plain s.names
      rw [if_pos target, List.any_cons, List.any_nil, Bool.or_false, Bool.false_or,
        Call.leavesIteration]
      exact left

/-! ## The whole run -/

/-- The calls of a run hand over a `yield for` exactly if the run enters a function that strands
one. -/
theorem any_leavesIteration (limit : UInt32) (helpers : Helpers) (tree : Node)
    (plain : ∀ statement ∈ tree.subtree, statement.hasPlainOperand = true)
    (s : State (Unit × List Call)) (outside : s.depth = 0) (fresh : s.engines.2 = []) :
    ((lowerNode limit (Engines.standard helpers).recording tree).run s).2.engines.2.any
        Call.leavesIteration = (tree.functionsWithin limit.toNat []).any Node.bodyStrands := by
  have entered : (tree.entered limit.toNat s.depth).Perm (tree.functionsWithin limit.toNat []) := by
    rw [outside]
    exact Node.entered_perm limit.toNat tree []
  -- The calls for each function are one block of the trace.
  obtain ⟨-, blocks, record, course⟩ := course_lowerNode limit (Engines.standard helpers).recording
    (W := fun (s : State (Unit × List Call)) (blocks : List (List Call)) later =>
      later.engines.2 = s.engines.2 ++ blocks.flatten)
    ⟨fun s => (List.append_nil _).symm, fun first second => by
      rw [second, first, List.flatten_append, List.append_assoc]⟩
    (fun s later same _ => by rw [same]; exact (List.append_nil _).symm)
    (Q := fun function _ own _ =>
      (∀ body ∈ function.body?, ∀ inner ∈ body.ownScope, inner.hasPlainOperand = true) →
        own.map (·.any Call.leavesIteration) = [function.bodyStrands])
    (fun function body nested s _ has lowered => by
      obtain ⟨before, loweredEq⟩ := lowered
      have nestedEq : nested = ((lowerNode limit _ body).run before).1 :=
        (congrArg Prod.fst loweredEq).symm
      have kept (loopsLowered inOperand : Bool) : ((nested.getD body).suspensions loopsLowered
          inOperand).Perm (body.suspensions loopsLowered inOperand) :=
        nestedEq ▸ suspensions_lowerNode limit _ loopsLowered body before inOperand
      obtain ⟨own, record, leaves⟩ := leavesIteration_carryOut helpers body nested s kept
      refine ⟨[own], by rw [record, List.flatten_singleton], fun plain => ?_⟩
      rw [List.map_singleton, leaves (plain body has), Node.bodyStrands, has]
      rfl) tree s
  have known : Course (fun function _ own _ =>
      own.map (·.any Call.leavesIteration) = [function.bodyStrands]) limit.toNat s.depth tree blocks _ :=
    course.imp fun function _ own _ mem _ strands => strands fun body has inner inScope =>
      plain inner (Node.ownScope_subset_of_mem_functionsWithin (entered.subset mem) has inScope)
  have each := known.flatMap_trace (fun block => [block.any Call.leavesIteration])
    (fun function => [function.bodyStrands]) fun _ _ own _ strands => by
      rw [← List.map_eq_flatMap, strands]
  rw [← List.map_eq_flatMap, ← List.map_eq_flatMap] at each
  rw [record, fresh, List.nil_append, List.any_flatten, ← entered.any_eq]
  simpa [List.any_map] using congrArg (List.any · id) each

/-- What a run reports of a function that it enters. -/
theorem reports_eq_nil_iff {function body : Node} (has : function.body? = some body)
    (noAwaits : ∀ inner ∈ body.ownScope, inner.isAwait = false)
    (plain : ∀ inner ∈ body.ownScope, inner.hasPlainOperand = true) :
    reports function = [] ↔ function.bodyStrands = false := by
  have body := Node.objections_eq_nil_iff noAwaits plain
  simpa [reports, Node.bodyStrands, has] using body

/-- Pure generator bodies are rejected only if they strand a `yield for`. In a tree within the depth
limit, without an `await` in a function and with plain operands, a run reports nothing, and hands no
body with a `yield for` to the generator engine, exactly if in no function that it enters one is
stranded by a last `yield` that is none. -/
theorem runStandard_accepts (options : Options) (names : NameSupply) (log : Log) (tree : Node)
    (shallow : ∀ place ∈ tree.places [], place.node.isFunctionScope = true →
      place.depth < options.maxFunctionDepth.toNat)
    (noAwaits : ∀ function ∈ tree.subtree, function.isFunctionLike = true →
      ∀ body ∈ function.body?, ∀ inner ∈ body.ownScope, inner.isAwait = false)
    (plain : ∀ statement ∈ tree.subtree, statement.hasPlainOperand = true) :
    let functions := tree.functionsWithin options.maxFunctionDepth.toNat []
    let recorded := run options.maxFunctionDepth (Engines.standard options.helpers).recording
      ((), []) names log tree
    recorded.mapEngines Prod.fst = runStandard options names log tree ∧
      ((runStandard options names log tree).log = log ↔
        ∀ function ∈ functions, function.bodyStrands = false) ∧
      ((∀ call ∈ recorded.engines.2, call.leavesIteration = false) ↔
        ∀ function ∈ functions, function.bodyStrands = false) := by
  intro functions recorded
  refine ⟨Outcome.mapEngines_of (mirrors_lowerNode (mirror_recording _) _ tree)
    ⟨rfl, rfl, rfl, rfl, rfl⟩, ?_, ?_⟩
  · obtain ⟨new, grown, reported⟩ := reported_runStandard options names log tree
    have noRefusal : new.filter Diagnostic.isRefusal = [] := by
      rw [reported.refusals, Node.tooDeep_of_shallow shallow]
      rfl
    have all : (new.filter fun diagnostic => !diagnostic.isRefusal) = new := by
      rw [List.filter_eq_self]
      simpa [List.filter_eq_nil_iff] using noRefusal
    have others := reported.others
    rw [all] at others
    have perm := others.trans ((Node.entered_perm _ tree []).flatMap_right reports)
    have unchanged : (runStandard options names log tree).log = log ↔ new = [] := by
      rw [← Array.toList_inj, grown, List.append_right_eq_self]
    rw [unchanged, ← List.isEmpty_iff, perm.isEmpty_eq, List.isEmpty_iff, List.flatMap_eq_nil_iff]
    refine forall₂_congr fun function mem => ?_
    obtain ⟨isFunction, inside⟩ := Node.mem_functionsWithin mem
    obtain ⟨body, has⟩ := Node.exists_body isFunction
    exact reports_eq_nil_iff has (noAwaits function inside isFunction body has) fun inner inScope =>
      plain inner (Node.ownScope_subset_of_mem_functionsWithin mem has inScope)
  · have calls := any_leavesIteration options.maxFunctionDepth options.helpers tree plain
      ⟨((), []), names.reserveAll tree.names.toList, log, 0, .zero⟩ rfl rfl
    change recorded.engines.2.any Call.leavesIteration = functions.any Node.bodyStrands at calls
    have none := congrArg (· = false) calls
    simpa [List.any_eq_false] using none

/-- The function `function f() { for (var k in o) yield k; yield for a; }`. -/
def iteratesLast : Node :=
  let loop := Build.forInStatement (Build.variableStatement "k" none) (Build.identifier "o")
    (Build.suspensionStatement (some (Build.identifier "k")) false)
  Node.synthetic (.functionDeclaration (some "f") false []
    (Build.block [loop, Build.suspensionStatement (some (Build.identifier "a")) true]))

theorem iteratesLast_accepted :
    (runStandard .standard Options.standard.nameSupply #[] iteratesLast).log = #[] := by
  have shallow : ∀ place ∈ iteratesLast.places [], place.node.isFunctionScope = true →
      place.depth < Options.standard.maxFunctionDepth.toNat := by decide
  have noAwaits : ∀ function ∈ iteratesLast.subtree, function.isFunctionLike = true →
      ∀ body ∈ function.body?, ∀ inner ∈ body.ownScope, inner.isAwait = false := by decide
  have plain : ∀ statement ∈ iteratesLast.subtree, statement.hasPlainOperand = true := by decide
  obtain ⟨-, accepted, -⟩ :=
    runStandard_accepts .standard Options.standard.nameSupply #[] iteratesLast shallow noAwaits plain
  exact accepted.2 (by decide)

/-- The function `function f() { yield for a; yield b; }`. -/
def iteratesFirst : Node :=
  Node.synthetic (.functionDeclaration (some "f") false []
    (Build.block [⟨⟨15, 27⟩, .suspensionStatement true (some (Build.identifier "a"))⟩,
      Build.suspensionStatement (some (Build.identifier "b")) false]))

/-- The last `yield` of the function is none that iterates, so the first statement is left for the
helper for generators, which reports it. -/
theorem iteratesFirst_rejected :
    let recorded := run Options.standard.maxFunctionDepth
      (Engines.standard Options.standard.helpers).recording ((), []) Options.standard.nameSupply #[]
      iteratesFirst
    (∀ place ∈ iteratesFirst.places [], place.node.isFunctionScope = true →
        place.depth < Options.standard.maxFunctionDepth.toNat) ∧
      (∀ function ∈ iteratesFirst.subtree, function.isFunctionLike = true →
        ∀ body ∈ function.body?, ∀ inner ∈ body.ownScope, inner.isAwait = false) ∧
      (∀ statement ∈ iteratesFirst.subtree, statement.hasPlainOperand = true) ∧
      recorded.log = #[Template.undesugaredIteration.diagnose ⟨15, 27⟩ []] ∧
      ∃ call ∈ recorded.engines.2, call.leavesIteration = true :=
  ⟨by decide, by decide, by decide, rfl, List.any_eq_true.1 rfl⟩

end Lowering

end Resumable
