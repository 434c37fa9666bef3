import Resumable.Proofs.Reports

/-!
# Bodies that both yield and await

A body that yields becomes a generator, and every `await` in it is reported.  The reports of a run
tell exactly these (`runStandard_mixed_bodies`): what nested functions, for-in loops and desugaring
do to a body before its helper sees it neither hides an `await` nor shows one twice, and no `yield`
gets into a body that becomes asynchronous.  Only the initializer of a for-in loop that declares its
variable is dropped with the suspensions in it (`Node.dropsSuspension`).
-/

namespace Resumable

namespace Node

/-- The node is an `await`. -/
def isAwait (node : Node) : Bool := node.form == .asyncSuspensionStatement

theorem isAwait_eq (node : Node) : node.isAwait = node.mode?.any (· == .await) := by
  obtain ⟨span, kind⟩ := node
  cases kind <;> rfl

theorem isSuspension_eq (node : Node) : node.isSuspension = node.mode?.any fun _ => true := by
  obtain ⟨span, kind⟩ := node
  cases kind <;> rfl

/-- The `await`s of a body that also yields. -/
def mixedAwaits (body : Node) : List Node :=
  if body.ownScope.any isYield then body.ownScope.filter isAwait else []

/-- The node is a for-in loop with a suspension in the initializer, of which only the name is left
when the loop is lowered. -/
def dropsSuspension (node : Node) : Bool :=
  match node.kind with
  | .forInStatement initializer _ _ =>
    (declaredVariable? initializer).isSome && initializer.ownScope.any isSuspension
  | _ => false

/-! ## What is kept -/

theorem suspensions_eq_nil {node : Node} {loopsLowered inOperand : Bool}
    (calm : ∀ inner ∈ node.ownScope, inner.isSuspension = false) :
    node.suspensions loopsLowered inOperand = [] := by
  refine List.eq_nil_iff_forall_not_mem.2 fun suspension mem => ?_
  cases (forall_mode_iff isSuspension_eq node inOperand).2 calm suspension
    (suspensions_subset node mem)

/-- If lowering the for-in loops of a scope drops no suspension, it keeps them all. -/
theorem suspensions_kept {node : Node} {loopsLowered inOperand : Bool}
    (kept : ∀ loop ∈ node.ownScope, loop.dropsSuspension = false) :
    node.suspensions loopsLowered inOperand = node.suspensions false inOperand := by
  induction node using inductionOn generalizing inOperand with
  | step node ih =>
    cases scope : node.isFunctionScope with
    | true => rw [suspensions_scope scope, suspensions_scope scope]
    | false =>
      obtain ⟨itself, below⟩ := (forall_ownScope_iff scope).1 kept
      have children : (node.children.flatMap fun child =>
          child.suspensions loopsLowered (inOperand || node.isReplaceable)) =
          node.children.flatMap fun child =>
            child.suspensions false (inOperand || node.isReplaceable) :=
        List.flatMap_congr fun child mem => ih child mem (below child mem)
      rw [suspensions_plain scope, suspensions_plain scope, keptChildren_false, ← children]
      congr 1
      by_cases loop : node.form = .forInStatement
      · obtain ⟨span, kind⟩ := node
        cases kind <;> try cases loop
        rename_i initializer expression body
        simp only [keptChildren, Node.kind, Kind.kept, Node.children, Kind.children]
        split
        · rename_i drops
          simp only [dropsInitializer, Bool.and_eq_true] at drops
          have calm : ∀ inner ∈ initializer.ownScope, inner.isSuspension = false := by
            simpa [dropsSuspension, Node.kind, drops.2] using itself
          rw [List.flatMap_cons (x := initializer), suspensions_eq_nil calm, List.nil_append]
        · rfl
      · rw [keptChildren, Kind.kept_eq_children _ loop]
        rfl

end Node

namespace Lowering

/-- The report is about an `await` in a generator. -/
def isAwaitReport (diagnostic : Diagnostic) : Bool :=
  diagnostic.code == Template.awaitInGenerator.code

/-- Of all that is said of a suspension in a generator, this is about an `await`. -/
theorem spans_remaining (desugars : Bool) (suspension : Suspension) :
    ((Suspension.remaining desugars Suspension.objection suspension).filter isAwaitReport).map
        (·.span) = if suspension.mode = .await then [suspension.span] else [] := by
  obtain ⟨inOperand, span, mode⟩ := suspension
  cases mode with
  | await => simp [Suspension.remaining, Suspension.isReplaced, Suspension.objection, Mode.objection,
      isAwaitReport, Template.diagnose]
  | expression => simp [Suspension.remaining, Suspension.isReplaced, Suspension.objection, Mode.objection]
  | statement iterates hasOperand =>
    have other : (Template.undesugaredIteration.code == Template.awaitInGenerator.code) = false := rfl
    unfold Suspension.remaining
    split
    · rfl
    · cases iterates <;>
        simp [Suspension.objection, Mode.objection, isAwaitReport, Template.diagnose, other]

/-- The objections to a body name the awaits in it if it also yields. -/
theorem spans_objections {body : Node} (kept : ∀ loop ∈ body.ownScope, loop.dropsSuspension = false) :
    (body.objections.filter isAwaitReport).map (·.span) = body.mixedAwaits.map (·.span) := by
  rw [Node.objections, Node.mixedAwaits, Facts.hasSuspension_of]
  split
  · rw [Node.suspensions_kept kept, List.filter_flatMap, List.map_flatMap,
      List.flatMap_congr fun suspension _ => spans_remaining _ suspension,
      Node.flatMap_suspensions_ownScope (fun span mode => if mode = .await then [span] else [])]
    induction body.ownScope with
    | nil => rfl
    | cons inner rest ih =>
      rw [List.flatMap_cons, ih, List.filter_cons, Node.isAwait_eq]
      cases inner.mode? with
      | none => rfl
      | some mode => by_cases isAwait : mode = .await <;> simp [isAwait]
  · rfl

/-! ## The whole run -/

theorem Reported.cases {limit : UInt32} {around : List Node} {node : Node} {new : List Diagnostic}
    (reported : Reported limit around node new) {diagnostic : Diagnostic} (mem : diagnostic ∈ new) :
    diagnostic.isRefusal = true ∨ ∃ body : Node, diagnostic ∈ body.objections := by
  cases isRefusal : diagnostic.isRefusal with
  | true => exact .inl rfl
  | false =>
    have inOthers : diagnostic ∈ new.filter fun diagnostic => !diagnostic.isRefusal :=
      List.mem_filter.2 ⟨mem, by simp [isRefusal]⟩
    obtain ⟨function, -, mem⟩ := List.mem_flatMap.1 (reported.others.subset inOthers)
    obtain ⟨body, -, mem⟩ := List.mem_flatMap.1 mem
    exact .inr ⟨body, mem⟩

/-- The `await`s of the body of a function, if it also yields. -/
def mixedAwaits (function : Node) : List Node := function.body?.toList.flatMap Node.mixedAwaits

/-- Mixed bodies are reported exactly. A run never reports a `yield` in an asynchronous body, and the
reports of an `await` in a generator are, apart from their order, one for each `await` of a body that
also yields, of the functions that the run enters. -/
theorem runStandard_mixed_bodies (options : Options) (names : NameSupply) (log : Log) (tree : Node)
    (kept : ∀ loop ∈ tree.subtree, loop.dropsSuspension = false) :
    ∃ new, (runStandard options names log tree).log.toList = log.toList ++ new ∧
      (∀ diagnostic ∈ new, diagnostic.code ≠ Template.yieldInAsync.code) ∧
      ((new.filter isAwaitReport).map (·.span)).Perm
        (((tree.functionsWithin options.maxFunctionDepth.toNat []).flatMap mixedAwaits).map
          (·.span)) := by
  obtain ⟨new, grown, reported⟩ := reported_runStandard options names log tree
  refine ⟨new, grown, fun diagnostic mem => ?_, ?_⟩
  · rcases reported.cases mem with isRefusal | ⟨body, mem⟩
    · rw [Diagnostic.isRefusal, beq_iff_eq] at isRefusal
      rw [isRefusal]
      decide
    · rcases Node.code_objections mem with code | code <;> rw [code] <;> decide
  · -- A refusal is no report of an await.
    have others : new.filter isAwaitReport =
        (new.filter fun diagnostic => !diagnostic.isRefusal).filter isAwaitReport := by
      rw [List.filter_filter]
      refine List.filter_congr fun diagnostic _ => ?_
      cases isAwait : isAwaitReport diagnostic with
      | false => rfl
      | true =>
        rw [isAwaitReport, beq_iff_eq] at isAwait
        rw [Diagnostic.isRefusal, isAwait]
        rfl
    have entered := Node.entered_perm options.maxFunctionDepth.toNat tree []
    have each : ∀ function ∈ tree.functionsWithin options.maxFunctionDepth.toNat [],
        ((reports function).filter isAwaitReport).map (·.span) =
          (mixedAwaits function).map (·.span) := by
      intro function mem
      obtain ⟨body, has⟩ := Node.exists_body (Node.mem_functionsWithin mem).1
      have inTree := Node.ownScope_subset_of_mem_functionsWithin mem has
      simp only [reports, mixedAwaits, has, Option.toList_some, List.flatMap_singleton]
      exact spans_objections fun loop mem => kept loop (inTree mem)
    rw [others]
    refine (((reported.others.trans (entered.flatMap_right _)).filter _).map _).trans (.of_eq ?_)
    rw [List.filter_flatMap, List.map_flatMap, List.map_flatMap]
    exact List.flatMap_congr each

/-- The function `function f() { for (var k in o) { yield k; await p; } }`. -/
def mixedLoop : Node :=
  let statement : Node := ⟨⟨20, 28⟩, .asyncSuspensionStatement none (Build.identifier "p")⟩
  let loop := Build.forInStatement (Build.variableStatement "k" none) (Build.identifier "o")
    (Build.block [Build.suspensionStatement (some (Build.identifier "k")) false, statement])
  Node.synthetic (.functionDeclaration (some "f") false [] (Build.block [loop]))

/-- Its `await` is reported once, although the loop around it is lowered. -/
theorem mixed_body_in_loop :
    (∀ loop ∈ mixedLoop.subtree, loop.dropsSuspension = false) ∧
      ((runStandard .standard Options.standard.nameSupply #[] mixedLoop).log.toList.filter
        isAwaitReport).map (·.span) = [⟨20, 28⟩] := by
  have kept : ∀ loop ∈ mixedLoop.subtree, loop.dropsSuspension = false := by decide
  have spans : ((mixedLoop.functionsWithin 128 []).flatMap mixedAwaits).map (·.span) = [⟨20, 28⟩] :=
    rfl
  obtain ⟨new, grown, -, same⟩ :=
    runStandard_mixed_bodies .standard Options.standard.nameSupply #[] mixedLoop kept
  refine ⟨kept, ?_⟩
  rw [grown]
  exact List.perm_singleton.1 (same.trans (.of_eq spans))

end Lowering

end Resumable
