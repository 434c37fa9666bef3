import Resumable.Proofs.GeneratorBodies
import Resumable.Proofs.Lodgings

/-!
# For-in loops that are never interrupted

When a body is handed to a helper, the only for-in loops in its scope are snapshot loops, which take
the keys of an object down without a suspension (`ForIn.Names.collectKeys`).  Lowering the loops of a
scope leaves no others (`ForIn.forIns_lowerAt`), replacing its iterating suspensions keeps them
(`Reworked.forIns_eq`), and so every engine that gets a body gets one without a loop that a suspension
could interrupt (`runStandard_hands_over_snapshots`).
-/

namespace Resumable

open Build

namespace Node

/-- The for-in loops of a function's own scope in source order. -/
def forIns (node : Node) : List Node := node.ownScope.filter isForIn

variable {node : Node}

theorem forIns_scope (scope : node.isFunctionScope = true) : node.forIns = [] := by
  rw [forIns, ownScope_eq, if_pos scope]
  rfl

theorem forIns_plain (plain : node.isFunctionScope = false) :
    node.forIns = (if node.isForIn then [node] else []) ++ node.children.flatMap forIns := by
  rw [forIns, ownScope_eq, plain]
  simp only [Bool.false_eq_true, if_false, List.filter_cons, List.filter_flatMap]
  split <;> rfl

theorem forIns_mk (span : Span) (kind : Kind Node) :
    forIns ⟨span, kind⟩ =
      if kind.form.isFunctionScope then []
      else (if kind.form = .forInStatement then [⟨span, kind⟩] else []) ++
        kind.children.flatMap forIns := by
  split
  · exact forIns_scope ‹_›
  · rw [forIns_plain (Bool.not_eq_true _ ▸ ‹_›)]
    simp [isForIn, form, children, Node.kind]

/-- A loop of a child that stands in the scope of a node is a loop of that scope. -/
theorem forIns_child_subset {child : Node} (plain : node.isFunctionScope = false)
    (isChild : child ∈ node.children) : child.forIns ⊆ node.forIns := by
  rw [forIns_plain plain]
  exact fun loop mem => List.mem_append_right _ (List.mem_flatMap.2 ⟨child, isChild, mem⟩)

/-- A body without a for-in loop is not sent through the step that lowers them. -/
theorem forIns_eq_nil (free : (Facts.of node).hasForIn = false) : node.forIns = [] := by
  rw [Facts.hasForIn_of] at free
  simpa [forIns, List.filter_eq_nil_iff] using free

end Node

/-! ## Lowering the loops of a scope -/

namespace ForIn

theorem forIns_statements (body : Node) :
    body.statements.flatMap Node.forIns = body.forIns := by
  obtain ⟨span, kind⟩ := body
  cases kind
  case block | program =>
    simp [Node.statements, Node.kind, Node.forIns_mk, Kind.form, Form.isFunctionScope,
      Form.isFunctionLike, Kind.children]
  all_goals exact List.append_nil _

/-- What stands for a loop has the loop that takes the keys down, and beside it the loops that were in
the parts of the one. -/
theorem forIns_loop (names : Names) (label : Option String) (span : Span)
    (initializer expression body : Node) :
    (loop names label span initializer expression body).forIns =
      expression.forIns ++ names.collectKeys ::
        ((if (declaredVariable? initializer).isSome then [] else initializer.forIns) ++ body.forIns) := by
  have currentKey : names.currentKey.forIns = [] := by rfl
  have collectKeys : names.collectKeys.forIns = [names.collectKeys] := by rfl
  have bound : (bindVariable initializer names.currentKey).forIns =
      if (declaredVariable? initializer).isSome then [] else initializer.forIns := by
    unfold bindVariable
    cases declaredVariable? initializer <;>
      simp [currentKey, variableStatement, variableDeclaration, assignmentStatement,
        expressionStatement, assignment, binary, Node.synthetic, Node.forIns_mk, Kind.form,
        Form.isFunctionScope, Form.isFunctionLike, Kind.children]
  have walk : (names.walkKeys initializer body.statements).forIns =
      (bindVariable initializer names.currentKey).forIns ++ body.forIns := by
    rw [← forIns_statements body]
    simp [Names.walkKeys, Names.skipDeleted, currentKey, forStatement, variableStatement,
      variableDeclaration, number, binary, identifier, Build.property, postfixIncrement, block,
      ifStatement, Build.not, unary, continueStatement, Node.synthetic, Node.forIns_mk,
      Kind.form, Form.isFunctionScope, Form.isFunctionLike, Kind.children]
  rw [← bound, ← walk]
  cases label <;>
    simp [loop, collectKeys, labeledStatement, array, variableStatement, variableDeclaration,
      Node.synthetic, Node.forIns_mk, Kind.form, Form.isFunctionScope, Form.isFunctionLike,
      Kind.children]

/-- Once the for-in loops of a scope are lowered, those that stand in it are the ones that take the
keys of a lowered loop down, with names that were taken for it. -/
theorem forIns_lowerAt (node : Node) (label : Option String) (s : NameSupply) :
    let out := (lowerAt node label).run s
    ∃ lowered : List Names, s.Gives (lowered.flatMap Names.toList) out.2 ∧
      (out.1.getD node).forIns ⊆ lowered.map Names.collectKeys := by
  induction node using Node.inductionOn generalizing label s with
  | step node ih =>
    cases node using cases_node with
    | scope node scope =>
      rw [lowerAt_scope scope]
      refine ⟨[], NameSupply.isTrace_gives.nil s, ?_⟩
      exact (Node.forIns_scope scope).symm ▸ List.nil_subset _
    | loop span initializer expression body =>
      simp only [Node.children, Node.kind, Kind.children, List.mem_cons, List.not_mem_nil, or_false,
        forall_eq_or_imp, forall_eq] at ih
      obtain ⟨ofInitializer, ofExpression, ofBody⟩ := ih
      obtain ⟨lowered₁, gives₁, inInitializer⟩ := ofInitializer none s
      obtain ⟨lowered₂, gives₂, inExpression⟩ := ofExpression none _
      obtain ⟨lowered₃, gives₃, inBody⟩ := ofBody none _
      have append {s t u : NameSupply} {a b : List String} (first : s.Gives a t) (rest : t.Gives b u) :=
        NameSupply.isTrace_gives.append first rest
      let third := (lowerAt body none).run
        ((lowerAt expression none).run ((lowerAt initializer none).run s).2).2
      have gives := append gives₁ (append gives₂ (append gives₃ (gives_take third.2)))
      rw [run_lowerAt_forIn]
      refine ⟨lowered₁ ++ (lowered₂ ++ (lowered₃ ++ [(Names.take.run third.2).1])), ?_,
        fun loop mem => ?_⟩
      · simp only [List.flatMap_append, List.flatMap_singleton]
        exact gives
      · rw [Option.getD_some, forIns_loop] at mem
        simp only [List.map_append, List.map_singleton, List.mem_append, List.mem_cons,
          List.not_mem_nil, or_false] at mem ⊢
        rcases mem with mem | rfl | mem | mem
        · exact .inr (.inl (inExpression mem))
        · exact .inr (.inr (.inr rfl))
        · split at mem
          · cases mem
          · exact .inl (inInitializer mem)
        · exact .inr (.inr (.inl (inBody mem)))
    | labeled span inner statement isLoop =>
      obtain ⟨span', kind⟩ := statement
      cases kind <;> try cases isLoop
      rename_i initializer expression body
      let statement : Node := ⟨span', .forInStatement initializer expression body⟩
      obtain ⟨lowered, gives, inLoop⟩ := ih statement (.head _) (some inner) s
      rw [lowerAt_labeled rfl]
      rw [run_lowerAt_forIn] at gives inLoop ⊢
      exact ⟨lowered, gives, inLoop⟩
    | plain node plain =>
      obtain ⟨-, parts, same, answer, gives, each⟩ := Node.rebuild_traced
        (W := fun (s : NameSupply) lowered later => s.Gives (lowered.flatMap Names.toList) later)
        ⟨fun s => NameSupply.isTrace_gives.nil s, fun first rest => by
          rw [List.flatMap_append]
          exact NameSupply.isTrace_gives.append first rest⟩
        (I := fun _ => True) (f := fun child => lowerAt child none)
        (R := fun _ lowered result => result.forIns ⊆ lowered.map Names.collectKeys) node
        (fun child mem s _ => ⟨trivial, ih child mem none s⟩) s trivial
      rw [lowerAt_plain plain]
      refine ⟨_, gives, fun loop mem => ?_⟩
      have form : (parts.map fun part => part.2.2).form = node.form := by
        rw [Kind.form_map, ← Kind.form_map Prod.fst, same]
        rfl
      have scope : node.form.isFunctionScope = false := plain.1
      rw [answer, Node.forIns_mk, form, if_neg (by simp [scope]), if_neg plain.2.1, List.nil_append,
        Kind.children_map, List.flatMap_map] at mem
      obtain ⟨part, isPart, mem⟩ := List.mem_flatMap.1 mem
      obtain ⟨names, isLowered, rfl⟩ := List.mem_map.1 (each part isPart mem)
      exact List.mem_map_of_mem (List.mem_flatMap.2 ⟨part, isPart, isLowered⟩)

end ForIn

/-- The loop takes the keys of an object down, with names that were given. -/
def Node.IsSnapshot (given : List String) (loop : Node) : Prop :=
  ∃ names : ForIn.Names, names.toList ⊆ given ∧ loop = names.collectKeys

namespace Node.IsSnapshot

variable {given given' : List String} {loop : Node}

theorem mono (snapshot : loop.IsSnapshot given) (subset : given ⊆ given') : loop.IsSnapshot given' := by
  obtain ⟨names, isGiven, same⟩ := snapshot
  exact ⟨names, List.Subset.trans isGiven subset, same⟩

/-- The loop that takes the keys down has no suspension. -/
theorem calm (snapshot : loop.IsSnapshot given) :
    ∀ inner ∈ loop.ownScope, inner.isSuspension = false := by
  obtain ⟨names, -, rfl⟩ := snapshot
  have all : names.collectKeys.ownScope.all (fun inner => !inner.isSuspension) = true := rfl
  simpa using all

end Node.IsSnapshot

/-! ## Replacing the iterating suspensions -/

theorem ForEach.forIns_loop (getIterator iterator step element : String) (span : Span)
    (operand : Node) :
    (loop getIterator iterator step span (variableStatement element none) operand
      (block [suspensionStatement (some (identifier element)) false])).forIns = operand.forIns := by
  simp [loop, next, methodCall, call, property, identifier, variableStatement, variableDeclaration,
    forStatement, Build.not, unary, assignment, binary, block, bindVariable, declaredVariable?,
    Node.statements, suspensionStatement, Node.synthetic, Node.forIns_mk, Kind.form,
    Form.isFunctionScope, Form.isFunctionLike, Kind.children, Node.kind]

/-- The edits that come after the lowering of for-in loops keep all loops in which nothing suspends,
and they bring none in. -/
theorem Reworked.forIns_eq {getIterator : String} {node result : Node} {given : List Allotment}
    (reworked : Reworked getIterator node given result)
    (calm : ∀ loop ∈ node.forIns, ∀ inner ∈ loop.ownScope, inner.isSuspension = false) :
    result.forIns = node.forIns := by
  induction reworked with
  | kept node => rfl
  | loop span operand element iterator step =>
    rw [ForEach.forIns_loop, Node.forIns_mk]
    simp [Kind.form, Form.isFunctionScope, Form.isFunctionLike, Kind.children]
  | await span binding below ih =>
    have same := ih fun loop mem => calm loop (Node.forIns_child_subset rfl (.head _) mem)
    cases binding <;>
      simp [Delegation.resume, yieldExpression, assignment, binary, identifier, Node.synthetic,
        Node.forIns_mk, Kind.form, Form.isFunctionScope, Form.isFunctionLike, Kind.children, same]
  | @rebuilt node parts plain same each ih =>
    have isChild {part : Node × List Allotment × Node} (mem : part ∈ parts.children) :
        part.1 ∈ node.children := by
      rw [Lowering.Course.children_eq same]
      exact List.mem_map_of_mem mem
    cases isLoop : node.isForIn with
    | true =>
      -- Nothing suspends in the loop, so nothing in it is replaced.
      have itself : node ∈ node.forIns := by rw [Node.forIns_plain plain, isLoop]; exact .head _
      rw [(Reworked.rebuilt parts plain same each).eq_of_calm (calm node itself)]
    | false =>
      have form : (parts.map fun part => part.2.2).form = node.form := form_rebuilt same
      have scope : node.form.isFunctionScope = false := plain
      have notLoop : node.form ≠ .forInStatement := by simpa [Node.isForIn] using isLoop
      rw [Node.forIns_mk, form, if_neg (by simp [scope]), if_neg notLoop, Node.forIns_plain plain,
        isLoop, Lowering.Course.children_eq same, Kind.children_map, List.flatMap_map,
        List.flatMap_map]
      exact congrArg _ (List.flatMap_congr fun part mem =>
        ih part mem fun loop inPart => calm loop (Node.forIns_child_subset plain (isChild mem) inPart))

namespace Lowering

/-! ## One body -/

/-- The for-in loops that the last stage finds in the scope of a body take the keys of a lowered loop
down. -/
theorem isSnapshot_ready (helpers : Helpers) (plan : Plan) (start : Node) (names : NameSupply)
    (lowers : plan.lowerForIn = false → start.forIns = []) :
    let walked := walked plan start names
    let ready := desugared helpers plan walked.1 walked.2
    ∃ given, names.Gives given ready.2 ∧ ∀ loop ∈ ready.1.forIns, loop.IsSnapshot given := by
  intro walked ready
  have walks : ∃ given, names.Gives given walked.2 ∧ ∀ loop ∈ walked.1.forIns, loop.IsSnapshot given := by
    cases lowersLoops : plan.lowerForIn with
    | false =>
      have walkedEq : walked = (start, names) := by
        simp only [walked, Lowering.walked, lowersLoops, Bool.false_eq_true, if_false]
      rw [walkedEq, lowers lowersLoops]
      exact ⟨[], NameSupply.isTrace_gives.nil names, List.forall_mem_nil _⟩
    | true =>
      obtain ⟨lowered, gives, inScope⟩ := ForIn.forIns_lowerAt start none names
      have walkedEq : walked = (((ForIn.lowerAt start none).run names).1.getD start,
          ((ForIn.lowerAt start none).run names).2) := by
        simp only [walked, Lowering.walked, lowersLoops, if_true]
        rfl
      rw [walkedEq]
      refine ⟨_, gives, fun loop mem => ?_⟩
      obtain ⟨own, isLowered, rfl⟩ := List.mem_map.1 (inScope mem)
      exact ⟨own, fun name isName => List.mem_flatMap.2 ⟨own, isLowered, isName⟩, rfl⟩
  obtain ⟨given, gives, snapshots⟩ := walks
  cases desugars : plan.desugarIteration with
  | false =>
    have readyEq : ready = walked := by
      simp only [ready, desugared, desugars, Bool.false_eq_true, if_false]
    rw [readyEq]
    exact ⟨given, gives, snapshots⟩
  | true =>
    obtain ⟨allotments, allots, -, reworked⟩ :=
      Iteration.reworked_desugar helpers walked.1 ((), walked.2)
    have readyEq : ready =
        (((Iteration.desugar (.standard helpers) walked.1).run ((), walked.2)).1.getD walked.1,
          ((Iteration.desugar (.standard helpers) walked.1).run ((), walked.2)).2.2) := by
      simp only [ready, desugared, desugars, if_true]
    rw [readyEq]
    refine ⟨_, NameSupply.isTrace_gives.append gives allots, fun loop mem => ?_⟩
    rw [reworked.forIns_eq fun loop mem => (snapshots loop mem).calm] at mem
    exact (snapshots loop mem).mono (List.subset_append_left _ _)

/-- What happens for the body of one function: the names that are taken, and the calls. -/
structure Handover where
  given : List String
  calls : List Call

/-- The bodies that are handed over have snapshot loops only. -/
def Handover.IsSafe (handover : Handover) : Prop :=
  ∀ call ∈ handover.calls, ∀ body ∈ call.handedOver?, ∀ loop ∈ body.forIns,
    loop.IsSnapshot handover.given

theorem isSafe_carryOut (helpers : Helpers) (body : Node) (nested : Option Node)
    (s : State (Unit × List Call)) (facts : Facts.of (nested.getD body) = Facts.of body) :
    let out := (carryOut (Engines.standard helpers).recording body nested
      (Plan.ofFacts (Facts.of body))).run s
    ∃ own : Handover, s.names.Gives own.given out.2.names ∧
      out.2.engines.2 = s.engines.2 ++ own.calls ∧ own.IsSafe := by
  intro out
  cases hasPlan : Plan.ofFacts (Facts.of body) with
  | none =>
    have outEq : out = (nested, s) := by
      simp only [out, hasPlan]
      rfl
    rw [outEq]
    exact ⟨⟨[], []⟩, NameSupply.isTrace_gives.nil _, (List.append_nil _).symm, List.forall_mem_nil _⟩
  | some plan =>
    have lowers (free : plan.lowerForIn = false) : (nested.getD body).forIns = [] := by
      refine Node.forIns_eq_nil (facts ▸ ?_)
      unfold Plan.ofFacts at hasPlan
      split at hasPlan <;> cases hasPlan
      exact free
    have outEq : out = (carryOut (Engines.standard helpers).recording body nested (some plan)).run s := by
      simp only [out, hasPlan]
    obtain ⟨names, before, answer, record, quiet⟩ := handsOver_carryOut helpers plan body nested s
    obtain ⟨given, gives, snapshots⟩ := isSnapshot_ready helpers plan (nested.getD body) s.names lowers
    rw [outEq]
    refine ⟨⟨given, _⟩, names ▸ gives, record, fun call mem handed isHanded => ?_⟩
    rcases List.mem_append.1 mem with isBefore | isLast
    · rw [quiet call isBefore] at isHanded
      cases isHanded
    · rw [List.mem_singleton.1 isLast] at isHanded
      split at isHanded <;> cases isHanded <;> exact snapshots

/-! ## The whole run -/

/-- No for-in loop can be interrupted once an engine sees the body. Every for-in loop in the scope of
a body that a run hands to a helper takes the keys of an object down, with names that the run made
up, and nothing in it suspends. -/
theorem runStandard_hands_over_snapshots (options : Options) (names : NameSupply) (log : Log)
    (tree : Node) :
    let recorded := run options.maxFunctionDepth (Engines.standard options.helpers).recording
      ((), []) names log tree
    recorded.mapEngines Prod.fst = runStandard options names log tree ∧
      ∃ given, (names.reserveAll tree.names.toList).Gives given recorded.names ∧
        ∀ call ∈ recorded.engines.2, ∀ body ∈ call.handedOver?, ∀ loop ∈ body.ownScope,
          loop.form = .forInStatement →
            loop.IsSnapshot given ∧ ∀ inner ∈ loop.ownScope, inner.isSuspension = false := by
  intro recorded
  refine ⟨Outcome.mapEngines_of (mirrors_lowerNode (mirror_recording _) _ tree)
    ⟨rfl, rfl, rfl, rfl, rfl⟩, ?_⟩
  let start : State (Unit × List Call) := ⟨((), []), names.reserveAll tree.names.toList, log, 0, .zero⟩
  obtain ⟨-, trace, ⟨gives, record⟩, course⟩ := course_lowerNode options.maxFunctionDepth
    (Engines.standard options.helpers).recording
    (W := fun (s : State (Unit × List Call)) (trace : List Handover) later =>
      s.names.Gives (trace.flatMap Handover.given) later.names ∧
        later.engines.2 = s.engines.2 ++ trace.flatMap Handover.calls)
    ⟨fun s => ⟨NameSupply.isTrace_gives.nil _, (List.append_nil _).symm⟩, fun first second => by
      simp only [List.flatMap_append]
      exact ⟨NameSupply.isTrace_gives.append first.1 second.1, by
        rw [second.2, first.2, List.append_assoc]⟩⟩
    (fun s later engines same => by
      rw [engines, same]
      exact ⟨NameSupply.isTrace_gives.nil _, (List.append_nil _).symm⟩)
    (Q := fun _ _ own _ => ∀ handover ∈ own, handover.IsSafe)
    (fun function body nested s _ has lowered => by
      obtain ⟨before, loweredEq⟩ := lowered
      have nestedEq : nested = ((lowerNode options.maxFunctionDepth _ body).run before).1 :=
        (congrArg Prod.fst loweredEq).symm
      obtain ⟨own, gives, record, safe⟩ := isSafe_carryOut options.helpers body nested s
        (nestedEq ▸ facts_lowerNode options.maxFunctionDepth _ body before)
      refine ⟨[own], ⟨?_, ?_⟩, List.forall_mem_singleton.2 safe⟩
      · rw [List.flatMap_singleton]
        exact gives
      · rw [List.flatMap_singleton]
        exact record) tree start
  refine ⟨_, gives, fun call mem body isBody loop inScope isLoop => ?_⟩
  have isCall : call ∈ trace.flatMap Handover.calls := by
    have whole : recorded.engines.2 = trace.flatMap Handover.calls := record
    exact whole ▸ mem
  obtain ⟨handover, isHandover, isCall⟩ := List.mem_flatMap.1 isCall
  obtain ⟨_, _, own, _, safe, isOwn, -⟩ := course.mem_trace isHandover
  have inBody : loop ∈ body.forIns := List.mem_filter.2 ⟨inScope, by simp [Node.isForIn, isLoop]⟩
  have snapshot := safe handover isOwn call isCall body isBody loop inBody
  refine ⟨snapshot.mono fun name isName => ?_, snapshot.calm⟩
  exact List.mem_flatMap.2 ⟨handover, isHandover, isName⟩

end Lowering

end Resumable
