import Mathlib.Data.List.Forall2
import Mathlib.Data.List.Induction
import Resumable.Proofs.Mirror

/-!
# The calls of a run

What a run asks of its engines, whatever they answer.  The engines can keep a record of their calls
beside their state (`Engines.recording`), and the run with a record is the run itself once the record
is forgotten.  The record splits into one block of calls for every function that the run enters and
that suspends at its own scope, inner functions first and otherwise in source order
(`run_calls`); `Block.IsProper` says what stands in a block.
-/

namespace Resumable

namespace Node

/-- The node is a `yield`, as a statement or inside an expression. -/
def isYield (node : Node) : Bool :=
  match node.kind with
  | .suspensionStatement .. | .yieldExpression .. => true
  | _ => false

/-- The node is a `yield for`. -/
def iterates (node : Node) : Bool :=
  match node.kind with
  | .suspensionStatement isIteration _ => isIteration
  | _ => false

/-- The node is a loop over the keys of an object. -/
def isForIn (node : Node) : Bool := node.form == .forInStatement

/-- The `yield`s of a function's own scope in source order. -/
def yields (body : Node) : List Node := body.ownScope.filter isYield

/-- The statements `yield for e;` of a function's own scope that do not stand inside the operand of
another one, in source order. -/
def iterations (node : Node) : List Node :=
  node.para fun node parts =>
    if node.isFunctionScope then []
    else match parts with
      | .suspensionStatement true (some _) => [node]
      | parts => parts.children.flatMap (·.2)

theorem iterations_scope {node : Node} (scope : node.isFunctionScope = true) :
    node.iterations = [] := by
  rw [iterations, para_eq, if_pos scope]

theorem iterations_suspension {node operand : Node}
    (hk : node.kind = .suspensionStatement true (some operand)) : node.iterations = [node] := by
  obtain ⟨span, kind⟩ := node
  obtain rfl : kind = .suspensionStatement true (some operand) := hk
  rw [iterations, para_eq]
  rfl

theorem iterations_other {node : Node} (plain : node.isFunctionScope = false)
    (other : ∀ operand, node.kind ≠ .suspensionStatement true (some operand)) :
    node.iterations = node.children.flatMap iterations := by
  have parts : ((node.kind.map fun child => (child, child.iterations)).children.flatMap (·.2)) =
      node.children.flatMap iterations := by simp [children, List.flatMap_map]
  rw [← parts, iterations, para_eq, plain]
  simp only [Bool.false_eq_true, if_false]
  split
  · rename_i heq
    cases hk : node.kind <;> rw [hk] at heq <;> simp only [Kind.map, reduceCtorEq] at heq
    rename_i isIteration expression
    cases expression with
    | none => simp at heq
    | some operand =>
      simp only [Option.map_some, Kind.suspensionStatement.injEq] at heq
      exact absurd (by rw [hk, heq.1]) (other operand)
  · rfl

end Node

namespace Facts

/-! ## What the facts of a body say -/

theorem hasForIn_of (body : Node) : (Facts.of body).hasForIn = body.ownScope.any Node.isForIn := by
  have noted (node : Node) (facts : Facts) :
      (note node facts).hasForIn = (facts.hasForIn || node.isForIn) := by
    obtain ⟨span, kind⟩ := node
    cases kind <;> simp [note, Node.kind, Node.isForIn, Node.form, Kind.form]
  rw [of_eq_scan]
  exact flag_scan noted body none

theorem hasSuspension_of (body : Node) :
    (Facts.of body).hasSuspension = body.ownScope.any Node.isYield := by
  have noted (node : Node) (facts : Facts) :
      (note node facts).hasSuspension = (facts.hasSuspension || node.isYield) := by
    unfold note Node.isYield
    split <;> simp_all
  rw [of_eq_scan]
  exact flag_scan noted body none

/-- Whether a body is taken to iterate is decided by the last `yield` of its own scope. -/
theorem isIteration_of (body : Node) :
    (Facts.of body).isIteration = body.yields.getLast?.any Node.iterates := by
  have scanned (nodes : List Node) :
      (nodes.foldl (fun facts n => note n facts) none).isIteration =
        (nodes.filter Node.isYield).getLast?.any Node.iterates := by
    induction nodes using List.reverseRecOn with
    | nil => rfl
    | append_singleton rest node ih =>
      rw [List.foldl_append, List.filter_append]
      have noted (facts : Facts) : (note node facts).isIteration =
          if node.isYield then node.iterates else facts.isIteration := by
        unfold note Node.isYield Node.iterates
        split <;> simp_all
      simp only [List.foldl_cons, List.foldl_nil, noted, ih]
      cases isYield : node.isYield <;> simp [isYield]
  rw [of_eq_scan, scan, scanned]
  rfl

end Facts

/-! ## Engines with a record -/

/-- A call of an engine, with what it got and what it answered. -/
inductive Call where
  | forIn (body : Node) (answer : Option Node)
  | forEach (loop : Node) (answer : Option Node)
  | generator (body : Node) (answer : Option Node)
  | async (body : Node) (answer : Option Node)

section Recording

variable {σ ι : Type}

/-- Records a call with its answer. -/
def recorded (call : Option Node → Call) (action : StateM (σ × ι) (Option Node)) :
    StateM ((σ × List Call) × ι) (Option Node) := do
  let answer ← past action
  modify fun ((own, record), state) => ((own, record ++ [call answer]), state)
  return answer

/-- The engines, with a record of their calls beside their state. -/
def Engines.recording (engines : Engines σ) : Engines (σ × List Call) where
  forIn body := recorded (.forIn body) (engines.forIn body)
  forEach loop := recorded (.forEach loop) (engines.forEach loop)
  generator body := recorded (.generator body) (engines.generator body)
  async body := recorded (.async body) (engines.async body)

theorem mirrors_recorded (call : Option Node → Call) (action : StateM (σ × ι) (Option Node)) :
    Mirrors (Beside fun (s : σ × List Call) t => s.1 = t) (recorded call action) action := by
  rintro ⟨⟨own, record⟩, s⟩ ⟨other, t⟩ ⟨rfl, rfl⟩
  exact ⟨rfl, rfl, rfl⟩

theorem mirror_recording (engines : Engines σ) :
    engines.recording.Mirror (fun s t => s.1 = t) engines where
  forIn _ := mirrors_recorded _ _
  forEach _ := mirrors_recorded _ _
  generator _ := mirrors_recorded _ _
  async _ := mirrors_recorded _ _

end Recording

/-! ## Replacing the iterating suspensions -/

namespace Iteration

/-- Every statement that is replaced becomes a loop that is handed over, and the answer takes its
place; everything else is kept. The calls are in source order. -/
inductive Replaced : Node → List Call → Node → Prop
  | scope {node : Node} (scope : node.isFunctionScope = true) : Replaced node [] node
  | suspension {node operand : Node} (hk : node.kind = .suspensionStatement true (some operand))
      (element : String) (answer : Option Node) :
      Replaced node [.forEach (loop element node.span operand) answer]
        (answer.getD (loop element node.span operand))
  | other {node : Node} (parts : Kind (Node × List Call × Node))
      (plain : node.isFunctionScope = false)
      (other : ∀ operand, node.kind ≠ .suspensionStatement true (some operand))
      (same : parts.map Prod.fst = node.kind)
      (each : ∀ part ∈ parts.children, Replaced part.1 part.2.1 part.2.2) :
      Replaced node (parts.children.flatMap fun part => part.2.1)
        ⟨node.span, parts.map fun part => part.2.2⟩

/-- The call hands over a loop for a statement `yield for e;`. -/
def IsCallFor (statement : Node) (call : Call) : Prop :=
  ∃ operand element answer, statement.kind = .suspensionStatement true (some operand) ∧
    call = .forEach (loop element statement.span operand) answer

/-- There is one call for each iterating suspension, in source order. -/
theorem Replaced.calls {node result : Node} {calls : List Call} (replaced : Replaced node calls result) :
    List.Forall₂ IsCallFor node.iterations calls := by
  induction replaced with
  | scope scope => rw [Node.iterations_scope scope]; exact .nil
  | suspension hk element answer =>
    rw [Node.iterations_suspension hk]
    exact .cons ⟨_, element, answer, hk, rfl⟩ .nil
  | other parts plain other same each ih =>
    rw [Node.iterations_other plain other, Lowering.Course.children_eq same, List.flatMap_map]
    have lists (l : List (Node × List Call × Node))
        (each : ∀ part ∈ l, List.Forall₂ IsCallFor part.1.iterations part.2.1) :
        List.Forall₂ IsCallFor (l.flatMap fun part => part.1.iterations)
          (l.flatMap fun part => part.2.1) := by
      induction l with
      | nil => exact .nil
      | cons part rest ih =>
        exact List.rel_append (each part (by simp)) (ih fun p mem => each p (by simp [mem]))
    exact lists parts.children ih

/-- What desugaring with a record does: the calls in the record tell what became of the body. -/
theorem replaced_desugar {σ : Type} (engines : Engines σ) (body : Node)
    (s : (σ × List Call) × NameSupply) :
    let out := (desugar engines.recording body).run s
    ∃ calls, out.2.1.2 = s.1.2 ++ calls ∧ Replaced body calls (out.1.getD body) := by
  unfold desugar
  induction body using Node.inductionOn generalizing s with
  | step node ih =>
    rw [Node.editOwnScope_eq]
    cases scope : node.isFunctionScope with
    | true => exact ⟨[], (List.append_nil _).symm, .scope scope⟩
    | false =>
      simp only [Bool.false_eq_true, if_false]
      by_cases iterates : ∃ operand, node.kind = .suspensionStatement true (some operand)
      · obtain ⟨operand, hk⟩ := iterates
        obtain ⟨span, kind⟩ := node
        obtain rfl : kind = .suspensionStatement true (some operand) := hk
        exact ⟨_, rfl, .suspension rfl s.2.fresh.1 _⟩
      · have other := fun operand hk => iterates ⟨operand, hk⟩
        rw [step_eq_rebuild _ _ other]
        obtain ⟨-, parts, same, answer, happened, each⟩ := Node.rebuild_traced
          (W := fun (s : (σ × List Call) × NameSupply) calls later =>
            later.1.2 = s.1.2 ++ calls)
          ⟨fun s => (List.append_nil _).symm, fun first second => by
            rw [second, first, List.append_assoc]⟩
          (I := fun _ => True) (R := Replaced) node
          (fun child mem s _ => ⟨trivial, ih child mem s⟩) s trivial
        rw [answer]
        exact ⟨_, happened, .other parts scope other same each⟩

end Iteration

/-! ## Blocks -/

/-- The calls for the body of one function: the function as written, its body once the functions in
it were lowered, the calls, and what the body became. -/
structure Block where
  function : Node
  start : Node
  calls : List Call
  result : Node

/-- The for-in engine is called once if the body has such a loop in its own scope, and else not. -/
def Walks (body start : Node) (calls : List Call) (walked : Node) : Prop :=
  if body.ownScope.any Node.isForIn then
    ∃ answer, calls = [.forIn start answer] ∧ walked = answer.getD start
  else calls = [] ∧ walked = start

/-- If the last `yield` of the body is a `yield for`, the for-each engine is called once for each
such statement with an operand, and else not. -/
def Desugars (body walked : Node) (calls : List Call) (desugared : Node) : Prop :=
  if body.yields.getLast?.any Node.iterates then
    List.Forall₂ Iteration.IsCallFor walked.iterations calls ∧
      Iteration.Replaced walked calls desugared
  else calls = [] ∧ desugared = walked

/-- A body that yields goes to the generator engine, and one that only awaits to the async
engine. -/
def Finishes (body desugared : Node) (call : Call) (result : Node) : Prop :=
  ∃ answer, result = answer.getD desugared ∧
    call = if body.ownScope.any Node.isYield then .generator desugared answer
      else .async desugared answer

/-- The calls for a body are those of its three stages, each of which gets what the stage before it
left. Which calls there are is decided by the body as written. -/
def Block.IsProper (block : Block) : Prop :=
  ∃ body walked desugared walks loops last, block.function.body? = some body ∧
    block.calls = walks ++ loops ++ [last] ∧ Walks body block.start walks walked ∧
    Desugars body walked loops desugared ∧ Finishes body desugared last block.result

/-- The function suspends at its own scope. -/
def Node.bodySuspends (function : Node) : Bool :=
  function.body?.any fun body => body.ownScope.any Node.isSuspension

namespace Lowering

variable {σ : Type}

/-! ## What the stages call -/

section Stages

variable (engines : Engines σ) (plan : Plan) (tree : Node) (s : State (σ × List Call))

theorem calls_forInStage :
    let out := (forInStage engines.recording plan tree).run s
    ∃ calls, out.2.engines.2 = s.engines.2 ++ calls ∧
      if plan.lowerForIn then ∃ answer, calls = [.forIn tree answer] ∧ out.1.getD tree = answer.getD tree
      else calls = [] ∧ out.1.getD tree = tree := by
  obtain ⟨lowerForIn, desugarIteration, target⟩ := plan
  cases lowerForIn with
  | false => exact ⟨[], (List.append_nil _).symm, (if_neg Bool.false_ne_true).mpr ⟨rfl, rfl⟩⟩
  | true => exact ⟨_, rfl, (if_pos rfl).mpr ⟨_, rfl, rfl⟩⟩

theorem calls_iterationStage :
    let out := (iterationStage engines.recording plan tree).run s
    ∃ calls, out.2.engines.2 = s.engines.2 ++ calls ∧
      if plan.desugarIteration then List.Forall₂ Iteration.IsCallFor tree.iterations calls ∧
        Iteration.Replaced tree calls (out.1.getD tree)
      else calls = [] ∧ out.1.getD tree = tree := by
  obtain ⟨lowerForIn, desugarIteration, target⟩ := plan
  cases desugarIteration with
  | false => exact ⟨[], (List.append_nil _).symm, (if_neg Bool.false_ne_true).mpr ⟨rfl, rfl⟩⟩
  | true =>
    obtain ⟨calls, record, replaced⟩ := Iteration.replaced_desugar engines tree (s.engines, s.names)
    exact ⟨calls, record, (if_pos rfl).mpr ⟨replaced.calls, replaced⟩⟩

theorem calls_targetStage :
    let out := (targetStage engines.recording plan tree).run s
    ∃ answer, out.2.engines.2 = s.engines.2 ++
        [if plan.target = .generator then .generator tree answer else .async tree answer] ∧
      out.1.getD tree = answer.getD tree := by
  obtain ⟨lowerForIn, desugarIteration, target⟩ := plan
  cases target with
  | generator => exact ⟨_, rfl, rfl⟩
  | async => exact ⟨_, rfl, rfl⟩

end Stages

/-- The calls for the body of one function, and what became of it. -/
def Calls (function start : Node) (own : List Block) (result : Node) : Prop :=
  if function.bodySuspends then
    ∃ calls, own = [⟨function, start, calls, result⟩] ∧
      Block.IsProper ⟨function, start, calls, result⟩
  else own = [] ∧ result = start

theorem bodySuspends_eq {function body : Node} (has : function.body? = some body) :
    function.bodySuspends = (Facts.of body).suspends := by
  rw [Node.bodySuspends, has, Facts.of_eq_scan, Facts.suspends_scan]
  rfl

theorem calls_carryOut (engines : Engines σ) (function body : Node) (nested : Option Node)
    (has : function.body? = some body) (s : State (σ × List Call)) :
    let out := (carryOut engines.recording body nested (Plan.ofFacts (Facts.of body))).run s
    ∃ own, out.2.engines.2 = s.engines.2 ++ own.flatMap Block.calls ∧
      Calls function (nested.getD body) own (out.1.getD body) := by
  intro out
  unfold Calls
  rw [bodySuspends_eq has]
  cases suspends : (Facts.of body).suspends with
  | false =>
    have outEq : out = (nested, s) := run_carryOut_calm _ body nested suspends s
    rw [outEq]
    exact ⟨[], (List.append_nil _).symm, rfl, rfl⟩
  | true =>
    let plan : Plan := ⟨(Facts.of body).hasForIn, (Facts.of body).isIteration,
      if (Facts.of body).hasSuspension then .generator else .async⟩
    have hasPlan : Plan.ofFacts (Facts.of body) = some plan := ofFacts_suspends suspends
    let walked := (andThen (forInStage engines.recording plan) body nested).run s.lowering
    let desugared := (andThen (iterationStage engines.recording plan) body walked.1).run walked.2
    have outEq : out =
        (andThen (targetStage engines.recording plan) body desugared.1).run desugared.2 := by
      simp only [out, hasPlan]
      rfl
    -- The plan is made of the facts of the body as written.
    have lowers : plan.lowerForIn = body.ownScope.any Node.isForIn := Facts.hasForIn_of body
    have desugars : plan.desugarIteration = body.yields.getLast?.any Node.iterates :=
      Facts.isIteration_of body
    have yields : plan.target = .generator ↔ body.ownScope.any Node.isYield = true := by
      rw [← Facts.hasSuspension_of]
      by_cases yields : (Facts.of body).hasSuspension = true <;> simp [plan, yields]
    -- Every stage gets what the stage before it left.
    obtain ⟨walks, record₁, walking⟩ := calls_forInStage engines plan (nested.getD body) s.lowering
    obtain ⟨loops, record₂, desugaring⟩ :=
      calls_iterationStage engines plan (walked.1.getD body) walked.2
    obtain ⟨answer, record₃, finishing⟩ :=
      calls_targetStage engines plan (desugared.1.getD body) desugared.2
    rw [← or_getD _ nested body, lowers] at walking
    rw [← or_getD _ walked.1 body, desugars] at desugaring
    rw [← or_getD _ desugared.1 body] at finishing
    simp only [yields] at record₃
    rw [outEq]
    let last : Call := if body.ownScope.any Node.isYield then .generator (desugared.1.getD body) answer
      else .async (desugared.1.getD body) answer
    refine ⟨[⟨function, nested.getD body, walks ++ loops ++ [last], _⟩], ?_, (if_pos rfl).mpr
      ⟨_, rfl, body, _, _, walks, loops, last, has, rfl, walking, desugaring, answer, finishing, rfl⟩⟩
    calc
      _ = desugared.2.engines.2 ++ [last] := record₃
      _ = walked.2.engines.2 ++ loops ++ [last] := congrArg (· ++ [last]) record₂
      _ = s.engines.2 ++ walks ++ loops ++ [last] := congrArg (· ++ loops ++ [last]) record₁
      _ = s.engines.2 ++ (walks ++ loops ++ [last]) := by simp only [List.append_assoc]
      _ = _ := congrArg (s.engines.2 ++ ·) (List.append_nil _).symm

/-! ## The calls of a run -/

/-- What a run calls, for every tree and for engines that may answer anything. -/
theorem run_calls (limit : UInt32) (engines : Engines σ) (own : σ) (names : NameSupply) (log : Log)
    (tree : Node) :
    let outcome := run limit engines.recording (own, []) names log tree
    outcome.mapEngines Prod.fst = run limit engines own names log tree ∧
      ∃ blocks : List Block, outcome.engines.2 = blocks.flatMap Block.calls ∧
        blocks.map Block.function = (tree.entered limit.toNat 0).filter Node.bodySuspends ∧
        (∀ block ∈ blocks, block.IsProper) ∧
        Course Calls limit.toNat 0 tree blocks (outcome.tree.getD tree) := by
  intro outcome
  obtain ⟨-, blocks, record, course⟩ := course_lowerNode limit engines.recording
    (W := fun (s : State (σ × List Call)) (blocks : List Block) later =>
      later.engines.2 = s.engines.2 ++ blocks.flatMap Block.calls)
    ⟨fun s => (List.append_nil _).symm, fun first second => by
      rw [second, first, List.flatMap_append, List.append_assoc]⟩
    (fun s later same _ => by rw [same]; exact (List.append_nil _).symm) (Q := Calls)
    (fun function body nested s _ has _ => calls_carryOut engines function body nested has s) tree
    ⟨(own, []), names.reserveAll tree.names.toList, log, 0, .zero⟩
  refine ⟨Outcome.mapEngines_of (mirrors_lowerNode (mirror_recording engines) limit tree)
    ⟨rfl, rfl, rfl, rfl, rfl⟩, blocks, record, ?_, fun block mem => ?_, course⟩
  · have functions := course.flatMap_trace (fun block => [block.function])
      (fun function => if function.bodySuspends then [function] else [])
      (fun function start own result calls => by
        unfold Calls at calls
        split at calls
        · obtain ⟨calls, rfl, -⟩ := calls
          simp [*]
        · obtain ⟨rfl, -⟩ := calls
          simp [*])
    rw [List.map_eq_flatMap, functions]
    induction tree.entered limit.toNat 0 with
    | nil => rfl
    | cons function rest ih =>
      rw [List.flatMap_cons, ih, List.filter_cons]
      split <;> rfl
  · obtain ⟨function, start, own, result, calls, mem, -⟩ := course.mem_trace mem
    unfold Calls at calls
    split at calls
    · obtain ⟨calls, rfl, proper⟩ := calls
      exact List.mem_singleton.1 mem ▸ proper
    · obtain ⟨rfl, -⟩ := calls
      cases mem

end Lowering

end Resumable
