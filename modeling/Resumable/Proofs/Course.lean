import Mathlib.Data.List.Basic
import Resumable.Proofs.Survivors

/-!
# The course of a run

`Course` tells a run of the lowering by what it leaves of a tree and what happens on the way: a
function that stands too deep is kept, any other function declaration or accessor is lowered once
the functions in its body are, and everything else is put together from its children.  It leaves open
what is done with one body, so `course_lowerNode` is the induction over a run for every statement
about it: what carrying out the plan of a body does (`carryOut`) is all that is left to show.  The
functions whose bodies a run enters are given by the tree and the limit alone (`Node.entered`).
-/

namespace Resumable

namespace Node

/-! ## The functions that a run enters -/

/-- The function declarations and accessors that the lowering enters when it starts at a depth,
inner ones first and otherwise in source order. -/
def entered (limit : Nat) (node : Node) : Nat → List Node :=
  node.para fun node parts depth =>
    match parts with
    | .functionDeclaration _ _ _ body | .getAccessorDeclaration _ _ body
    | .setAccessorDeclaration _ _ _ body =>
      if limit ≤ depth then [] else body.2 (depth + 1) ++ [node]
    | .functionExpression _ parameters body _ =>
      if limit ≤ depth then [] else (parameters ++ [body]).flatMap fun part => part.2 (depth + 1)
    | parts => parts.children.flatMap fun part => part.2 depth

variable {limit depth : Nat} {node : Node}

theorem entered_function {body : Node} (isFunction : node.isFunctionLike = true)
    (has : node.body? = some body) :
    node.entered limit depth =
      if limit ≤ depth then [] else body.entered limit (depth + 1) ++ [node] := by
  rw [entered, para_eq]
  obtain ⟨span, kind⟩ := node
  cases kind
  case functionDeclaration | getAccessorDeclaration | setAccessorDeclaration =>
    cases has
    rfl
  all_goals cases isFunction

theorem entered_expression (isExpression : node.form = .functionExpression) :
    node.entered limit depth =
      if limit ≤ depth then []
      else node.children.flatMap fun child => child.entered limit (depth + 1) := by
  rw [entered, para_eq]
  obtain ⟨span, kind⟩ := node
  cases kind <;> try cases isExpression
  simp [Node.kind, Kind.map, children, Kind.children, List.flatMap_map, entered]

theorem entered_plain (plain : node.isFunctionScope = false) :
    node.entered limit depth = node.children.flatMap fun child => child.entered limit depth := by
  have parts : ((node.kind.map fun child => (child, child.entered limit)).children.flatMap
      fun part => part.2 depth) = node.children.flatMap fun child => child.entered limit depth := by
    simp [children, List.flatMap_map]
  rw [← parts, entered, para_eq]
  obtain ⟨span, kind⟩ := node
  cases kind
  case functionDeclaration | functionExpression | getAccessorDeclaration | setAccessorDeclaration =>
    cases plain
  all_goals rfl

theorem entered_deep (scope : node.isFunctionScope = true) (deep : limit ≤ depth) :
    node.entered limit depth = [] := by
  cases node using cases_scope with
  | function node body isFunction has mem => rw [entered_function isFunction has, if_pos deep]
  | expression node isExpression => rw [entered_expression isExpression, if_pos deep]
  | plain node plain => rw [plain] at scope; cases scope

end Node

namespace Lowering

variable {σ τ : Type}

/-! ## Courses -/

/-- What became of a tree at some depth, and what happened on the way. `Q function inner own result`
says of an entered function that its body, once the functions inside it were lowered to give
`inner`, was lowered to `result`, and that `own` happened then. -/
inductive Course (Q : Node → Node → List τ → Node → Prop) (limit : Nat) :
    Nat → Node → List τ → Node → Prop
  | refused {depth : Nat} {node : Node} (scope : node.isFunctionScope = true)
      (deep : limit ≤ depth) : Course Q limit depth node [] node
  | function {depth : Nat} {node body inner result : Node} {trace own : List τ}
      (isFunction : node.isFunctionLike = true) (has : node.body? = some body)
      (room : depth < limit) (nested : Course Q limit (depth + 1) body trace inner)
      (lowered : Q node inner own result) :
      Course Q limit depth node (trace ++ own) (node.withBody result)
  | expression {depth : Nat} {node : Node} (parts : Kind (Node × List τ × Node))
      (isExpression : node.form = .functionExpression) (room : depth < limit)
      (same : parts.map Prod.fst = node.kind)
      (each : ∀ part ∈ parts.children, Course Q limit (depth + 1) part.1 part.2.1 part.2.2) :
      Course Q limit depth node (parts.children.flatMap fun part => part.2.1)
        ⟨node.span, parts.map fun part => part.2.2⟩
  | plain {depth : Nat} {node : Node} (parts : Kind (Node × List τ × Node))
      (plain : node.isFunctionScope = false) (same : parts.map Prod.fst = node.kind)
      (each : ∀ part ∈ parts.children, Course Q limit depth part.1 part.2.1 part.2.2) :
      Course Q limit depth node (parts.children.flatMap fun part => part.2.1)
        ⟨node.span, parts.map fun part => part.2.2⟩

namespace Course

variable {Q : Node → Node → List τ → Node → Prop} {limit depth : Nat} {node result : Node}
  {trace : List τ}

theorem children_eq {parts : Kind (Node × List τ × Node)} (same : parts.map Prod.fst = node.kind) :
    node.children = parts.children.map Prod.fst := by
  rw [Node.children, ← same, Kind.children_map]

/-- If what happens for one function is given by the function, then what happens on the way is given
by the functions that are entered. -/
theorem flatMap_trace {β : Type} (course : Course Q limit depth node trace result)
    (see : τ → List β) (expected : Node → List β)
    (each : ∀ function inner own result, Q function inner own result →
      own.flatMap see = expected function) :
    trace.flatMap see = (node.entered limit depth).flatMap expected := by
  induction course with
  | refused scope deep => rw [Node.entered_deep scope deep]; rfl
  | function isFunction has room nested lowered ih =>
    rw [Node.entered_function isFunction has, if_neg (Nat.not_le.2 room), List.flatMap_append,
      List.flatMap_append, ih, each _ _ _ _ lowered, List.flatMap_singleton]
  | expression parts isExpression room same below ih =>
    rw [Node.entered_expression isExpression, if_neg (Nat.not_le.2 room), children_eq same,
      List.flatMap_assoc, List.flatMap_assoc, List.flatMap_map]
    exact List.flatMap_congr fun part mem => ih part mem
  | plain parts plain same below ih =>
    rw [Node.entered_plain plain, children_eq same, List.flatMap_assoc, List.flatMap_assoc,
      List.flatMap_map]
    exact List.flatMap_congr fun part mem => ih part mem

/-- Whatever happens on the way happens for a function that is entered. -/
theorem mem_trace (course : Course Q limit depth node trace result) {item : τ} (mem : item ∈ trace) :
    ∃ function inner own result, Q function inner own result ∧ item ∈ own ∧
      function ∈ node.entered limit depth := by
  induction course with
  | refused => cases mem
  | function isFunction has room nested lowered ih =>
    rw [Node.entered_function isFunction has, if_neg (Nat.not_le.2 room)]
    rcases List.mem_append.1 mem with before | own
    · obtain ⟨function, inner, own, result, lowered, mem, entered⟩ := ih before
      exact ⟨function, inner, own, result, lowered, mem, List.mem_append_left _ entered⟩
    · exact ⟨_, _, _, _, lowered, own, by simp⟩
  | expression parts isExpression room same each ih =>
    obtain ⟨part, isPart, mem⟩ := List.mem_flatMap.1 mem
    obtain ⟨function, inner, own, result, lowered, mem, entered⟩ := ih part isPart mem
    rw [Node.entered_expression isExpression, if_neg (Nat.not_le.2 room), children_eq same,
      List.flatMap_map]
    exact ⟨function, inner, own, result, lowered, mem, List.mem_flatMap.2 ⟨part, isPart, entered⟩⟩
  | plain parts plain same each ih =>
    obtain ⟨part, isPart, mem⟩ := List.mem_flatMap.1 mem
    obtain ⟨function, inner, own, result, lowered, mem, entered⟩ := ih part isPart mem
    rw [Node.entered_plain plain, children_eq same, List.flatMap_map]
    exact ⟨function, inner, own, result, lowered, mem, List.mem_flatMap.2 ⟨part, isPart, entered⟩⟩

/-- What is known of a function that is entered, and of what happens for it, may be used to say
something else of it. -/
theorem imp {Q' : Node → Node → List τ → Node → Prop}
    (course : Course Q limit depth node trace result)
    (change : ∀ function inner own result, function ∈ node.entered limit depth → own ⊆ trace →
      Q function inner own result → Q' function inner own result) :
    Course Q' limit depth node trace result := by
  induction course with
  | refused scope deep => exact .refused scope deep
  | function isFunction has room nested lowered ih =>
    rw [Node.entered_function isFunction has, if_neg (Nat.not_le.2 room)] at change
    refine .function isFunction has room (ih fun f inner own result entered inside => ?_)
      (change _ _ _ _ (by simp) (List.subset_append_right _ _) lowered)
    exact change f inner own result (List.mem_append_left _ entered)
      (List.subset_append_of_subset_left _ inside)
  | expression parts isExpression room same each ih =>
    rw [Node.entered_expression isExpression, if_neg (Nat.not_le.2 room), children_eq same,
      List.flatMap_map] at change
    refine .expression parts isExpression room same fun part mem =>
      ih part mem fun f inner own result entered inside => ?_
    refine change f inner own result (List.mem_flatMap.2 ⟨part, mem, entered⟩)
      fun item isOwn => List.mem_flatMap.2 ⟨part, mem, inside isOwn⟩
  | plain parts plain same each ih =>
    rw [Node.entered_plain plain, children_eq same, List.flatMap_map] at change
    refine .plain parts plain same fun part mem =>
      ih part mem fun f inner own result entered inside => ?_
    refine change f inner own result (List.mem_flatMap.2 ⟨part, mem, entered⟩)
      fun item isOwn => List.mem_flatMap.2 ⟨part, mem, inside isOwn⟩

end Course

/-! ## One body -/

/-- Carries out a plan for a body, after the functions inside it were lowered. -/
def carryOut (engines : Engines σ) (body : Node) (nested : Option Node) :
    Option Plan → Run σ (Option Node)
  | none => return nested
  | some plan => do
    count fun stats => { stats with bodiesLowered := stats.bodiesLowered + 1 }
    let walked ← andThen (forInStage engines plan) body nested
    let desugared ← andThen (iterationStage engines plan) body walked
    andThen (targetStage engines plan) body desugared

/-- The stages before the last one: for-in loops and iterating suspensions. -/
def prepare (engines : Engines σ) (plan : Plan) (body : Node) (nested : Option Node) :
    Run σ (Option Node) := do
  let walked ← andThen (forInStage engines plan) body nested
  andThen (iterationStage engines plan) body walked

theorem carryOut_some (engines : Engines σ) (body : Node) (nested : Option Node) (plan : Plan) :
    carryOut engines body nested (some plan) = (do
      count fun stats => { stats with bodiesLowered := stats.bodiesLowered + 1 }
      let ready ← prepare engines plan body nested
      andThen (targetStage engines plan) body ready) := rfl

theorem run_carryOut_some (engines : Engines σ) (plan : Plan) (body : Node) (nested : Option Node)
    (s : State σ) :
    (carryOut engines body nested (some plan)).run s =
      let ready := (prepare engines plan body nested).run s.lowering
      (andThen (targetStage engines plan) body ready.1).run ready.2 := rfl

/-- A body that does not suspend stays as it is. -/
theorem run_carryOut_calm (engines : Engines σ) (body : Node) (nested : Option Node) {facts : Facts}
    (calm : facts.suspends = false) (s : State σ) :
    (carryOut engines body nested (Plan.ofFacts facts)).run s = (nested, s) := by
  have noPlan : Plan.ofFacts facts = none := by simp [Plan.ofFacts, calm]
  rw [noPlan]
  rfl

/-- The plan of a body that suspends. -/
theorem ofFacts_suspends {facts : Facts} (suspends : facts.suspends = true) :
    Plan.ofFacts facts = some ⟨facts.hasForIn, facts.isIteration,
      if facts.hasSuspension then .generator else .async⟩ := by
  simp [Plan.ofFacts, suspends]

theorem lowerBody_eq (engines : Engines σ) (body : Node) (inner : Run σ (Option Node)) :
    lowerBody engines body inner = (do
      let nested ← inner
      carryOut engines body nested (Plan.ofFacts (Facts.of (nested.getD body)))) := by
  unfold lowerBody
  congr 1

theorem depth_carryOut (engines : Engines σ) (body : Node) (nested : Option Node)
    (plan : Option Plan) (s : State σ) :
    ((carryOut engines body nested plan).run s).2.depth = s.depth := by
  have forIn (plan : Plan) (tree : Node) (s : State σ) :
      ((forInStage engines plan tree).run s).2.depth = s.depth := by
    unfold forInStage
    split <;> rfl
  have iteration (plan : Plan) (tree : Node) (s : State σ) :
      ((iterationStage engines plan tree).run s).2.depth = s.depth := by
    unfold iterationStage
    split <;> rfl
  have target (plan : Plan) (tree : Node) (s : State σ) :
      ((targetStage engines plan tree).run s).2.depth = s.depth := by
    unfold targetStage
    split <;> rfl
  cases plan with
  | none => rfl
  | some plan =>
    simp only [carryOut, run_bind, run_andThen, target, iteration, forIn]
    rfl

/-! ## The whole run -/

/-- The course of a run. What carrying out the plan of a body does, after the functions in the body
were lowered, is all there is to show; the plan is that of the body as written. -/
theorem course_lowerNode (limit : UInt32) (engines : Engines σ)
    {W : State σ → List τ → State σ → Prop} (isTrace : IsTrace W)
    (quiet : ∀ s s' : State σ, s'.engines = s.engines → s'.names = s.names → W s [] s')
    {Q : Node → Node → List τ → Node → Prop}
    (carried : ∀ (function body : Node) (nested : Option Node) (s : State σ),
      function.isFunctionLike = true → function.body? = some body →
      (∃ before, (lowerNode limit engines body).run before = (nested, s)) →
      let out := (carryOut engines body nested (Plan.ofFacts (Facts.of body))).run s
      ∃ own, W s own out.2 ∧ Q function (nested.getD body) own (out.1.getD body))
    (node : Node) (s : State σ) :
    let out := (lowerNode limit engines node).run s
    out.2.depth = s.depth ∧
      ∃ trace, W s trace out.2 ∧ Course Q limit.toNat s.depth node trace (out.1.getD node) := by
  induction node using Node.inductionOn generalizing s with
  | step node ih =>
    intro out
    have rebuilt (start : State σ) :
        let later := (node.rebuild (parts limit engines node)).run start
        later.2.depth = start.depth ∧ ∃ parts : Kind (Node × List τ × Node),
          parts.map Prod.fst = node.kind ∧
          later.1.getD node = ⟨node.span, parts.map fun part => part.2.2⟩ ∧
          W start (parts.children.flatMap fun part => part.2.1) later.2 ∧
          ∀ part ∈ parts.children, Course Q limit.toNat start.depth part.1 part.2.1 part.2.2 :=
      Node.rebuild_traced isTrace (I := fun later : State σ => later.depth = start.depth) node
        (fun child mem later depth => by
          obtain ⟨still, trace, happened, course⟩ := ih child mem later
          rw [depth] at course
          exact ⟨still.trans depth, trace, happened, course⟩) start rfl
    have refused (scope : node.isFunctionScope = true) (deep : limit.toNat ≤ s.depth) :
        out.2.depth = s.depth ∧
          ∃ trace, W s trace out.2 ∧ Course Q limit.toNat s.depth node trace (out.1.getD node) := by
      have outEq : out = _ := run_lowerNode_refused limit engines scope deep
      rw [outEq]
      refine ⟨?_, [], quiet _ _ ?_ ?_, .refused scope deep⟩ <;> split <;> rfl
    cases node using Node.cases_scope with
    | function node body isFunction has mem =>
      by_cases deep : limit.toNat ≤ s.depth
      · exact refused (Node.isFunctionScope_of_like isFunction) deep
      · obtain ⟨depth, trace, happened, course⟩ := ih body mem s.visit.deeper
        let inner := (lowerNode limit engines body).run s.visit.deeper
        have facts : Facts.of (inner.1.getD body) = Facts.of body := facts_lowerNode limit engines body _
        obtain ⟨own, happenedThen, lowered⟩ :=
          carried node body inner.1 inner.2 isFunction has ⟨_, rfl⟩
        have outEq : out = _ := run_lowerNode_function limit engines isFunction has (by omega)
        rw [outEq, lowerBody_eq]
        simp only [run_bind]
        rw [map_withBody_getD has, State.depth_shallower, depth_carryOut, facts]
        refine ⟨by rw [depth]; rfl, trace ++ own, ?_, .function isFunction has (by omega) course lowered⟩
        have before : W s [] s.visit.deeper := quiet _ _ rfl rfl
        have after (s : State σ) : W s [] s.shallower := quiet _ _ rfl rfl
        have all := isTrace.append before (isTrace.append happened
          (isTrace.append happenedThen (after _)))
        rwa [List.nil_append, List.append_nil] at all
    | expression node isExpression =>
      by_cases deep : limit.toNat ≤ s.depth
      · exact refused (Node.isFunctionScope_of_expression isExpression) deep
      · obtain ⟨depth, parts, same, answer, happened, each⟩ := rebuilt s.deeper
        have outEq : out = _ := run_lowerNode_expression limit engines isExpression (by omega)
        rw [outEq, answer]
        refine ⟨by rw [State.depth_shallower, depth]; rfl, _, ?_,
          .expression parts isExpression (by omega) same each⟩
        have before : W s [] s.deeper := quiet _ _ rfl rfl
        have after (s : State σ) : W s [] s.shallower := quiet _ _ rfl rfl
        have all := isTrace.append before (isTrace.append happened (after _))
        rwa [List.nil_append, List.append_nil] at all
    | plain node plain =>
      obtain ⟨depth, parts, same, answer, happened, each⟩ := rebuilt s
      have outEq : out = (node.rebuild (Lowering.parts limit engines node)).run s :=
        congrArg (StateT.run · s) (lowerNode_plain limit engines plain)
      rw [outEq, answer]
      exact ⟨depth, _, happened, .plain parts plain same each⟩

end Lowering

end Resumable
