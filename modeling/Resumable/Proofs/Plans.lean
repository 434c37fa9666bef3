import Mathlib.Algebra.BigOperators.Group.List.Basic
import Mathlib.Data.List.Perm.Subperm
import Resumable.Proofs.Mirror
import Resumable.Suspension.FunctionSummary

/-!
# The plans of a run

A run reads the plan of a body only once the functions inside were lowered, by engines that may
answer anything, and yet it carries out the plan of the body as written.  To say so, a run can keep a
journal of the plans that it carries out (`runJournaled`); without its journal it is the run itself
(`forget_runJournaled`), and the journal is given by the tree alone (`journal_lowerNode`).  So is
what the run counts (`stats_lowerNode`).
-/

namespace Resumable

/-! ## The functions of a tree -/

namespace Node

/-- A walk that goes on at every node visits the nodes of the tree one after the other. -/
theorem walk_all_eq {m : Type → Type} [Monad m] [LawfulMonad m] (visit : Node → m Unit)
    (node : Node) :
    (node.walk fun node => do
      visit node
      return true) = node.subtree.forM visit := by
  induction node using inductionOn with
  | step node ih =>
    have rest := forM_flatMap node.children ih
    rw [walk_eq, subtree_eq, List.forM_eq_forM, List.forM_cons, ← List.forM_eq_forM, ← rest]
    simp only [bind_assoc, pure_bind, if_true]

/-- The function declarations and accessors of a tree, outer ones first. -/
def functionLikes (node : Node) : List Node := node.subtree.filter (·.isFunctionLike)

theorem functionLikes_eq (node : Node) :
    node.functionLikes =
      (if node.isFunctionLike then [node] else []) ++ node.children.flatMap functionLikes := by
  unfold functionLikes
  rw [subtree_eq, List.filter_cons, List.filter_flatMap]
  split <;> rfl

/-- The children of a function declaration or accessor are its parameters and its body. -/
theorem children_function {node body : Node} (isFunction : node.isFunctionLike = true)
    (has : node.body? = some body) : node.children = node.parameters ++ [body] := by
  obtain ⟨span, kind⟩ := node
  cases kind
  case functionDeclaration | getAccessorDeclaration | setAccessorDeclaration =>
    cases has
    rfl
  all_goals cases isFunction

theorem exists_body {node : Node} (isFunction : node.isFunctionLike = true) :
    ∃ body, node.body? = some body := by
  obtain ⟨span, kind⟩ := node
  cases kind
  case functionDeclaration | getAccessorDeclaration | setAccessorDeclaration => exact ⟨_, rfl⟩
  all_goals cases isFunction

theorem subperm_flatMap {α β : Type} {f g : α → List β} :
    ∀ {l : List α}, (∀ a ∈ l, (f a).Subperm (g a)) → (l.flatMap f).Subperm (l.flatMap g)
  | [], _ => List.Subperm.refl _
  | a :: l, each =>
    (each a (by simp)).append (subperm_flatMap fun a' mem => each a' (by simp [mem]))

/-- A run enters no function twice. -/
theorem entered_subperm (limit depth : Nat) (node : Node) :
    (node.entered limit depth).Subperm node.functionLikes := by
  induction node using inductionOn generalizing depth with
  | step node ih =>
    have below (depth : Nat) : (node.children.flatMap fun child => child.entered limit depth).Subperm
        node.functionLikes := by
      rw [functionLikes_eq]
      exact (subperm_flatMap fun child mem => ih child mem depth).trans
        (List.sublist_append_right _ _).subperm
    cases node using cases_scope with
    | function node body isFunction has mem =>
      rw [entered_function isFunction has]
      split
      · exact List.nil_subperm
      · rw [functionLikes_eq, if_pos isFunction, children_function isFunction has,
          List.flatMap_append, List.flatMap_singleton]
        have inside : (body.entered limit (depth + 1)).Subperm
            (node.parameters.flatMap functionLikes ++ body.functionLikes) :=
          (ih body mem (depth + 1)).trans (List.sublist_append_right _ _).subperm
        exact (List.perm_append_comm.subperm).trans ((List.Subperm.refl [node]).append inside)
    | expression node isExpression =>
      rw [entered_expression isExpression]
      split
      · exact List.nil_subperm
      · exact below (depth + 1)
    | plain node plain =>
      rw [entered_plain plain]
      exact below depth

end Node

namespace FunctionSummary

theorem ofNode?_function {node body : Node} (isFunction : node.isFunctionLike = true)
    (has : node.body? = some body) :
    ofNode? node = some ⟨node.form, declaredName? node, node.span, Facts.of body,
      Plan.ofFacts (Facts.of body)⟩ := by
  simp [ofNode?, isFunction, has]

/-- Adds the entry of a node, if it has one. -/
def enter (node : Node) : StateM (Array FunctionSummary) Unit :=
  match ofNode? node with
  | some entry => modify (·.push entry)
  | none => pure ()

theorem run_enter (node : Node) (entries : Array FunctionSummary) :
    ((enter node).run entries).2.toList.map some =
      entries.toList.map some ++ (if node.isFunctionLike then [node] else []).map ofNode? := by
  unfold enter
  cases isFunction : node.isFunctionLike with
  | true =>
    obtain ⟨body, has⟩ := Node.exists_body isFunction
    rw [ofNode?_function isFunction has]
    exact (congrArg (List.map some) Array.toList_push).trans (by simp [ofNode?_function isFunction has])
  | false =>
    have none : ofNode? node = Option.none := by simp [ofNode?, isFunction]
    rw [none]
    exact (List.append_nil _).symm

theorem ofTree_eq_forM (tree : Node) : ofTree tree = ((tree.subtree.forM enter).run #[]).2 := by
  rw [← Node.walk_all_eq]
  refine congrArg (fun visit : Node → StateM (Array FunctionSummary) Bool =>
    ((tree.walk visit).run #[]).2) (funext fun node => ?_)
  unfold enter
  cases ofNode? node <;> rfl

/-- A summary has one entry for every function declaration and accessor, outer ones first. -/
theorem ofTree_eq (tree : Node) :
    (ofTree tree).toList.map some = tree.functionLikes.map ofNode? := by
  have entered : ∀ (nodes : List Node) (entries : Array FunctionSummary),
      ((nodes.forM enter).run entries).2.toList.map some =
        entries.toList.map some ++ (nodes.filter (·.isFunctionLike)).map ofNode? := by
    intro nodes
    induction nodes with
    | nil => exact fun _ => (List.append_nil _).symm
    | cons node rest ih =>
      intro entries
      simp only [List.forM_eq_forM] at ih ⊢
      rw [List.forM_cons, run_bind, ih, run_enter, List.append_assoc, ← List.map_append,
        List.filter_cons]
      split <;> rfl
  rw [ofTree_eq_forM]
  exact entered tree.subtree #[]

end FunctionSummary

namespace Lowering

variable {σ : Type}

/-! ## The journal of a run -/

/-- What a run decided about the body of a function. -/
structure Decision where
  function : Node
  plan : Option Plan

/-- The decision that the summary of a function calls for. -/
def Decision.asWritten (function : Node) : Decision :=
  ⟨function, (FunctionSummary.ofNode? function).bind (·.plan)⟩

/-- A run that keeps a journal beside the state of the engines. -/
abbrev JournaledRun (σ : Type) := Run (σ × List Decision)

/-- The engines, beside a journal that they do not see. -/
def pastJournal (engines : Engines σ) : Engines (σ × List Decision) where
  forIn body := past (engines.forIn body)
  forEach loop := past (engines.forEach loop)
  generator body := past (engines.generator body)
  async body := past (engines.async body)

/-- Writes a decision into the journal. -/
def note (decision : Decision) : JournaledRun σ Unit :=
  modify fun state => { state with engines := (state.engines.1, state.engines.2 ++ [decision]) }

/-- Lowers a function declaration or an accessor, and writes down the plan that it carries out. -/
def journaledFunction (limit : UInt32) (engines : Engines σ) (node : Node)
    (body : Node × JournaledRun σ (Option Node)) : JournaledRun σ (Option Node) := do
  count fun stats => { stats with functionsVisited := stats.functionsVisited + 1 }
  if ← descend limit node then
    let nested ← body.2
    let plan := Plan.ofFacts (Facts.of (nested.getD body.1))
    note ⟨node, plan⟩
    let lowered ← carryOut (pastJournal engines) body.1 nested plan
    ascend
    return node.replaceBody lowered
  else return none

/-- One step of a run with a journal. -/
def journaledStep (limit : UInt32) (engines : Engines σ) (node : Node)
    (parts : Kind (Node × JournaledRun σ (Option Node))) : JournaledRun σ (Option Node) :=
  match parts with
  | .functionDeclaration _ _ _ body | .getAccessorDeclaration _ _ body
  | .setAccessorDeclaration _ _ _ body => journaledFunction limit engines node body
  | parts => step limit (pastJournal engines) node parts

/-- The lowering of one node, with a journal. -/
def journaledNode (limit : UInt32) (engines : Engines σ) (node : Node) :
    JournaledRun σ (Option Node) :=
  node.edit (journaledStep limit engines)

/-- Runs the lowering with a journal that is empty at first. -/
def runJournaled (limit : UInt32) (engines : Engines σ) (own : σ) (names : NameSupply) (log : Log)
    (tree : Node) : Outcome (σ × List Decision) :=
  .of ((journaledNode limit engines tree).run
    ⟨(own, []), names.reserveAll tree.names.toList, log, 0, .zero⟩)

/-! ### Forgetting the journal -/

theorem journaledNode_eq (limit : UInt32) (engines : Engines σ) (node : Node) :
    journaledNode limit engines node = journaledStep limit engines node
      (node.kind.map fun child => (child, journaledNode limit engines child)) := by
  rw [journaledNode, Node.edit, Node.para_eq]
  rfl

theorem journaledNode_function (limit : UInt32) (engines : Engines σ) {node body : Node}
    (isFunction : node.isFunctionLike = true) (has : node.body? = some body) :
    journaledNode limit engines node =
      journaledFunction limit engines node (body, journaledNode limit engines body) := by
  rw [journaledNode_eq]
  obtain ⟨span, kind⟩ := node
  cases kind
  case functionDeclaration | getAccessorDeclaration | setAccessorDeclaration =>
    cases has
    rfl
  all_goals cases isFunction

theorem journaledNode_expression (limit : UInt32) (engines : Engines σ) {node : Node}
    (isExpression : node.form = .functionExpression) :
    journaledNode limit engines node =
      lowerExpression limit node (journaledNode limit engines) := by
  rw [journaledNode_eq]
  obtain ⟨span, kind⟩ := node
  cases kind <;> try cases isExpression
  rfl

theorem journaledNode_plain (limit : UInt32) (engines : Engines σ) {node : Node}
    (plain : node.isFunctionScope = false) :
    journaledNode limit engines node =
      node.rebuild (node.kind.map fun child => (child, journaledNode limit engines child)) := by
  rw [journaledNode_eq]
  obtain ⟨span, kind⟩ := node
  cases kind
  case functionDeclaration | functionExpression | getAccessorDeclaration | setAccessorDeclaration =>
    cases plain
  all_goals rfl

theorem mirror_pastJournal (engines : Engines σ) (journal : List Decision) :
    (pastJournal engines).Mirror (With journal) engines where
  forIn _ := mirrors_past journal _
  forEach _ := mirrors_past journal _
  generator _ := mirrors_past journal _
  async _ := mirrors_past journal _

/-- A state with a journal, and the state without it. -/
abbrev Forgets : State (σ × List Decision) → State σ → Prop := Alike fun s t => s.1 = t

/-- Carrying out a plan leaves the journal as it is. -/
theorem carryOut_pastJournal (engines : Engines σ) (body : Node) (nested : Option Node)
    (plan : Option Plan) {s : State (σ × List Decision)} {t : State σ} (forgets : Forgets s t) :
    let out := (carryOut (pastJournal engines) body nested plan).run s
    let without := (carryOut engines body nested plan).run t
    out.1 = without.1 ∧ Forgets out.2 without.2 ∧ out.2.engines.2 = s.engines.2 := by
  have alike : Alike (With s.engines.2) s t := { forgets with engines := ⟨forgets.engines, rfl⟩ }
  obtain ⟨same, alike⟩ := mirrors_carryOut (mirror_pastJournal engines s.engines.2) body nested plan
    s t alike
  exact ⟨same, { alike with engines := alike.engines.1 }, alike.engines.2⟩

theorem mirrors_note (decision : Decision) {x : JournaledRun σ (Option Node)}
    {y : Run σ (Option Node)} (mirrors : Mirrors Forgets x y) :
    Mirrors Forgets (do note decision; x) y :=
  fun _ _ forgets => mirrors _ _ { forgets with }

/-- A run with a journal does what the run does. -/
theorem mirrors_journaledNode (limit : UInt32) (engines : Engines σ) (node : Node) :
    Mirrors Forgets (journaledNode limit engines node) (lowerNode limit engines node) := by
  induction node using Node.inductionOn with
  | step node ih =>
    cases node using Node.cases_scope with
    | function node body isFunction has mem =>
      rw [journaledNode_function limit engines isFunction has,
        lowerNode_function limit engines isFunction has]
      refine .bind (mirrors_count _) fun _ => .bind (mirrors_descend limit node) fun entered => ?_
      cases entered with
      | false => exact .pure _
      | true =>
        simp only [if_true, lowerBody_eq, bind_assoc]
        refine .bind (ih body mem) fun nested => ?_
        refine mirrors_note _ ?_
        refine .bind (fun s t forgets => ?_) fun _ => .bind mirrors_ascend fun _ => .pure _
        obtain ⟨same, forgets, -⟩ := carryOut_pastJournal engines body nested
          (Plan.ofFacts (Facts.of (nested.getD body))) forgets
        exact ⟨same, forgets⟩
    | expression node isExpression =>
      rw [journaledNode_expression limit engines isExpression,
        lowerNode_expression limit engines isExpression]
      exact mirrors_lowerExpression limit node ih
    | plain node plain =>
      rw [journaledNode_plain limit engines plain, lowerNode_plain limit engines plain]
      exact .rebuild node ih

/-- Without its journal, a run with a journal is the run. -/
theorem forget_runJournaled (limit : UInt32) (engines : Engines σ) (own : σ) (names : NameSupply)
    (log : Log) (tree : Node) :
    (runJournaled limit engines own names log tree).mapEngines Prod.fst =
      run limit engines own names log tree :=
  Outcome.mapEngines_of (mirrors_journaledNode limit engines tree) ⟨rfl, rfl, rfl, rfl, rfl⟩

/-! ### What stands in the journal -/

theorem facts_journaledNode (limit : UInt32) (engines : Engines σ) (node : Node)
    (s : State (σ × List Decision)) :
    Facts.of (((journaledNode limit engines node).run s).1.getD node) = Facts.of node := by
  obtain ⟨same, -⟩ := mirrors_journaledNode limit engines node s
    ⟨s.engines.1, s.names, s.log, s.depth, s.stats⟩ ⟨rfl, rfl, rfl, rfl, rfl⟩
  rw [same, facts_lowerNode]

theorem Decision.asWritten_function {node body : Node} (isFunction : node.isFunctionLike = true)
    (has : node.body? = some body) :
    Decision.asWritten node = ⟨node, Plan.ofFacts (Facts.of body)⟩ := by
  rw [asWritten, FunctionSummary.ofNode?_function isFunction has]
  rfl

/-- The state once a decision is in the journal. -/
def State.note (decision : Decision) (s : State (σ × List Decision)) : State (σ × List Decision) :=
  { s with engines := (s.engines.1, s.engines.2 ++ [decision]) }

theorem run_journaledFunction_deep {limit : UInt32} {s : State (σ × List Decision)}
    (deep : limit.toNat ≤ s.depth) (engines : Engines σ) (node : Node)
    (body : Node × JournaledRun σ (Option Node)) :
    (journaledFunction limit engines node body).run s = (none, s.visit.refuse limit node) := by
  have visited : (count fun stats =>
      { stats with functionsVisited := stats.functionsVisited + 1 }).run s = ((), s.visit) := rfl
  simp only [journaledFunction, run_bind, visited, run_descend_deep (s := s.visit) deep]
  rfl

theorem run_journaledFunction_room {limit : UInt32} {s : State (σ × List Decision)}
    (room : s.depth < limit.toNat) (engines : Engines σ) (node : Node)
    (body : Node × JournaledRun σ (Option Node)) :
    (journaledFunction limit engines node body).run s =
      let nested := body.2.run s.visit.deeper
      let plan := Plan.ofFacts (Facts.of (nested.1.getD body.1))
      let lowered := (carryOut (pastJournal engines) body.1 nested.1 plan).run
        (nested.2.note ⟨node, plan⟩)
      (node.replaceBody lowered.1, lowered.2.shallower) := by
  have visited : (count fun stats =>
      { stats with functionsVisited := stats.functionsVisited + 1 }).run s = ((), s.visit) := rfl
  simp only [journaledFunction, run_bind, visited, run_descend_room (s := s.visit) room]
  rfl

/-- The journal of a run: the decisions that the summaries of the entered functions call for. -/
theorem journal_journaledNode (limit : UInt32) (engines : Engines σ) (node : Node)
    (s : State (σ × List Decision)) :
    let out := (journaledNode limit engines node).run s
    out.2.depth = s.depth ∧ out.2.engines.2 =
      s.engines.2 ++ (node.entered limit.toNat s.depth).map Decision.asWritten := by
  induction node using Node.inductionOn generalizing s with
  | step node ih =>
    intro out
    have rebuilt (start : State (σ × List Decision)) :
        let later := (node.rebuild (node.kind.map fun child =>
          (child, journaledNode limit engines child))).run start
        later.2.depth = start.depth ∧ later.2.engines.2 = start.engines.2 ++
          (node.children.flatMap fun child => child.entered limit.toNat start.depth).map
            Decision.asWritten := by
      obtain ⟨depth, parts, same, -, journal, each⟩ := Node.rebuild_traced
        (W := fun (s : State (σ × List Decision)) trace later =>
          later.engines.2 = s.engines.2 ++ trace)
        ⟨fun s => (List.append_nil _).symm, fun first second => by
          rw [second, first, List.append_assoc]⟩
        (I := fun later => later.depth = start.depth)
        (R := fun child trace _ =>
          trace = (child.entered limit.toNat start.depth).map Decision.asWritten) node
        (fun child mem later depth => by
          obtain ⟨still, journal⟩ := ih child mem later
          rw [depth] at journal
          exact ⟨still.trans depth, _, journal, rfl⟩) start rfl
      refine ⟨depth, journal.trans ?_⟩
      rw [Course.children_eq same, List.flatMap_map, List.map_flatMap]
      exact congrArg _ (List.flatMap_congr fun part mem => each part mem)
    cases node using Node.cases_scope with
    | function node body isFunction has mem =>
      have outEq : out = _ := congrArg (StateT.run · s) (journaledNode_function limit engines isFunction has)
      rw [outEq, Node.entered_function isFunction has]
      by_cases deep : limit.toNat ≤ s.depth
      · rw [run_journaledFunction_deep deep, if_pos deep]
        exact ⟨rfl, (List.append_nil _).symm⟩
      · obtain ⟨depth, journal⟩ := ih body mem s.visit.deeper
        let nested := (journaledNode limit engines body).run s.visit.deeper
        let plan := Plan.ofFacts (Facts.of (nested.1.getD body))
        obtain ⟨-, -, kept⟩ := carryOut_pastJournal engines body nested.1 plan
          (s := nested.2.note ⟨node, plan⟩)
          (t := ⟨nested.2.engines.1, nested.2.names, nested.2.log, nested.2.depth, nested.2.stats⟩)
          ⟨rfl, rfl, rfl, rfl, rfl⟩
        have written : (⟨node, plan⟩ : Decision) = .asWritten node := by
          rw [Decision.asWritten_function isFunction has]
          simp only [plan, nested, facts_journaledNode]
        rw [run_journaledFunction_room (by omega), if_neg deep]
        refine ⟨?_, ?_⟩
        · rw [State.depth_shallower, depth_carryOut]
          exact congrArg (· - 1) depth
        · refine kept.trans ?_
          rw [List.map_append, ← List.append_assoc]
          exact congrArg₂ (· ++ ·) journal (congrArg (fun decision => [decision]) written)
    | expression node isExpression =>
      have outEq : out = _ := congrArg (StateT.run · s) (journaledNode_expression limit engines isExpression)
      rw [outEq, Node.entered_expression isExpression]
      by_cases deep : limit.toNat ≤ s.depth
      · rw [run_lowerExpression_deep deep, if_pos deep]
        exact ⟨rfl, (List.append_nil _).symm⟩
      · obtain ⟨depth, journal⟩ := rebuilt s.deeper
        rw [run_lowerExpression_room (by omega), if_neg deep]
        exact ⟨congrArg (· - 1) depth, journal⟩
    | plain node plain =>
      have outEq : out = _ := congrArg (StateT.run · s) (journaledNode_plain limit engines plain)
      rw [outEq, Node.entered_plain plain]
      exact rebuilt s

/-! ## What a run counts -/

namespace Stats

attribute [ext] Stats

/-- Counts are added one by one. -/
instance : Add Stats where
  add a b := ⟨a.functionsVisited + b.functionsVisited, a.bodiesLowered + b.bodiesLowered,
    a.forInLowered + b.forInLowered, a.iterationsDesugared + b.iterationsDesugared,
    a.generatorBodies + b.generatorBodies, a.asyncBodies + b.asyncBodies,
    a.depthLimitHits + b.depthLimitHits⟩

instance : Zero Stats where
  zero := zero

theorem add_def (a b : Stats) : a + b =
    ⟨a.functionsVisited + b.functionsVisited, a.bodiesLowered + b.bodiesLowered,
      a.forInLowered + b.forInLowered, a.iterationsDesugared + b.iterationsDesugared,
      a.generatorBodies + b.generatorBodies, a.asyncBodies + b.asyncBodies,
      a.depthLimitHits + b.depthLimitHits⟩ := rfl

theorem zero_def : (0 : Stats) = ⟨0, 0, 0, 0, 0, 0, 0⟩ := rfl

instance : AddCommMonoid Stats where
  add_assoc a b c := by simp only [add_def, Nat.add_assoc]
  zero_add a := by simp only [add_def, zero_def, Nat.zero_add]
  add_zero a := by simp only [add_def, zero_def, Nat.add_zero]
  add_comm a b := by simp only [add_def, Nat.add_comm]
  nsmul := nsmulRec

/-- A function declaration or accessor was met. -/
def visit : Stats := { zero with functionsVisited := 1 }

/-- A function scope was refused. -/
def refusal : Stats := { zero with depthLimitHits := 1 }

/-- A plan, if there is one, was carried out. -/
def carrying : Option Plan → Stats
  | none => 0
  | some plan =>
    { functionsVisited := 0
      bodiesLowered := 1
      forInLowered := plan.lowerForIn.toNat
      iterationsDesugared := plan.desugarIteration.toNat
      generatorBodies := (plan.target == .generator).toNat
      asyncBodies := (plan.target == .async).toNat
      depthLimitHits := 0 }

/-- The counts of a list of plans, each of a function that was met. -/
theorem sum_eq (plans : List (Option Plan)) :
    (plans.map fun plan => visit + carrying plan).sum =
      { functionsVisited := plans.length
        bodiesLowered := plans.countP (·.isSome)
        forInLowered := plans.countP (·.any (·.lowerForIn))
        iterationsDesugared := plans.countP (·.any (·.desugarIteration))
        generatorBodies := plans.countP (·.any (·.target == .generator))
        asyncBodies := plans.countP (·.any (·.target == .async))
        depthLimitHits := 0 } := by
  induction plans with
  | nil => rfl
  | cons plan rest ih =>
    rw [List.map_cons, List.sum_cons, ih]
    cases plan with
    | none => simp [add_def, visit, carrying, zero_def, zero, Nat.add_comm]
    | some plan =>
      have counts (flag : Bool) : flag.toNat = if flag then 1 else 0 := by cases flag <;> rfl
      simp [add_def, visit, carrying, zero, List.countP_cons, Nat.add_comm, counts]

theorem depthLimitHits_sum (all : List Stats) :
    all.sum.depthLimitHits = 0 ↔ ∀ stats ∈ all, stats.depthLimitHits = 0 := by
  induction all with
  | nil => simp [zero_def]
  | cons stats rest ih => simp [add_def, ih]

end Stats

/-- What a run that starts at a depth counts for a tree. -/
def tally (limit : Nat) (node : Node) : Nat → Stats :=
  node.para fun _ parts depth =>
    match parts with
    | .functionDeclaration _ _ _ body | .getAccessorDeclaration _ _ body
    | .setAccessorDeclaration _ _ _ body =>
      if limit ≤ depth then .visit + .refusal
      else body.2 (depth + 1) + (.visit + .carrying (Plan.ofFacts (Facts.of body.1)))
    | .functionExpression _ parameters body _ =>
      if limit ≤ depth then .refusal
      else ((parameters ++ [body]).map fun part => part.2 (depth + 1)).sum
    | parts => (parts.children.map fun part => part.2 depth).sum

section Tally

variable {limit depth : Nat} {node : Node}

theorem tally_function {body : Node} (isFunction : node.isFunctionLike = true)
    (has : node.body? = some body) :
    tally limit node depth =
      if limit ≤ depth then .visit + .refusal
      else tally limit body (depth + 1) + (.visit + .carrying (Plan.ofFacts (Facts.of body))) := by
  rw [tally, Node.para_eq]
  obtain ⟨span, kind⟩ := node
  cases kind
  case functionDeclaration | getAccessorDeclaration | setAccessorDeclaration =>
    cases has
    rfl
  all_goals cases isFunction

theorem tally_expression (isExpression : node.form = .functionExpression) :
    tally limit node depth =
      if limit ≤ depth then .refusal
      else (node.children.map fun child => tally limit child (depth + 1)).sum := by
  rw [tally, Node.para_eq]
  obtain ⟨span, kind⟩ := node
  cases kind <;> try cases isExpression
  simp [Node.kind, Kind.map, Node.children, Kind.children, Function.comp_def, tally]

theorem tally_plain (plain : node.isFunctionScope = false) :
    tally limit node depth = (node.children.map fun child => tally limit child depth).sum := by
  have parts : ((node.kind.map fun child => (child, tally limit child)).children.map
      fun part => part.2 depth) = node.children.map fun child => tally limit child depth := by
    simp [Node.children, Function.comp_def]
  rw [← parts, tally, Node.para_eq]
  obtain ⟨span, kind⟩ := node
  cases kind
  case functionDeclaration | functionExpression | getAccessorDeclaration | setAccessorDeclaration =>
    cases plain
  all_goals rfl

end Tally

theorem stats_carryOut (engines : Engines σ) (body : Node) (nested : Option Node)
    (plan : Option Plan) (s : State σ) :
    ((carryOut engines body nested plan).run s).2.stats = s.stats + .carrying plan := by
  have forIn (plan : Plan) (tree : Node) (s : State σ) :
      ((forInStage engines plan tree).run s).2.stats =
        s.stats + { Stats.zero with forInLowered := plan.lowerForIn.toNat } := by
    unfold forInStage
    split <;> simp_all [Stats.add_def, Stats.zero] <;> rfl
  have iteration (plan : Plan) (tree : Node) (s : State σ) :
      ((iterationStage engines plan tree).run s).2.stats =
        s.stats + { Stats.zero with iterationsDesugared := plan.desugarIteration.toNat } := by
    unfold iterationStage
    split <;> simp_all [Stats.add_def, Stats.zero] <;> rfl
  have target (plan : Plan) (tree : Node) (s : State σ) :
      ((targetStage engines plan tree).run s).2.stats = s.stats + { Stats.zero with
        generatorBodies := (plan.target == .generator).toNat
        asyncBodies := (plan.target == .async).toNat } := by
    unfold targetStage
    split <;> simp_all [Stats.add_def, Stats.zero] <;> rfl
  cases plan with
  | none => exact (add_zero _).symm
  | some plan =>
    have counted (change : Stats → Stats) (s : State σ) :
        ((count change).run s).2.stats = change s.stats := rfl
    simp only [carryOut, run_bind, run_andThen, target, iteration, forIn, counted]
    simp [Stats.add_def, Stats.zero, Stats.carrying]

/-- What a run counts is given by the tree, whatever its engines do. -/
theorem stats_lowerNode (limit : UInt32) (engines : Engines σ) (node : Node) (s : State σ) :
    let out := (lowerNode limit engines node).run s
    out.2.depth = s.depth ∧ out.2.stats = s.stats + tally limit.toNat node s.depth := by
  induction node using Node.inductionOn generalizing s with
  | step node ih =>
    intro out
    have rebuilt (start : State σ) :
        let later := (node.rebuild (node.kind.map fun child =>
          (child, lowerNode limit engines child))).run start
        later.2.depth = start.depth ∧ later.2.stats = start.stats +
          (node.children.map fun child => tally limit.toNat child start.depth).sum := by
      obtain ⟨depth, parts, same, -, stats, each⟩ := Node.rebuild_traced
        (W := fun (s : State σ) trace later => later.stats = s.stats + trace.sum)
        ⟨fun s => (add_zero _).symm, fun first second => by
          rw [second, first, List.sum_append, add_assoc]⟩
        (I := fun later => later.depth = start.depth)
        (R := fun child trace _ => trace = [tally limit.toNat child start.depth]) node
        (fun child mem later depth => by
          obtain ⟨still, stats⟩ := ih child mem later
          rw [depth] at stats
          exact ⟨still.trans depth, _, by rw [stats, List.sum_singleton], rfl⟩) start rfl
      refine ⟨depth, stats.trans ?_⟩
      rw [Course.children_eq same, List.map_map, List.map_eq_flatMap]
      exact congrArg _ (congrArg _ (List.flatMap_congr fun part mem => each part mem))
    cases node using Node.cases_scope with
    | function node body isFunction has mem =>
      rw [tally_function isFunction has]
      by_cases deep : limit.toNat ≤ s.depth
      · have outEq : out = _ :=
          run_lowerNode_refused limit engines (Node.isFunctionScope_of_like isFunction) deep
        rw [outEq, if_pos isFunction, if_pos deep]
        exact ⟨rfl, rfl⟩
      · obtain ⟨depth, stats⟩ := ih body mem s.visit.deeper
        have outEq : out = _ := run_lowerNode_function limit engines isFunction has (by omega)
        rw [outEq, lowerBody_eq, if_neg deep]
        simp only [run_bind]
        refine ⟨?_, ?_⟩
        · rw [State.depth_shallower, depth_carryOut]
          exact congrArg (· - 1) depth
        · have visited : s.visit.deeper.stats = s.stats + .visit := rfl
          refine (stats_carryOut engines body _ _ _).trans ?_
          rw [stats, facts_lowerNode, visited, add_right_comm s.stats, add_assoc, add_assoc]
          rfl
    | expression node isExpression =>
      rw [tally_expression isExpression]
      by_cases deep : limit.toNat ≤ s.depth
      · have notLike := Node.isFunctionLike_of_expression isExpression
        have outEq : out = _ :=
          run_lowerNode_refused limit engines (Node.isFunctionScope_of_expression isExpression) deep
        rw [outEq, notLike, if_pos deep]
        exact ⟨rfl, rfl⟩
      · obtain ⟨depth, stats⟩ := rebuilt s.deeper
        have outEq : out = _ := run_lowerNode_expression limit engines isExpression (by omega)
        rw [outEq, if_neg deep]
        exact ⟨congrArg (· - 1) depth, stats⟩
    | plain node plain =>
      have outEq : out = _ := congrArg (StateT.run · s) (lowerNode_plain limit engines plain)
      rw [outEq, tally_plain plain]
      exact rebuilt s

/-- What is counted for a function that is met and entered. -/
def ofFunction (function : Node) : Stats := .visit + .carrying (Decision.asWritten function).plan

theorem functionLikes_eq_nil {node : Node} (none : ∀ inner ∈ node.subtree, inner.isFunctionLike = false) :
    node.functionLikes = [] := by
  simpa [Node.functionLikes] using none

/-- If nothing is refused and no function stands in a parameter that the run does not look at, then
every function is counted. -/
theorem tally_eq {limit depth : Nat} {node : Node}
    (bare : ∀ f ∈ node.subtree, ∀ parameter ∈ f.parameters, ∀ inner ∈ parameter.subtree,
      inner.isFunctionLike = false)
    (shallow : (tally limit node depth).depthLimitHits = 0) :
    tally limit node depth = (node.functionLikes.map ofFunction).sum := by
  induction node using Node.inductionOn generalizing depth with
  | step node ih =>
    have below {child : Node} (isChild : child ∈ node.children) {depth : Nat}
        (shallow : (tally limit child depth).depthLimitHits = 0) :
        tally limit child depth = (child.functionLikes.map ofFunction).sum :=
      ih child isChild (fun f mem => bare f (Node.mem_subtree_iff.2 (.inr ⟨child, isChild, mem⟩)))
        shallow
    have children (notLike : node.isFunctionLike = false) (depth : Nat)
        (shallow : (node.children.map fun child => tally limit child depth).sum.depthLimitHits = 0) :
        (node.children.map fun child => tally limit child depth).sum =
          (node.functionLikes.map ofFunction).sum := by
      rw [Stats.depthLimitHits_sum] at shallow
      rw [Node.functionLikes_eq, notLike, List.map_append, List.map_flatMap, List.sum_append]
      simp only [List.map_nil, List.sum_nil, zero_add, Bool.false_eq_true, if_false]
      rw [List.flatMap_def, List.sum_flatten, List.map_map]
      exact congrArg _ (List.map_congr_left fun child mem =>
        below mem (shallow _ (List.mem_map_of_mem mem)))
    cases node using Node.cases_scope with
    | function node body isFunction has mem =>
      rw [tally_function isFunction has] at shallow ⊢
      split at shallow
      · cases shallow
      · rename_i room
        have inner : (tally limit body (depth + 1)).depthLimitHits = 0 := by
          simp only [Stats.add_def] at shallow
          omega
        have parameters : node.parameters.flatMap Node.functionLikes = [] :=
          List.flatMap_eq_nil_iff.2 fun parameter isParameter => functionLikes_eq_nil
            (bare node (Node.self_mem_subtree node) parameter isParameter)
        rw [if_neg room, below mem inner, Node.functionLikes_eq node, if_pos isFunction,
          Node.children_function isFunction has, List.flatMap_append, parameters,
          List.flatMap_singleton, List.nil_append, List.map_append, List.sum_append, add_comm,
          List.map_singleton, List.sum_singleton, ofFunction,
          Decision.asWritten_function isFunction has]
    | expression node isExpression =>
      rw [tally_expression isExpression] at shallow ⊢
      split at shallow
      · cases shallow
      · rename_i room
        rw [if_neg room]
        exact children (Node.isFunctionLike_of_expression isExpression) (depth + 1) shallow
    | plain node plain =>
      rw [tally_plain plain] at shallow ⊢
      exact children (Node.isFunctionLike_of_not_scope plain) depth shallow

/-! ## Summaries and runs -/

/-- The summary of a tree and a run on it agree. The summary has one entry for every function
declaration and accessor, outer ones first. The run carries out, for every function that it enters
and for no function twice, the plan in the entry of that function. If no function stands in a
parameter of a function declaration or set accessor, and none is refused as too deep, then the run
counts what stands in the summary. -/
theorem plans_as_summarized (limit : UInt32) (engines : Engines σ) (own : σ) (names : NameSupply)
    (log : Log) (tree : Node) :
    let summaries := (FunctionSummary.ofTree tree).toList
    let functions := tree.subtree.filter (·.isFunctionLike)
    let outcome := run limit engines own names log tree
    let journaled := runJournaled limit engines own names log tree
    summaries.map some = functions.map FunctionSummary.ofNode? ∧
      journaled.mapEngines Prod.fst = outcome ∧
      journaled.engines.2 = (tree.entered limit.toNat 0).map (fun function =>
        ⟨function, (FunctionSummary.ofNode? function).bind (·.plan)⟩) ∧
      (tree.entered limit.toNat 0).Subperm functions ∧
      ((∀ f ∈ tree.subtree, ∀ parameter ∈ f.parameters, ∀ inner ∈ parameter.subtree,
          inner.isFunctionLike = false) →
        outcome.stats.depthLimitHits = 0 →
        outcome.stats = {
          functionsVisited := summaries.length
          bodiesLowered := summaries.countP (·.plan.isSome)
          forInLowered := summaries.countP (·.plan.any (·.lowerForIn))
          iterationsDesugared := summaries.countP (·.plan.any (·.desugarIteration))
          generatorBodies := summaries.countP (·.plan.any (·.target == .generator))
          asyncBodies := summaries.countP (·.plan.any (·.target == .async))
          depthLimitHits := 0 }) := by
  intro summaries functions outcome journaled
  have entries : summaries.map some = functions.map FunctionSummary.ofNode? :=
    FunctionSummary.ofTree_eq tree
  refine ⟨entries, forget_runJournaled limit engines own names log tree, ?_,
    Node.entered_subperm _ _ tree, fun bare shallow => ?_⟩
  · exact (journal_journaledNode limit engines tree _).2.trans (List.nil_append _)
  · have counted : outcome.stats = tally limit.toNat tree 0 :=
      (stats_lowerNode limit engines tree _).2.trans (zero_add _)
    have plans : functions.map (fun f => (Decision.asWritten f).plan) = summaries.map (·.plan) := by
      have each := congrArg (List.map (Option.bind · (·.plan))) entries
      rw [List.map_map, List.map_map] at each
      exact each.symm
    have sums : outcome.stats = ((summaries.map (·.plan)).map fun plan =>
        .visit + .carrying plan).sum := by
      rw [counted, tally_eq bare (counted ▸ shallow), ← plans, List.map_map]
      rfl
    rw [sums, Stats.sum_eq]
    simp [List.countP_map, Function.comp_def]

/-- A class with a getter that yields, and a method that takes a parameter and does nothing. -/
theorem plans_as_summarized_in_class :
    let method := Node.synthetic (.functionDeclaration (some "m") false
      [Build.variableDeclaration "a" none] (Build.block []))
    let tree := Node.synthetic (.classDeclaration "C" [yieldingGetter, method])
    let outcome := run Options.standard.maxFunctionDepth (.standard Options.standard.helpers) ()
      Options.standard.nameSupply #[] tree
    (∀ f ∈ tree.subtree, ∀ parameter ∈ f.parameters, ∀ inner ∈ parameter.subtree,
        inner.isFunctionLike = false) ∧
      outcome.stats.depthLimitHits = 0 ∧ outcome.stats = ⟨2, 1, 0, 0, 1, 0, 0⟩ := by
  intro method tree outcome
  have bare : ∀ f ∈ tree.subtree, ∀ parameter ∈ f.parameters, ∀ inner ∈ parameter.subtree,
      inner.isFunctionLike = false := by decide
  have shallow : outcome.stats.depthLimitHits = 0 := rfl
  obtain ⟨-, -, -, -, counts⟩ := plans_as_summarized Options.standard.maxFunctionDepth
    (.standard Options.standard.helpers) () Options.standard.nameSupply #[] tree
  exact ⟨bare, shallow, (counts bare shallow).trans rfl⟩

end Lowering

end Resumable
