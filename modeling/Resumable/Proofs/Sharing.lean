import Resumable.Proofs.Plans
import Resumable.Proofs.Protocol

/-!
# Trees that are given back as they were

An edit spares what there is nothing to do for (`Spares`): it keeps such a node and takes no name,
and it replaces every other node.  Rebuilding spares a node whose children are spared
(`Spares.rebuild`), so whether a tree is kept is decided at the nodes where an edit does something of
its own: the for-in loops of a scope, its statements `yield for e;`, and the functions whose bodies
suspend (`unchanged_exactly`).
-/

namespace Resumable

variable {σ : Type}

/-- With nothing to do, the edit keeps the node and the state. Else it replaces the node. -/
structure Spares (calm : Prop) (edit : StateM σ (Option Node)) : Prop where
  keeps : calm → ∀ s, edit.run s = (none, s)
  replaces : ¬ calm → ∀ s, (edit.run s).1 ≠ none

namespace Spares

variable {calm calm' : Prop} {edit : StateM σ (Option Node)}

theorem congr (spares : Spares calm edit) (same : calm' ↔ calm) : Spares calm' edit where
  keeps calm := spares.keeps (same.1 calm)
  replaces busy := spares.replaces fun calm => busy (same.2 calm)

/-- A node for which there is something to do whatever stands in it. -/
theorem of_replaced (busy : ¬ calm) (replaced : ∀ s, (edit.run s).1 ≠ none) : Spares calm edit where
  keeps calm := absurd calm busy
  replaces _ := replaced

theorem eq_none_iff (spares : Spares calm edit) (s : σ) :
    ((edit.run s).1 = none ↔ calm) ∧ ((edit.run s).1 = none → (edit.run s).2 = s) := by
  by_cases isCalm : calm
  · simp [spares.keeps isCalm s, isCalm]
  · simp [spares.replaces isCalm s, isCalm]

/-- A node is replaced if one of its children is. -/
theorem rebuild {calm : Node → Prop} {f : Node → StateM σ (Option Node)} (node : Node)
    (each : ∀ child ∈ node.children, Spares (calm child) (f child)) :
    Spares (∀ child ∈ node.children, calm child)
      (node.rebuild (node.kind.map fun child => (child, f child))) where
  keeps allCalm s := by
    obtain ⟨results, -, answer, state, kept⟩ := Node.rebuild_rule (f := f) (I := fun later => later = s)
      (R := fun _ result _ => result = none) node
      (fun child mem later same => by
        rw [(each child mem).keeps (allCalm child mem) later]
        exact ⟨same, rfl⟩)
      (fun _ _ _ _ _ _ kept => kept) s rfl
    exact Prod.ext (answer.trans ((node.assemble_eq_none_iff results).2 kept)) state
  replaces busy s := by
    obtain ⟨results, same, answer, replaced⟩ := Node.rebuild_each (f := f)
      (R := fun child result => ¬ calm child → result ≠ none) node
      (fun child mem later busy => (each child mem).replaces busy later) s
    rw [answer, Ne, Node.assemble_eq_none_iff]
    intro kept
    refine busy fun child mem => ?_
    rw [Node.children_eq_of_map_fst same] at mem
    obtain ⟨result, isResult, rfl⟩ := List.mem_map.1 mem
    by_contra busyChild
    exact replaced result isResult busyChild (kept result isResult)

end Spares

/-! ## Edits of a scope -/

namespace ForIn

/-- The own scope has no for-in loop. -/
def IsLoopFree (tree : Node) : Prop := ∀ inner ∈ tree.ownScope, inner.form ≠ .forInStatement

theorem spares_lowerAt (node : Node) (label : Option String) :
    Spares (IsLoopFree node) (lowerAt node label) := by
  induction node using Node.inductionOn generalizing label with
  | step node ih =>
    cases node using cases_node with
    | scope node scope =>
      rw [lowerAt_scope scope]
      have free : IsLoopFree node := by
        intro inner mem
        rw [Node.ownScope_eq, if_pos scope] at mem
        cases mem
      exact ⟨fun _ _ => rfl, fun busy => absurd free busy⟩
    | loop span initializer expression body =>
      refine .of_replaced (fun free => ?_) fun s => ?_
      · exact free _ (Node.mem_ownScope_iff.2 ⟨rfl, .inl rfl⟩) rfl
      · rw [run_lowerAt_forIn]
        exact Option.some_ne_none _
    | labeled span inner statement isLoop =>
      have isChild : statement ∈ Node.children ⟨span, .labeledStatement inner statement⟩ := by
        simp [Node.children, Node.kind, Kind.children]
      rw [lowerAt_labeled isLoop]
      refine (ih statement isChild (some inner)).congr ?_
      rw [IsLoopFree, Node.forall_ownScope_iff rfl]
      simp [Node.form, Node.children, Node.kind, Kind.form, Kind.children, IsLoopFree]
    | plain node plain =>
      rw [lowerAt_plain plain]
      refine (Spares.rebuild node fun child mem => ih child mem none).congr ?_
      rw [IsLoopFree, Node.forall_ownScope_iff plain.1]
      exact and_iff_right plain.2.1

end ForIn

namespace Iteration

/-- The own scope has no statement `yield for e;`. -/
def IsDesugared (tree : Node) : Prop :=
  ∀ inner ∈ tree.ownScope, ∀ operand, inner.kind ≠ .suspensionStatement true (some operand)

theorem spares_desugar (helpers : Helpers) (body : Node) :
    Spares (IsDesugared body) (desugar (.standard helpers) body) := by
  unfold desugar
  induction body using Node.inductionOn with
  | step node ih =>
    rw [Node.editOwnScope_eq]
    cases scope : node.isFunctionScope with
    | true =>
      have done : IsDesugared node := by
        intro inner mem
        rw [Node.ownScope_eq, if_pos scope] at mem
        cases mem
      exact ⟨fun _ _ => rfl, fun busy => absurd done busy⟩
    | false =>
      simp only [Bool.false_eq_true, if_false]
      by_cases iterates : ∃ operand, node.kind = .suspensionStatement true (some operand)
      · obtain ⟨operand, isIteration⟩ := iterates
        refine .of_replaced (fun done => ?_) fun s => ?_
        · exact done node (Node.mem_ownScope_iff.2 ⟨scope, .inl rfl⟩) operand isIteration
        · rw [isIteration]
          exact Option.some_ne_none _
      · have other (operand : Node) : node.kind ≠ .suspensionStatement true (some operand) :=
          fun same => iterates ⟨operand, same⟩
        rw [step_eq_rebuild _ _ other]
        refine (Spares.rebuild node ih).congr ?_
        rw [IsDesugared, Node.forall_ownScope_iff scope]
        exact and_iff_right other

end Iteration

/-! ## Runs -/

namespace Node

variable {limit depth : Nat} {node : Node}

/-- There is nothing to do in a tree exactly if no function that the lowering enters suspends at its
own scope. -/
theorem settled_iff_entered :
    node.settled limit depth ↔ ∀ function ∈ node.entered limit depth, function.bodySuspends = false := by
  induction node using inductionOn generalizing depth with
  | step node ih =>
    have children {depth : Nat} : (∀ child ∈ node.children, child.settled limit depth) ↔
        ∀ function ∈ node.children.flatMap fun child => child.entered limit depth,
          function.bodySuspends = false := by
      rw [List.forall_mem_flatMap]
      exact forall₂_congr fun child mem => ih child mem
    cases node using cases_scope with
    | function node body isFunction has mem =>
      rw [settled_function isFunction has, entered_function isFunction has]
      by_cases deep : limit ≤ depth
      · simp [deep]
      · rw [if_neg deep, List.forall_mem_append, ih body mem, ← Lowering.bodySuspends_eq has]
        simp [deep, and_comm]
    | expression node isExpression =>
      rw [settled_expression isExpression, entered_expression isExpression]
      by_cases deep : limit ≤ depth
      · simp [deep]
      · rw [if_neg deep, ← children]
        exact or_iff_right deep
    | plain node plain => rw [settled_plain plain, entered_plain plain, children]

end Node

namespace Lowering

theorem Stats.bodiesLowered_map_sum {α : Type} {f : α → Stats} {g : α → List Node} :
    ∀ l : List α, (∀ a ∈ l, (f a).bodiesLowered = (g a).countP Node.bodySuspends) →
      (l.map f).sum.bodiesLowered = (l.flatMap g).countP Node.bodySuspends
  | [], _ => rfl
  | a :: l, each => by
    rw [List.map_cons, List.sum_cons, List.flatMap_cons, List.countP_append, add_def,
      each a (by simp), bodiesLowered_map_sum l fun b mem => each b (by simp [mem])]

/-- A run lowers the bodies of the functions that it enters and that suspend. -/
theorem bodiesLowered_tally (limit : Nat) (node : Node) (depth : Nat) :
    (tally limit node depth).bodiesLowered =
      (node.entered limit depth).countP Node.bodySuspends := by
  induction node using Node.inductionOn generalizing depth with
  | step node ih =>
    cases node using Node.cases_scope with
    | function node body isFunction has mem =>
      rw [tally_function isFunction has, Node.entered_function isFunction has]
      by_cases deep : limit ≤ depth
      · rw [if_pos deep, if_pos deep]
        rfl
      · have carried : (Stats.carrying (Plan.ofFacts (Facts.of body))).bodiesLowered =
            [node].countP Node.bodySuspends := by
          rw [List.countP_singleton, bodySuspends_eq has, Plan.ofFacts]
          split <;> rfl
        rw [if_neg deep, if_neg deep, List.countP_append, ← ih body mem, ← carried]
        simp only [Stats.add_def, Stats.visit, Stats.zero, Nat.zero_add]
    | expression node isExpression =>
      rw [tally_expression isExpression, Node.entered_expression isExpression]
      by_cases deep : limit ≤ depth
      · rw [if_pos deep, if_pos deep]
        rfl
      · rw [if_neg deep, if_neg deep]
        exact Stats.bodiesLowered_map_sum _ fun child mem => ih child mem (depth + 1)
    | plain node plain =>
      rw [tally_plain plain, Node.entered_plain plain]
      exact Stats.bodiesLowered_map_sum _ fun child mem => ih child mem depth

/-- A run keeps a tree exactly if there is nothing to do in it. -/
theorem lowerNode_eq_none_iff (limit : UInt32) (helpers : Helpers) (node : Node) (s : State Unit) :
    ((lowerNode limit (.standard helpers) node).run s).1 = none ↔ node.settled limit.toNat s.depth := by
  constructor
  · intro kept
    have settled := settled_lowerNode limit helpers node s
    rwa [kept] at settled
  · intro settled
    exact (run_lowerNode_settled _ settled).1

/-- Trees are given back as they were exactly if there is nothing to do in them, and then no name is
taken. Lowering for-in loops keeps a tree without any in its own scope, desugaring one without a
statement `yield for e;` in its own scope, and a run one in which it lowers no body, which is one in
which no function that it enters suspends at its own scope. -/
theorem unchanged_exactly (options : Options) (names : NameSupply) (log : Log) (tree : Node) :
    let walked := (ForIn.lower tree).run names
    let desugared := (Iteration.desugar (.standard options.helpers) tree).run ((), names)
    let outcome := runStandard options names log tree
    (walked.1 = none ↔ ∀ inner ∈ tree.ownScope, inner.form ≠ .forInStatement) ∧
      (walked.1 = none → walked.2 = names) ∧
      (desugared.1 = none ↔ ∀ inner ∈ tree.ownScope, ∀ operand,
        inner.kind ≠ .suspensionStatement true (some operand)) ∧
      (desugared.1 = none → desugared.2.2 = names) ∧
      (outcome.tree = none ↔ outcome.stats.bodiesLowered = 0) ∧
      (outcome.stats.bodiesLowered = 0 ↔
        ∀ function ∈ tree.entered options.maxFunctionDepth.toNat 0, function.bodySuspends = false) ∧
      (outcome.tree = none → outcome.names = names.reserveAll tree.names.toList) := by
  intro walked desugared outcome
  let limit := options.maxFunctionDepth
  let start : State Unit := ⟨(), names.reserveAll tree.names.toList, log, 0, .zero⟩
  obtain ⟨loopFree, noNames⟩ := (ForIn.spares_lowerAt tree none).eq_none_iff names
  obtain ⟨isDesugared, noState⟩ :=
    (Iteration.spares_desugar options.helpers tree).eq_none_iff ((), names)
  have kept : outcome.tree = none ↔ tree.settled limit.toNat 0 :=
    lowerNode_eq_none_iff limit options.helpers tree start
  have counted : outcome.stats.bodiesLowered = (tree.entered limit.toNat 0).countP Node.bodySuspends := by
    have stats : outcome.stats = _ := (stats_lowerNode limit (.standard options.helpers) tree start).2
    rw [stats, Stats.add_def, bodiesLowered_tally]
    exact Nat.zero_add _
  have noBody : outcome.stats.bodiesLowered = 0 ↔
      ∀ function ∈ tree.entered limit.toNat 0, function.bodySuspends = false := by
    rw [counted, List.countP_eq_zero]
    simp only [Bool.not_eq_true]
  refine ⟨loopFree, noNames, isDesugared, fun none => congrArg Prod.snd (noState none), ?_, noBody,
    fun none => ?_⟩
  · rw [kept, noBody, Node.settled_iff_entered]
  · obtain ⟨-, -, taken, -⟩ := run_lowerNode_settled (.standard options.helpers) (s := start) (kept.1 none)
    exact taken

end Lowering

end Resumable
