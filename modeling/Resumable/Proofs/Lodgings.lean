import Resumable.Proofs.LoopAllotments
import Resumable.Proofs.Reworked

/-!
# Where the names of one body stand

Carrying out the plan of a body takes names for its for-in loops and then for the iterating suspensions
that are left (`Allotted`).  What comes out of the body (`Lodges`) contains the names that were taken,
brings in no others but those of the helpers, and still contains the names that one of the functions
in the body contained before, or has lost them with that function.
-/

namespace Resumable

/-- The names of the helpers. -/
def Helpers.names (helpers : Helpers) : List String :=
  [helpers.getIterator, helpers.generator, helpers.awaiter]

namespace Node

theorem functions_subset_subtree (node : Node) : node.functions false ⊆ node.subtree := by
  induction node using inductionOn with
  | step node ih =>
    intro inner mem
    cases scope : node.isFunctionScope with
    | true =>
      rw [functions_of_scope false scope, List.mem_singleton] at mem
      exact mem ▸ self_mem_subtree node
    | false =>
      rw [functions_of_not_scope false scope, keptChildren_false] at mem
      obtain ⟨child, isChild, mem⟩ := List.mem_flatMap.1 mem
      exact mem_subtree_iff.2 (.inr ⟨child, isChild, ih child isChild mem⟩)

/-- The nodes of the functions that stand in a scope. -/
def inFunctions (node : Node) : List Node := (node.functions false).flatMap subtree

theorem inFunctions_subset_subtree (node : Node) : node.inFunctions ⊆ node.subtree := by
  intro inner mem
  obtain ⟨function, isFunction, mem⟩ := List.mem_flatMap.1 mem
  exact subtree_subset (functions_subset_subtree node isFunction) mem

theorem inFunctions_of_scope {node : Node} (scope : node.isFunctionScope = true) :
    node.inFunctions = node.subtree := by
  rw [inFunctions, functions_of_scope false scope, List.flatMap_singleton]

theorem inFunctions_child_subset {node child : Node} (isChild : child ∈ node.children) :
    child.inFunctions ⊆ node.inFunctions := by
  cases scope : node.isFunctionScope with
  | true =>
    rw [inFunctions_of_scope scope]
    exact List.Subset.trans (inFunctions_subset_subtree child)
      (subtree_subset (mem_subtree_iff.2 (.inr ⟨child, isChild, self_mem_subtree child⟩)))
  | false =>
    rw [inFunctions, inFunctions, functions_of_not_scope false scope, keptChildren_false,
      List.flatMap_assoc]
    exact fun inner mem => List.mem_flatMap.2 ⟨child, isChild, mem⟩

/-- If the functions of a scope all stand in another one, and a name stands only in one function of
that, then it stands only in this function here. -/
theorem tally_le_of_function {node function : Node} (isFunction : function ∈ node.functions false)
    (w : Weight) {other : Node} (isOther : other ∈ node.functions false) (ne : other ≠ function)
    (isMember : Bool) :
    node.census (.within w) false isMember + function.tally w + other.tally w ≤ node.tally w := by
  rw [tally_eq_within_add w node isMember]
  obtain ⟨pre, post, split⟩ := List.append_of_mem isFunction
  have inRest : other ∈ pre ++ post := by
    rw [split] at isOther
    simp only [List.mem_append, List.mem_cons] at isOther ⊢
    tauto
  have le : other.tally w ≤ ((pre ++ post).map (tally w)).sum :=
    List.le_sum_of_mem (List.mem_map_of_mem inRest)
  rw [split]
  simp only [List.map_append, List.sum_append, List.map_cons, List.sum_cons] at le ⊢
  omega

end Node

namespace Lowering

/-! ## One body -/

/-- Lowering the functions in a scope keeps its for-in loops. -/
theorem loops_lowerNode {σ : Type} (limit : UInt32) (engines : Engines σ) (node : Node)
    (s : State σ) : (((lowerNode limit engines node).run s).1.getD node).loops = node.loops := by
  induction node using Node.inductionOn generalizing s with
  | step node ih =>
    have kept := isFunctionScope_lowerNode limit engines node s
    cases scope : node.isFunctionScope with
    | true =>
      funext outer
      rw [Node.loops_scope (kept.trans scope), Node.loops_scope scope]
    | false =>
      obtain ⟨results, same, answer, related⟩ := Node.rebuild_each
        (R := fun child result => (result.getD child).form = child.form ∧
          (result.getD child).loops = child.loops) node
        (fun child mem s => ⟨form_lowerNode limit engines child s, ih child mem s⟩) s
      rw [lowerNode_plain limit _ scope, answer, Node.assemble_getD same]
      refine (Node.loops_map Prod.fst _ node.span related).trans ?_
      rw [Node.mk_of_map_fst same]

section Stages

variable (helpers : Helpers) (plan : Plan) (tree : Node) (names : NameSupply)

theorem allots_walked :
    let out := walked plan tree names
    ∃ loops, names.Allots loops out.2 ∧ ForIn.AreNested loops ∧
      loops.map Allotment.key = (if plan.lowerForIn then tree.loops none else []) ∧
      (∀ (w : Weight) name, w.IsAbout name → name ∉ loops.flatMap Allotment.names →
        out.1.tally w ≤ tree.tally w) ∧
      ((∀ name ∈ loops.flatMap Allotment.names, ¬ tree.uses name) →
        ∀ a ∈ loops, a.IsContained out.1.ownScope out.1) := by
  intro out
  cases lowers : plan.lowerForIn with
  | false =>
    have outEq : out = (tree, names) := by simp [out, walked, lowers]
    rw [outEq]
    exact ⟨[], NameSupply.isTrace_allots.nil names, List.forall_mem_nil _, rfl,
      fun _ _ _ _ => Nat.le_refl _, fun _ => List.forall_mem_nil _⟩
  | true =>
    obtain ⟨below, root, allots, houses⟩ := ForIn.houses_lowerAt tree none names
    have outEq : out = (((ForIn.lowerAt tree none).run names).1.getD tree,
        ((ForIn.lowerAt tree none).run names).2) := by
      simp only [out, walked, lowers, if_true]
      rfl
    rw [outEq]
    exact ⟨below ++ root, allots, houses.areNested, houses.map_key,
      fun _ _ about notGiven => houses.tally_le_unlabeled about notGiven,
      fun new a mem => houses.all (fun name isName => ⟨new name isName, (Option.some_ne_none _).symm⟩) mem⟩

theorem allots_desugared :
    let out := desugared helpers plan tree names
    ∃ yields, names.Allots yields out.2 ∧
      yields.map Allotment.key = (if plan.desugarIteration then
        tree.iterations.map fun statement => (statement.span, none) else []) ∧
      Reworked helpers.getIterator tree yields out.1 := by
  intro out
  cases desugars : plan.desugarIteration with
  | false =>
    have outEq : out = (tree, names) := by simp [out, desugared, desugars]
    rw [outEq]
    exact ⟨[], NameSupply.isTrace_allots.nil names, rfl, .kept tree⟩
  | true =>
    have outEq : out = (((Iteration.desugar (.standard helpers) tree).run ((), names)).1.getD tree,
        ((Iteration.desugar (.standard helpers) tree).run ((), names)).2.2) := by
      simp only [out, desugared, desugars, if_true]
    rw [outEq]
    exact Iteration.reworked_desugar helpers tree ((), names)

theorem reworked_rewritten (getIterator : String) (log : Log) :
    Reworked getIterator tree [] (rewritten plan tree log) := by
  unfold rewritten
  split
  · exact .kept tree
  · exact Delegation.reworked_awaitStep getIterator tree log

theorem functions_moved_subset (log : Log) :
    (moved helpers plan tree names log).functions false ⊆ tree.functions false := by
  have walked_subset : (walked plan tree names).1.functions false ⊆ tree.functions false := by
    unfold walked
    split
    · intro function mem
      exact Node.functions_true_subset tree ((ForIn.mem_functions_lowerAt tree none names function).1 mem)
    · exact List.Subset.refl _
  have desugared_eq (tree : Node) (names : NameSupply) :
      (desugared helpers plan tree names).1.functions false = tree.functions false := by
    unfold desugared
    split
    · exact Iteration.functions_desugar helpers tree ((), names)
    · rfl
  have rewritten_eq (tree : Node) : (rewritten plan tree log).functions false = tree.functions false := by
    unfold rewritten
    split
    · rfl
    · exact Delegation.functions_awaitStep tree log
  rw [moved, rewritten_eq, desugared_eq]
  exact walked_subset

end Stages

/-- What was taken for the body of a function, once the functions inside it were lowered to give
`inner`: names for each for-in loop of its scope, and then for each iterating suspension that is there
when the loops are lowered. -/
def Allotted (function inner : Node) (own : List Allotment) : Prop :=
  ∃ body, function.body? = some body ∧
    match Plan.ofFacts (Facts.of body) with
    | none => own = []
    | some plan => ∃ supply loops yields, own = loops ++ yields ∧ ForIn.AreNested loops ∧
      loops.map Allotment.key = (if plan.lowerForIn then body.loops none else []) ∧
      yields.map Allotment.key = (if plan.desugarIteration then
        (walked plan inner supply).1.iterations.map fun statement => (statement.span, none) else [])

/-- What carrying out the plan of a body leaves: names that were not taken stand in fewer places, those
that were taken are contained in the result, and those that were contained in one of the functions in
the body still are. -/
structure Lodges (helpers : Helpers) (inner : Node) (own : List Allotment) (result : Node) : Prop where
  tally_le : ∀ (w : Weight) name, w.IsAbout name → name ∉ own.flatMap Allotment.names →
    name ∉ helpers.names → result.tally w ≤ inner.tally w
  contains : (∀ name ∈ own.flatMap Allotment.names, ¬ inner.uses name ∧ name ∉ helpers.names) →
    ∀ a ∈ own, a.IsContained result.inFunctions result
  keeps : ∀ a : Allotment, (∀ name ∈ a.names,
      name ∉ own.flatMap Allotment.names ∧ name ∉ helpers.names) →
    a.IsContained inner.inFunctions inner → a.IsContained result.inFunctions result

/-- What is known of a body before it is handed to a helper. -/
structure Prepares (helpers : Helpers) (inner : Node) (own : List Allotment) (moved : Node) : Prop where
  tally_le : ∀ (w : Weight) name, w.IsAbout name → name ∉ own.flatMap Allotment.names →
    name ≠ helpers.getIterator → moved.tally w ≤ inner.tally w
  within_le : ∀ (w : Weight) name, w.IsAbout name → name ∉ own.flatMap Allotment.names →
    name ≠ helpers.getIterator →
      moved.census (.within w) false false ≤ inner.census (.within w) false false
  contains : (∀ name ∈ own.flatMap Allotment.names,
    ¬ inner.uses name ∧ name ≠ helpers.getIterator) →
      ∀ a ∈ own, a.IsContained moved.ownScope moved
  functions : moved.functions false ⊆ inner.functions false

namespace Prepares

variable {helpers : Helpers} {inner moved : Node} {own : List Allotment}

/-- If a name stands in only one of the functions of a body, and that one is dropped, then the name
does not stand in what comes out. -/
theorem occurrences_eq_zero (prepares : Prepares helpers inner own moved) {name : String}
    (notGiven : name ∉ own.flatMap Allotment.names) (notHelper : name ≠ helpers.getIterator)
    {function : Node} (isFunction : function ∈ inner.functions false)
    (all : inner.occurrences name ≤ function.occurrences name)
    (dropped : function ∉ moved.functions false) : moved.occurrences name = 0 := by
  have about := Weight.isAbout_bearing name
  have within := prepares.within_le _ name about notGiven notHelper
  have inScope : inner.census (.within (.bearing name)) false false = 0 := by
    have le := Node.tally_eq_within_add (.bearing name) inner false
    have inSum : function.tally (.bearing name) ≤
        ((inner.functions false).map (Node.tally (.bearing name))).sum :=
      List.le_sum_of_mem (List.mem_map_of_mem isFunction)
    unfold Node.occurrences at all
    omega
  have elsewhere (other : Node) (isOther : other ∈ moved.functions false) :
      other.tally (.bearing name) = 0 := by
    have ne : other ≠ function := fun same => dropped (same ▸ isOther)
    have le := Node.tally_le_of_function isFunction (.bearing name) (prepares.functions isOther) ne
      false
    unfold Node.occurrences at all
    omega
  have none : ((moved.functions false).map (Node.tally (.bearing name))).sum = 0 :=
    List.sum_eq_zero fun count mem => by
      obtain ⟨other, isOther, rfl⟩ := List.mem_map.1 mem
      exact elsewhere other isOther
  rw [Node.occurrences, Node.tally_eq_within_add _ _ false, none]
  omega

/-- Names that one of the functions in a body contains, it contains afterwards, or they are gone with
it. -/
theorem keeps (prepares : Prepares helpers inner own moved) {a : Allotment}
    (apart : ∀ name ∈ a.names, name ∉ own.flatMap Allotment.names ∧ name ≠ helpers.getIterator)
    (contained : a.IsContained inner.inFunctions inner) : a.IsContained moved.subtree moved := by
  have le (name : String) (mem : name ∈ a.names) : moved.occurrences name ≤ inner.occurrences name :=
    prepares.tally_le _ name (Weight.isAbout_bearing name) (apart name mem).1 (apart name mem).2
  refine ⟨fun name mem => ?_, ?_⟩
  · exact Nat.le_trans (prepares.tally_le _ name (Weight.isAbout_declaring name) (apart name mem).1
      (apart name mem).2) (contained.once name mem)
  · rcases contained.inside with unused | ⟨block, place, home, inside⟩
    · exact .inl fun name mem => Nat.le_zero.1 (unused name mem ▸ le name mem)
    · obtain ⟨function, isFunction, inFunction⟩ := List.mem_flatMap.1 place
      by_cases stays : function ∈ moved.functions false
      · have place' : block ∈ moved.subtree :=
          Node.inFunctions_subset_subtree moved (List.mem_flatMap.2 ⟨function, stays, inFunction⟩)
        refine .inr ⟨block, place', home, fun name mem => ?_⟩
        exact Nat.le_antisymm (Node.tally_le_of_mem place') (inside name mem ▸ le name mem)
      · refine .inl fun name mem => ?_
        refine prepares.occurrences_eq_zero (apart name mem).1 (apart name mem).2 isFunction ?_ stays
        exact inside name mem ▸ Node.tally_le_of_mem inFunction

theorem subtree_subset_inFunctions (helper : String) (body : Node) :
    body.subtree ⊆ (Delegation.delegate helper body).inFunctions := by
  rw [Node.inFunctions, Delegation.functions_delegate, List.flatMap_singleton]
  exact Node.subtree_subset (Node.mem_subtree_iff.2 (.inr ⟨body,
    by simp [Build.functionExpression, Node.synthetic, Node.children, Node.kind, Kind.children],
    Node.self_mem_subtree body⟩))

/-- The helper that drives a body adds nothing to the names that are none of the helpers. -/
theorem lodges (prepares : Prepares helpers inner own moved) {driver : String}
    (isHelper : driver ∈ helpers.names) :
    Lodges helpers inner own (Delegation.delegate driver moved) := by
  have ne {name : String} (notHelper : name ∉ helpers.names) : name ≠ helpers.getIterator :=
    fun same => notHelper (same ▸ .head _)
  have tally {w : Weight} {name : String} (about : w.IsAbout name) (notHelper : name ∉ helpers.names) :
      (Delegation.delegate driver moved).tally w = moved.tally w := by
    rw [Delegation.tally_delegate, about.other _ _ fun same => notHelper (same ▸ isHelper),
      Nat.zero_add]
  refine ⟨fun w name about notGiven notHelper => ?_, fun new a mem => ?_, fun a apart contained => ?_⟩
  · exact (tally about notHelper).trans_le
      (prepares.tally_le w name about notGiven (ne notHelper))
  · refine (prepares.contains (fun name isName => ⟨(new name isName).1, ne (new name isName).2⟩) a
      mem).around (fun name isName w about => ?_)
      (List.Subset.trans (Node.ownScope_subset_subtree moved) (subtree_subset_inFunctions driver moved))
    exact tally about (new name (List.mem_flatMap.2 ⟨a, mem, isName⟩)).2
  · refine (prepares.keeps (fun name isName => ⟨(apart name isName).1, ne (apart name isName).2⟩)
      contained).around (fun name isName w about => ?_) (subtree_subset_inFunctions driver moved)
    exact tally about (apart name isName).2

end Prepares

theorem prepares_moved (helpers : Helpers) (plan : Plan) (tree : Node) (names : NameSupply)
    (log : Log) :
    let walked := walked plan tree names
    ∃ loops yields, names.Allots (loops ++ yields) (desugared helpers plan walked.1 walked.2).2 ∧
      ForIn.AreNested loops ∧
      loops.map Allotment.key = (if plan.lowerForIn then tree.loops none else []) ∧
      yields.map Allotment.key = (if plan.desugarIteration then
        walked.1.iterations.map fun statement => (statement.span, none) else []) ∧
      Prepares helpers tree (loops ++ yields) (moved helpers plan tree names log) := by
  intro walked
  obtain ⟨loops, allots₁, nested, keys₁, le, contained⟩ := allots_walked plan tree names
  obtain ⟨yields, allots₂, keys₂, reworked⟩ := allots_desugared helpers plan walked.1 walked.2
  have awaits := reworked_rewritten plan (desugared helpers plan walked.1 walked.2).1
    helpers.getIterator log
  have allots := NameSupply.isTrace_allots.append allots₁ allots₂
  refine ⟨loops, yields, allots, nested, keys₁, keys₂, ?_, ?_, ?_,
    functions_moved_subset helpers plan tree names log⟩
  · intro w name about notGiven notHelper
    rw [List.flatMap_append, List.mem_append, not_or] at notGiven
    rw [moved, awaits.tally_eq about List.not_mem_nil notHelper,
      reworked.tally_eq about notGiven.2 notHelper]
    exact le w name about notGiven.1
  · intro w name about notGiven notHelper
    obtain ⟨taken, gives, census⟩ := census_moved helpers plan tree names log
    have ignores : ∀ other ∈ taken, (Census.within w).Ignores other := fun other mem =>
      Census.ignores_of_isAbout about (fun same =>
        notGiven ((gives.mem_iff_mem allots name).1 (same ▸ mem))) _
    rw [census _ ignores (about.other _ _ notHelper.symm) (fun _ _ => rfl) about.awaits]
    cases plan.lowerForIn
    · exact Nat.le_refl _
    · exact Node.census_true_le _ tree false
  · intro new
    have nodup := NameSupply.Gives.nodup allots
    rw [List.flatMap_append, List.nodup_append'] at nodup
    obtain ⟨-, distinct, apart⟩ := nodup
    rw [List.flatMap_append] at new
    have newLoops (name : String) (isName : name ∈ loops.flatMap Allotment.names) :=
      new name (List.mem_append_left _ isName)
    have newYields (name : String) (isName : name ∈ yields.flatMap Allotment.names) :=
      new name (List.mem_append_right _ isName)
    have last {a : Allotment} (notHelper : ∀ name ∈ a.names, name ≠ helpers.getIterator) :=
      awaits.contained (a := a) fun name isName => ⟨List.not_mem_nil, notHelper name isName⟩
    intro a mem
    have given {allotments : List Allotment} (mem : a ∈ allotments) {name : String}
        (isName : name ∈ a.names) : name ∈ allotments.flatMap Allotment.names :=
      List.mem_flatMap.2 ⟨a, mem, isName⟩
    rcases List.mem_append.1 mem with mem | mem
    · refine last (fun name isName => (newLoops name (given mem isName)).2) ?_
      refine reworked.contained (fun name isName => ?_) (contained (fun name isName => (newLoops name isName).1) a mem)
      exact ⟨apart (given mem isName), (newLoops name (given mem isName)).2⟩
    · refine last (fun name isName => (newYields name (given mem isName)).2) ?_
      refine reworked.contains distinct (fun name isName => ⟨?_, (newYields name isName).2⟩) a mem
      -- The loops brought in no name that was not taken for them.
      exact Node.not_uses_of_occurrences_le
        (le _ name (Weight.isAbout_bearing name) fun taken => apart taken isName)
        (newYields name isName).1

theorem lodges_carryOut (limit : UInt32) (helpers : Helpers) {function body : Node}
    {nested : Option Node} {s : State Unit} (has : function.body? = some body)
    (lowered : ∃ before, (lowerNode limit (.standard helpers) body).run before = (nested, s)) :
    let out := (carryOut (.standard helpers) body nested (Plan.ofFacts (Facts.of body))).run s
    ∃ own, s.names.Allots own out.2.names ∧ Allotted function (nested.getD body) own ∧
      Lodges helpers (nested.getD body) own (out.1.getD body) := by
  intro out
  unfold Allotted
  cases hasPlan : Plan.ofFacts (Facts.of body) with
  | none =>
    have outEq : out = (nested, s) := by
      simp only [out, hasPlan]
      rfl
    rw [outEq]
    refine ⟨[], NameSupply.isTrace_allots.nil _, ⟨body, has, by rw [hasPlan]⟩, fun _ _ _ _ _ => ?_, ?_, ?_⟩
    · exact Nat.le_refl _
    · exact fun _ => List.forall_mem_nil _
    · exact fun _ _ contained => contained
  | some plan =>
    obtain ⟨result, names⟩ := carryOut_standard helpers plan body nested s
    obtain ⟨loops, yields, allots, nest, keys₁, keys₂, prepares⟩ :=
      prepares_moved helpers plan (nested.getD body) s.names s.log
    obtain ⟨before, run⟩ := lowered
    have loopsEq : (nested.getD body).loops = body.loops := by
      have kept := loops_lowerNode limit (.standard helpers) body before
      rwa [run] at kept
    simp only [out, hasPlan]
    refine ⟨loops ++ yields, names ▸ allots, ⟨body, has, ?_⟩, ?_⟩
    · rw [hasPlan]
      exact ⟨s.names, loops, yields, rfl, nest, loopsEq ▸ keys₁, keys₂⟩
    · rw [result]
      refine prepares.lodges ?_
      unfold driver Helpers.names
      split <;> simp

end Lowering

end Resumable
