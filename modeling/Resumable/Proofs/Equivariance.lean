import Resumable.Proofs.Mirror
import Resumable.Proofs.Renaming

/-!
# Runs under new names

If the names that one supply hands out are those of another one under new names, then lowering the
renamed tree with the one does what lowering the tree does with the other: the answer is the renamed
answer, and the same is reported (`mirrors_rename_lowerNode`).  The two supplies stay in step on the
way (`NameSupply.InStep`).  Only the names of the helpers have to be kept, as they come into the tree
from outside.
-/

namespace Resumable

variable {σ τ α β γ δ : Type} {f : String → String}

namespace Mirrors

variable {R : σ → τ → Prop}

theorem map {x : StateM σ α} {y : StateM τ α} (mirrors : Mirrors R x y) (g : α → β) :
    Mirrors R (g <$> x) (g <$> y) := by
  intro s t related
  obtain ⟨same, related⟩ := mirrors s t related
  exact ⟨congrArg g same, related⟩

theorem pure_map (g : α → β) (a : α) : Mirrors R (g <$> (Pure.pure a : StateM σ α)) (Pure.pure (g a)) :=
  fun _ _ related => ⟨rfl, related⟩

/-- Two actions one after the other, if the second run gets changed answers of the first one. -/
theorem bind_map {g : α → β} {h : γ → δ} {x : StateM σ α} {y : StateM τ β} {k : α → StateM σ γ}
    {l : β → StateM τ δ} (first : Mirrors R (g <$> x) y)
    (rest : ∀ a, Mirrors R (h <$> k a) (l (g a))) : Mirrors R (h <$> (x >>= k)) (y >>= l) := by
  intro s t related
  obtain ⟨same, related⟩ := first s t related
  rw [run_bind, ← same]
  exact rest _ _ _ related

/-- An action whose answer does not matter comes first. -/
theorem andThen_map {h : γ → δ} {x : StateM σ α} {y : StateM τ α} {k : α → StateM σ γ}
    {l : α → StateM τ δ} (first : Mirrors R x y) (rest : ∀ a, Mirrors R (h <$> k a) (l a)) :
    Mirrors R (h <$> (x >>= k)) (y >>= l) := by
  intro s t related
  obtain ⟨same, related⟩ := first s t related
  rw [run_bind, ← same]
  exact rest _ _ _ related

/-- Rebuilding a renamed node gives the renamed answer, if the edits of its children do. -/
theorem rebuild_rename {F : Node → StateM σ (Option Node)} {G : Node → StateM τ (Option Node)}
    (node : Node)
    (each : ∀ child ∈ node.children,
      Mirrors R (Option.map (Node.rename f) <$> F child) (G (child.rename f))) :
    Mirrors R
      (Option.map (Node.rename f) <$> node.rebuild (node.kind.map fun child => (child, F child)))
      ((node.rename f).rebuild ((node.rename f).kind.map fun child => (child, G child))) := by
  let renamePair : Node × Option Node → Node × Option Node :=
    Prod.map (Node.rename f) (Option.map (Node.rename f))
  unfold Node.rebuild
  rw [Kind.map_traverse, Kind.map_traverse, Node.kind_rename, Kind.traverse_rename, Kind.map_traverse]
  refine bind_map (g := Kind.rename f ∘ Kind.map renamePair) ?_ fun results => ?_
  · rw [comp_map, ← Kind.traverse_map]
    refine .map (.traverse _ fun child mem => ?_) _
    exact .bind_map (each child mem) fun result => .pure_map _ _
  · have anyReplaced : ((results.map renamePair).rename f).children.any (·.2.isSome) =
        results.children.any (·.2.isSome) := by
      simp [List.any_map, Function.comp_def, renamePair]
    have renamed : Node.rename f ⟨node.span, results.map fun result => result.2.getD result.1⟩ =
        ⟨(node.rename f).span,
          ((results.map renamePair).rename f).map fun result => result.2.getD result.1⟩ := by
      have getD : (fun result : Node × Option Node => (renamePair result).2.getD (renamePair result).1) =
          fun result => (result.2.getD result.1).rename f := by
        funext result
        exact Option.getD_map (Node.rename f) result.1 result.2
      rw [Node.rename_mk, Node.span_rename, ← Kind.rename_map, Kind.map_map, Kind.map_map]
      exact congrArg (fun kind => Node.mk node.span (Kind.rename f kind))
        (congrArg (fun g => results.map g) getD.symm)
    rw [Function.comp_apply, anyReplaced]
    split
    · exact fun s t related => ⟨congrArg some renamed, related⟩
    · exact .pure_map _ _

end Mirrors

/-! ## Supplies in step -/

namespace NameSupply

/-- Two supplies handed out as many names since they began. -/
def InStep (S T s t : NameSupply) : Prop := ∃ n, s = S.after n ∧ t = T.after n

/-- The names that a supply hands out are those of another one under new names. -/
def Renames (f : String → String) (S T : NameSupply) : Prop :=
  ∀ n, T.nextNames n = (S.nextNames n).map f

variable {S T : NameSupply}

theorem InStep.refl (S T : NameSupply) : S.InStep T S T := ⟨0, rfl, rfl⟩

theorem mirrors_takeFresh (renames : S.Renames f T) :
    Mirrors (S.InStep T) (f <$> takeFresh) takeFresh := by
  rintro s t ⟨n, rfl, rfl⟩
  refine ⟨?_, n + 1, (after_add n 1 S).symm, (after_add n 1 T).symm⟩
  have next := renames (n + 1)
  rw [nextNames_add, nextNames_add, renames n, List.map_append] at next
  have last := List.append_cancel_left next
  exact (List.cons.inj last).1.symm

end NameSupply

section

variable {S T : NameSupply} (renames : S.Renames f T)
include renames

/-! ## Loops -/

namespace ForIn

theorem mirrors_take : Mirrors (S.InStep T) (Names.map f <$> Names.take) Names.take := by
  have next := NameSupply.mirrors_takeFresh renames
  exact .bind_map next fun keys => .bind_map next fun collection => .bind_map next fun property =>
    .bind_map next fun index => .pure_map _ _

theorem mirrors_rename_lowerAt (node : Node) (label : Option String) :
    Mirrors (S.InStep T) (Option.map (Node.rename f) <$> lowerAt node label)
      (lowerAt (node.rename f) (label.map f)) := by
  induction node using Node.inductionOn generalizing label with
  | step node ih =>
    cases node using cases_node with
    | scope node scope =>
      rw [lowerAt_scope scope, lowerAt_scope (by rwa [Node.isFunctionScope_rename])]
      exact .pure_map _ _
    | loop span initializer expression body =>
      have each (child : Node) (isChild : child ∈ [initializer, expression, body]) :=
        ih child isChild none
      rw [lowerAt_eq, lowerAt_eq]
      refine .bind_map (each initializer (by simp)) fun first => ?_
      refine .bind_map (each expression (by simp)) fun second => ?_
      refine .bind_map (each body (by simp)) fun third => ?_
      refine .bind_map (mirrors_take renames) fun names => ?_
      have built := rename_loop (f := f) names label span (first.getD initializer)
        (second.getD expression) (third.getD body)
      rw [← Option.getD_map (Node.rename f), ← Option.getD_map (Node.rename f),
        ← Option.getD_map (Node.rename f)] at built
      exact fun s t related => ⟨congrArg some built, related⟩
    | labeled span inner statement isLoop =>
      have isChild : statement ∈ Node.children ⟨span, .labeledStatement inner statement⟩ := by
        simp [Node.children, Node.kind, Kind.children]
      rw [lowerAt_labeled isLoop]
      have stillLoop : (statement.rename f).form = .forInStatement := by rwa [Node.form_rename]
      have renamed : Node.rename f ⟨span, .labeledStatement inner statement⟩ =
          ⟨span, .labeledStatement (f inner) (statement.rename f)⟩ := Node.rename_mk _ _
      rw [renamed, lowerAt_labeled stillLoop]
      exact ih statement isChild (some inner)
    | plain node plain =>
      have stillPlain : IsPlain (node.rename f) := by
        obtain ⟨scope, notLoop, notLabel⟩ := plain
        refine ⟨by rwa [Node.isFunctionScope_rename], by rwa [Node.form_rename], ?_⟩
        intro inner statement isLabeled
        obtain ⟨span, kind⟩ := node
        rw [Node.rename_mk] at isLabeled
        cases kind <;> cases isLabeled
        rw [Node.form_rename]
        exact notLabel _ _ rfl
      rw [lowerAt_plain plain, lowerAt_plain stillPlain]
      exact .rebuild_rename node fun child mem => ih child mem none

end ForIn

namespace ForEach

theorem mirrors_rename_lower {getIterator : String} (kept : f getIterator = getIterator) (node : Node) :
    Mirrors (S.InStep T) (Option.map (Node.rename f) <$> lower getIterator node)
      (lower getIterator (node.rename f)) := by
  have next := NameSupply.mirrors_takeFresh renames
  obtain ⟨span, kind⟩ := node
  rw [Node.rename_mk]
  cases kind
  case forEachStatement initializer expression body =>
    refine .bind_map next fun iterator => .bind_map next fun step => ?_
    have built := rename_loop (f := f) getIterator iterator step span initializer expression body
    rw [kept] at built
    exact fun s t related => ⟨congrArg some built, related⟩
  all_goals exact .pure_map _ _

end ForEach

/-! ## Iterating suspensions -/

/-- The relation of the second of two states. -/
def OfSecond (R : β → γ → Prop) (s : Unit × β) (t : Unit × γ) : Prop := R s.2 t.2

omit renames in
theorem mirrors_onSecond_map {R : β → γ → Prop} {g : α → δ} {x : StateM β α} {y : StateM γ δ}
    (mirrors : Mirrors R (g <$> x) y) :
    Mirrors (OfSecond R) (g <$> (onSecond x : StateM (Unit × β) α)) (onSecond y) :=
  fun s t related => mirrors s.2 t.2 related

namespace Iteration

theorem mirrors_rename_desugar {helpers : Helpers} (kept : f helpers.getIterator = helpers.getIterator)
    (body : Node) :
    Mirrors (OfSecond (S.InStep T))
      (Option.map (Node.rename f) <$> desugar (.standard helpers) body)
      (desugar (.standard helpers) (body.rename f)) := by
  unfold desugar
  induction body using Node.inductionOn with
  | step node ih =>
    rw [Node.editOwnScope_eq, Node.editOwnScope_eq, Node.isFunctionScope_rename]
    by_cases scope : node.isFunctionScope = true
    · rw [if_pos scope, if_pos scope]
      exact .pure_map _ _
    · rw [if_neg scope, if_neg scope]
      by_cases iterates : ∃ operand, node.kind = .suspensionStatement true (some operand)
      · obtain ⟨operand, isIteration⟩ := iterates
        obtain ⟨span, kind⟩ := node
        obtain rfl : kind = .suspensionStatement true (some operand) := isIteration
        rw [Node.rename_mk]
        refine .bind_map (mirrors_onSecond_map (NameSupply.mirrors_takeFresh renames)) fun element => ?_
        have forEach := ForEach.mirrors_rename_lower renames kept (loop element span operand)
        rw [rename_loop] at forEach
        refine .bind_map (mirrors_onSecond_map forEach) fun answer => ?_
        have built : some ((answer.getD (loop element span operand)).rename f) =
            some ((answer.map (Node.rename f)).getD (loop (f element) span (operand.rename f))) := by
          rw [← rename_loop, Option.getD_map]
        exact fun s t related => ⟨built, related⟩
      · have other (operand : Node) : node.kind ≠ .suspensionStatement true (some operand) :=
          fun same => iterates ⟨operand, same⟩
        have stillOther (operand : Node) :
            (node.rename f).kind ≠ .suspensionStatement true (some operand) := by
          obtain ⟨span, kind⟩ := node
          rw [Node.rename_mk]
          cases kind
          case suspensionStatement isIteration expression =>
            cases expression with
            | none => nofun
            | some inner =>
              intro same
              obtain rfl : isIteration = true := (Kind.suspensionStatement.inj same).1
              exact other inner rfl
          all_goals nofun
        rw [step_eq_rebuild _ _ other, step_eq_rebuild _ _ stillOther]
        exact .rebuild_rename node ih

end Iteration

end

/-! ## Bodies -/

/-- Two logs to which the same was added. -/
def Log.InStep (L L' : List Diagnostic) (s t : Log) : Prop :=
  ∃ new, s.toList = L ++ new ∧ t.toList = L' ++ new

theorem Log.mirrors_report (L L' : List Diagnostic) (template : Template) (span : Span)
    (arguments : List String) :
    Mirrors (Log.InStep L L') (Log.report template span arguments)
      (Log.report template span arguments) := by
  rintro s t ⟨new, left, right⟩
  refine ⟨rfl, new ++ [template.diagnose span arguments], ?_, ?_⟩
  · exact Array.toList_push.trans (by rw [left, List.append_assoc])
  · exact Array.toList_push.trans (by rw [right, List.append_assoc])

namespace Delegation

variable {L L' : List Diagnostic}

theorem mirrors_checkGenerator (node : Node) :
    Mirrors (Log.InStep L L') (checkGenerator node) (checkGenerator (node.rename f)) := by
  obtain ⟨span, kind⟩ := node
  rw [Node.rename_mk]
  cases kind
  case suspensionStatement isIteration expression =>
    cases isIteration with
    | true => exact Log.mirrors_report L L' _ _ _
    | false => exact .pure _
  case asyncSuspensionStatement => exact Log.mirrors_report L L' _ _ _
  all_goals exact .pure _

theorem mirrors_rename_lowerGenerator {helpers : Helpers} (kept : f helpers.generator = helpers.generator)
    (body : Node) :
    Mirrors (Log.InStep L L') (Option.map (Node.rename f) <$> lowerGenerator helpers body)
      (lowerGenerator helpers (body.rename f)) := by
  have walked : ∀ nodes : List Node, Mirrors (Log.InStep L L') (nodes.forM checkGenerator)
      ((nodes.map (Node.rename f)).forM checkGenerator) := by
    intro nodes
    induction nodes with
    | nil => exact .pure _
    | cons node rest ih =>
      simp only [List.forM_eq_forM] at ih ⊢
      rw [List.forM_cons, List.map_cons, List.forM_cons]
      exact .bind (mirrors_checkGenerator node) fun _ => ih
  have built := rename_delegate (f := f) helpers.generator body
  rw [kept] at built
  rw [lowerGenerator, lowerGenerator, Node.walkOwnScope_eq, Node.walkOwnScope_eq, Node.ownScope_rename]
  exact .andThen_map (walked _) fun _ s t related => ⟨congrArg some built, related⟩

theorem mirrors_rename_awaits (body : Node) :
    Mirrors (Log.InStep L L') (Option.map (Node.rename f) <$> body.editOwnScope awaitStep)
      ((body.rename f).editOwnScope awaitStep) := by
  induction body using Node.inductionOn with
  | step node ih =>
    have rebuilt := Mirrors.rebuild_rename (f := f) node ih
    rw [Node.editOwnScope_eq, Node.editOwnScope_eq, Node.isFunctionScope_rename]
    by_cases scope : node.isFunctionScope = true
    · rw [if_pos scope, if_pos scope]
      exact .pure_map _ _
    · rw [if_neg scope, if_neg scope]
      obtain ⟨span, kind⟩ := node
      cases kind
      case asyncSuspensionStatement binding operand =>
        have edited := ih operand (by simp [Node.children, Node.kind, Kind.children])
        refine .bind_map edited fun answer => ?_
        have built : Node.rename f ⟨span, .expressionStatement (resume binding (answer.getD operand))⟩ =
            ⟨span, .expressionStatement (resume (binding.map f)
              ((answer.map (Node.rename f)).getD (operand.rename f)))⟩ := by
          rw [Option.getD_map, ← rename_resume]
          exact Node.rename_mk _ _
        exact fun s t related => ⟨congrArg some built, related⟩
      case suspensionStatement =>
        exact .andThen_map (Log.mirrors_report L L' _ _ _) fun _ => .pure_map _ _
      case yieldExpression =>
        exact .andThen_map (Log.mirrors_report L L' _ _ _) fun _ => rebuilt
      all_goals exact rebuilt

theorem mirrors_rename_lowerAsync {helpers : Helpers} (kept : f helpers.awaiter = helpers.awaiter)
    (body : Node) :
    Mirrors (Log.InStep L L') (Option.map (Node.rename f) <$> lowerAsync helpers body)
      (lowerAsync helpers (body.rename f)) := by
  refine .bind_map (mirrors_rename_awaits body) fun edited => ?_
  have built : (delegate helpers.awaiter (edited.getD body)).rename f =
      delegate helpers.awaiter ((edited.map (Node.rename f)).getD (body.rename f)) := by
    rw [rename_delegate, kept, Option.getD_map]
  exact fun s t related => ⟨congrArg some built, related⟩

end Delegation

namespace Lowering

/-! ## Runs -/

/-- The states of two runs that took as many names and reported the same. -/
structure InStep (S T : NameSupply) (L L' : List Diagnostic) (s t : State Unit) : Prop where
  names : S.InStep T s.names t.names
  log : Log.InStep L L' s.log t.log
  depth : s.depth = t.depth

variable {S T : NameSupply} {L L' : List Diagnostic} {helpers : Helpers}

theorem mirrors_step_count (change : Stats → Stats) :
    Mirrors (InStep S T L L') (count change) (count change) := fun _ _ step =>
  ⟨rfl, step.names, step.log, step.depth⟩

theorem mirrors_step_descend (limit : UInt32) (node : Node) :
    Mirrors (InStep S T L L') (descend limit node) (descend limit (node.rename f)) := by
  intro s t step
  by_cases deep : limit.toNat ≤ s.depth
  · have refused : t.refuse limit (node.rename f) = t.refuse limit node := by
      rw [State.refuse, Node.span_rename, State.refuse]
    have reported := Log.mirrors_report L L' .nestingTooDeep node.span [toString limit.toNat] _ _ step.log
    rw [run_descend_deep deep, run_descend_deep (step.depth ▸ deep), refused]
    exact ⟨rfl, step.names, reported.2, step.depth⟩
  · have room : s.depth < limit.toNat := Nat.lt_of_not_le deep
    rw [run_descend_room room, run_descend_room (step.depth ▸ room)]
    exact ⟨rfl, step.names, step.log, congrArg (· + 1) step.depth⟩

theorem mirrors_step_ascend : Mirrors (InStep S T L L') ascend ascend := fun _ _ step =>
  ⟨rfl, step.names, step.log, congrArg (· - 1) step.depth⟩

theorem mirrors_step_withNames {g : α → β} {x : StateM (Unit × NameSupply) α}
    {y : StateM (Unit × NameSupply) β} (mirrors : Mirrors (OfSecond (S.InStep T)) (g <$> x) y) :
    Mirrors (InStep S T L L') (g <$> withNames x) (withNames y) := by
  intro s t step
  obtain ⟨same, names⟩ := mirrors (s.engines, s.names) (t.engines, t.names) step.names
  exact ⟨same, names, step.log, step.depth⟩

theorem mirrors_step_withLog {g : α → β} {x : StateM (Unit × Log) α} {y : StateM (Unit × Log) β}
    (mirrors : Mirrors (OfSecond (Log.InStep L L')) (g <$> x) y) :
    Mirrors (InStep S T L L') (g <$> withLog x) (withLog y) := by
  intro s t step
  obtain ⟨same, log⟩ := mirrors (s.engines, s.log) (t.engines, t.log) step.log
  exact ⟨same, step.names, log, step.depth⟩

/-- A stage that gives renamed answers for renamed trees. -/
def StageRenames (S T : NameSupply) (L L' : List Diagnostic) (f : String → String)
    (stage : Node → Run Unit (Option Node)) : Prop :=
  ∀ tree, Mirrors (InStep S T L L') (Option.map (Node.rename f) <$> stage tree) (stage (tree.rename f))

theorem mirrors_rename_andThen {stage : Node → Run Unit (Option Node)}
    (renames : StageRenames S T L L' f stage) (tree : Node) (soFar : Option Node) :
    Mirrors (InStep S T L L') (Option.map (Node.rename f) <$> andThen stage tree soFar)
      (andThen stage (tree.rename f) (soFar.map (Node.rename f))) := by
  unfold andThen
  rw [Option.getD_map]
  refine .bind_map (renames _) fun answer => ?_
  have joined : (answer.or soFar).map (Node.rename f) =
      (answer.map (Node.rename f)).or (soFar.map (Node.rename f)) := by
    cases answer <;> rfl
  exact fun s t related => ⟨joined, related⟩

/-- The new names keep those of the helpers. -/
def KeepsHelpers (f : String → String) (helpers : Helpers) : Prop :=
  f helpers.getIterator = helpers.getIterator ∧ f helpers.generator = helpers.generator ∧
    f helpers.awaiter = helpers.awaiter

section Rename

variable (renames : S.Renames f T) (kept : KeepsHelpers f helpers)
include renames kept

theorem mirrors_rename_carryOut (body : Node) (nested : Option Node) (plan : Option Plan) :
    Mirrors (InStep S T L L')
      (Option.map (Node.rename f) <$> carryOut (.standard helpers) body nested plan)
      (carryOut (.standard helpers) (body.rename f) (nested.map (Node.rename f)) plan) := by
  obtain ⟨getIterator, generator, awaiter⟩ := kept
  cases plan with
  | none => exact .pure_map _ _
  | some plan =>
    have forIn : StageRenames S T L L' f (forInStage (.standard helpers) plan) := by
      intro tree
      unfold forInStage
      split
      · exact .andThen_map (mirrors_step_count _) fun _ => mirrors_step_withNames
          (mirrors_onSecond_map (ForIn.mirrors_rename_lowerAt renames tree none))
      · exact .pure_map _ _
    have iteration : StageRenames S T L L' f (iterationStage (.standard helpers) plan) := by
      intro tree
      unfold iterationStage
      split
      · exact .andThen_map (mirrors_step_count _) fun _ => mirrors_step_withNames
          (Iteration.mirrors_rename_desugar renames getIterator tree)
      · exact .pure_map _ _
    have target : StageRenames S T L L' f (targetStage (.standard helpers) plan) := by
      intro tree
      unfold targetStage
      split
      · exact .andThen_map (mirrors_step_count _) fun _ => mirrors_step_withLog
          (mirrors_onSecond_map (Delegation.mirrors_rename_lowerGenerator generator tree))
      · exact .andThen_map (mirrors_step_count _) fun _ => mirrors_step_withLog
          (mirrors_onSecond_map (Delegation.mirrors_rename_lowerAsync awaiter tree))
    exact .andThen_map (mirrors_step_count _) fun _ =>
      .bind_map (mirrors_rename_andThen forIn body nested) fun walked =>
        .bind_map (mirrors_rename_andThen iteration body walked) fun desugared =>
          mirrors_rename_andThen target body desugared

/-- Lowering a renamed tree with a supply whose names are renamed gives the renamed answer, and
reports the same. -/
theorem mirrors_rename_lowerNode (limit : UInt32) (node : Node) :
    Mirrors (InStep S T L L')
      (Option.map (Node.rename f) <$> lowerNode limit (.standard helpers) node)
      (lowerNode limit (.standard helpers) (node.rename f)) := by
  induction node using Node.inductionOn with
  | step node ih =>
    cases node using Node.cases_scope with
    | function node body isFunction has mem =>
      have stillFunction : (node.rename f).isFunctionLike = true := by
        rwa [Node.isFunctionLike_rename]
      have hasRenamed : (node.rename f).body? = some (body.rename f) := by
        rw [Node.body?_rename, has]
        rfl
      rw [lowerNode_function limit _ isFunction has, lowerNode_function limit _ stillFunction hasRenamed]
      refine .andThen_map (mirrors_step_count _) fun _ =>
        .andThen_map (mirrors_step_descend limit node) fun entered => ?_
      cases entered with
      | false => exact .pure_map _ _
      | true =>
        have lowered : Mirrors (InStep S T L L')
            (Option.map (Node.rename f) <$> lowerBody (.standard helpers) body
              (lowerNode limit (.standard helpers) body))
            (lowerBody (.standard helpers) (body.rename f)
              (lowerNode limit (.standard helpers) (body.rename f))) := by
          rw [lowerBody_eq, lowerBody_eq]
          refine .bind_map (ih body mem) fun nested => ?_
          rw [Option.getD_map, Facts.of_rename]
          exact mirrors_rename_carryOut renames kept body nested _
        refine .bind_map lowered fun result => .andThen_map mirrors_step_ascend fun _ => ?_
        have replaced : (node.replaceBody result).map (Node.rename f) =
            (node.rename f).replaceBody (result.map (Node.rename f)) := by
          simp only [Node.replaceBody, has, hasRenamed, Option.isSome_some, if_true, Option.map_map]
          exact congrArg (Option.map · result) (funext fun body => Node.rename_withBody node body)
        exact fun s t related => ⟨replaced, related⟩
    | expression node isExpression =>
      have stillExpression : (node.rename f).form = .functionExpression := by rwa [Node.form_rename]
      rw [lowerNode_expression limit _ isExpression, lowerNode_expression limit _ stillExpression]
      refine .andThen_map (mirrors_step_descend limit node) fun entered => ?_
      cases entered with
      | false => exact .pure_map _ _
      | true =>
        exact .bind_map (.rebuild_rename node ih) fun rebuilt =>
          .andThen_map mirrors_step_ascend fun _ => .pure_map _ _
    | plain node plain =>
      rw [lowerNode_plain limit _ plain,
        lowerNode_plain limit _ (show (node.rename f).isFunctionScope = false by
          rwa [Node.isFunctionScope_rename])]
      exact .rebuild_rename node ih

end Rename

end Lowering

end Resumable
