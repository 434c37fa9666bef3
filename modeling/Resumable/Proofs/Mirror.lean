import Resumable.Proofs.Course

/-!
# Runs that mirror one another

Two actions mirror one another under a relation of their states if from related states they give the
same answer and come to related states.  Engines that mirror one another make mirroring runs
(`mirrors_lowerNode`), so engines that keep a record beside their own state can stand for those that
they record.
-/

namespace Resumable

variable {σ τ α β : Type}

/-- From related states, both actions give the same answer and come to related states. -/
def Mirrors (R : σ → τ → Prop) (x : StateM σ α) (y : StateM τ α) : Prop :=
  ∀ s t, R s t → (x.run s).1 = (y.run t).1 ∧ R (x.run s).2 (y.run t).2

namespace Mirrors

variable {R : σ → τ → Prop}

theorem pure (a : α) : Mirrors R (Pure.pure a) (Pure.pure a) := fun _ _ related => ⟨rfl, related⟩

theorem bind {x : StateM σ α} {y : StateM τ α} {f : α → StateM σ β} {g : α → StateM τ β}
    (first : Mirrors R x y) (rest : ∀ a, Mirrors R (f a) (g a)) :
    Mirrors R (x >>= f) (y >>= g) := by
  intro s t related
  obtain ⟨same, related⟩ := first s t related
  rw [run_bind, run_bind, ← same]
  exact rest _ _ _ related

theorem mapM {f : α → StateM σ β} {g : α → StateM τ β} :
    ∀ l : List α, (∀ a ∈ l, Mirrors R (f a) (g a)) → Mirrors R (l.mapM f) (l.mapM g)
  | [], _ => pure _
  | a :: l, each => by
    rw [List.mapM_cons, List.mapM_cons]
    refine bind (each a (by simp)) fun b => ?_
    exact bind (mapM l fun a' mem => each a' (by simp [mem])) fun bs => pure _

theorem optionMapM {f : α → StateM σ β} {g : α → StateM τ β} (o : Option α)
    (each : ∀ a ∈ o, Mirrors R (f a) (g a)) : Mirrors R (o.mapM f) (o.mapM g) := by
  cases o with
  | none => exact pure _
  | some a => exact bind (each a rfl) fun b => pure _

theorem traverse {f : α → StateM σ β} {g : α → StateM τ β} (k : Kind α)
    (each : ∀ a ∈ k.children, Mirrors R (f a) (g a)) : Mirrors R (k.traverse f) (k.traverse g) := by
  cases k <;> simp only [Kind.traverse]
  all_goals
    repeat' first
      | exact pure _
      | refine bind ?_ fun _ => ?_
      | exact mapM _ fun a mem => each a (by simp [Kind.children, mem])
      | exact optionMapM _ fun a mem => each a (by simp_all [Kind.children])
      | exact each _ (by simp [Kind.children])

theorem rebuild {f : Node → StateM σ (Option Node)} {g : Node → StateM τ (Option Node)}
    (node : Node) (each : ∀ child ∈ node.children, Mirrors R (f child) (g child)) :
    Mirrors R (node.rebuild (node.kind.map fun child => (child, f child)))
      (node.rebuild (node.kind.map fun child => (child, g child))) := by
  -- Both rebuilds traverse the kind of the node itself, each with its own edits.
  unfold Node.rebuild
  rw [Kind.map_traverse, Kind.map_traverse]
  refine bind (traverse _ fun child mem => bind (each child mem) fun _ => pure _) fun results => ?_
  split <;> exact pure _

end Mirrors

/-! ## Engines -/

/-- The own states of two engines are related, and what stands beside them is the same. -/
def Beside {ρ : Type} (r : σ → τ → Prop) (s : σ × ρ) (t : τ × ρ) : Prop :=
  r s.1 t.1 ∧ s.2 = t.2

/-- Engines that mirror one another. -/
structure Engines.Mirror (r : σ → τ → Prop) (engines : Engines σ) (others : Engines τ) : Prop where
  forIn : ∀ body, Mirrors (Beside r) (engines.forIn body) (others.forIn body)
  forEach : ∀ loop, Mirrors (Beside r) (engines.forEach loop) (others.forEach loop)
  generator : ∀ body, Mirrors (Beside r) (engines.generator body) (others.generator body)
  async : ∀ body, Mirrors (Beside r) (engines.async body) (others.async body)

theorem mirrors_onSecond {ρ : Type} (r : σ → τ → Prop) (action : StateM ρ α) :
    Mirrors (Beside r) (onSecond action) (onSecond action) := by
  rintro ⟨own, s⟩ ⟨other, t⟩ ⟨related, same⟩
  obtain rfl : s = t := same
  exact ⟨rfl, related, rfl⟩

/-- Lets an action pass by something that stands beside the state of the engines. -/
def past {ρ ι : Type} (action : StateM (σ × ι) α) : StateM ((σ × ρ) × ι) α := fun ((own, kept), state) =>
  let (answer, own, state) := action.run (own, state)
  (answer, (own, kept), state)

/-- The state of an engine, beside something that has a value. -/
def With {ρ : Type} (kept : ρ) (s : σ × ρ) (t : σ) : Prop := s.1 = t ∧ s.2 = kept

theorem mirrors_past {ρ ι : Type} (kept : ρ) (action : StateM (σ × ι) α) :
    Mirrors (Beside (With kept)) (past action) action := by
  rintro ⟨⟨own, kept⟩, s⟩ ⟨other, t⟩ ⟨⟨rfl, rfl⟩, rfl⟩
  exact ⟨rfl, ⟨rfl, rfl⟩, rfl⟩

variable {r : σ → τ → Prop} {engines : Engines σ} {others : Engines τ}

theorem mirrors_desugar (mirror : engines.Mirror r others) (body : Node) :
    Mirrors (Beside r) (Iteration.desugar engines body) (Iteration.desugar others body) := by
  unfold Iteration.desugar
  induction body using Node.inductionOn with
  | step node ih =>
    rw [Node.editOwnScope_eq, Node.editOwnScope_eq]
    split
    · exact .pure _
    · by_cases iterates : ∃ operand, node.kind = .suspensionStatement true (some operand)
      · obtain ⟨operand, hk⟩ := iterates
        rw [hk]
        refine .bind (mirrors_onSecond r _) fun element => ?_
        exact .bind (mirror.forEach _) fun answer => .pure _
      · rw [Iteration.step_eq_rebuild _ _ fun operand hk => iterates ⟨operand, hk⟩,
          Iteration.step_eq_rebuild _ _ fun operand hk => iterates ⟨operand, hk⟩]
        exact .rebuild node ih

namespace Lowering

/-! ## Runs -/

/-- Two states of a run differ only in the own states of the engines. -/
structure Alike (r : σ → τ → Prop) (s : State σ) (t : State τ) : Prop where
  engines : r s.engines t.engines
  names : s.names = t.names
  log : s.log = t.log
  depth : s.depth = t.depth
  stats : s.stats = t.stats

theorem mirrors_count (change : Stats → Stats) :
    Mirrors (Alike r) (count change) (count change) := fun _ _ alike =>
  ⟨rfl, alike.engines, alike.names, alike.log, alike.depth, congrArg change alike.stats⟩

theorem mirrors_withNames {x : StateM (σ × NameSupply) α} {y : StateM (τ × NameSupply) α}
    (mirrors : Mirrors (Beside r) x y) : Mirrors (Alike r) (withNames x) (withNames y) := by
  intro s t alike
  obtain ⟨same, own, names⟩ := mirrors (s.engines, s.names) (t.engines, t.names)
    ⟨alike.engines, alike.names⟩
  exact ⟨same, own, names, alike.log, alike.depth, alike.stats⟩

theorem mirrors_withLog {x : StateM (σ × Log) α} {y : StateM (τ × Log) α}
    (mirrors : Mirrors (Beside r) x y) : Mirrors (Alike r) (withLog x) (withLog y) := by
  intro s t alike
  obtain ⟨same, own, log⟩ := mirrors (s.engines, s.log) (t.engines, t.log)
    ⟨alike.engines, alike.log⟩
  exact ⟨same, own, alike.names, log, alike.depth, alike.stats⟩

theorem mirrors_descend (limit : UInt32) (node : Node) :
    Mirrors (Alike r) (descend limit node) (descend limit node) := by
  intro s t alike
  by_cases deep : limit.toNat ≤ s.depth
  · rw [run_descend_deep deep, run_descend_deep (alike.depth ▸ deep)]
    refine ⟨rfl, alike.engines, alike.names, ?_, alike.depth, ?_⟩
    · exact congrArg (·.push (Template.nestingTooDeep.diagnose node.span [toString limit.toNat]))
        alike.log
    · exact congrArg (fun stats : Stats => { stats with depthLimitHits := stats.depthLimitHits + 1 })
        alike.stats
  · have room : s.depth < limit.toNat := Nat.lt_of_not_le deep
    rw [run_descend_room room, run_descend_room (alike.depth ▸ room)]
    exact ⟨rfl, alike.engines, alike.names, alike.log, congrArg (· + 1) alike.depth, alike.stats⟩

theorem mirrors_ascend : Mirrors (Alike r) ascend ascend := fun _ _ alike =>
  ⟨rfl, alike.engines, alike.names, alike.log, congrArg (· - 1) alike.depth, alike.stats⟩

theorem mirrors_andThen {x : Node → Run σ (Option Node)} {y : Node → Run τ (Option Node)}
    (mirrors : ∀ tree, Mirrors (Alike r) (x tree) (y tree)) (tree : Node) (soFar : Option Node) :
    Mirrors (Alike r) (andThen x tree soFar) (andThen y tree soFar) :=
  .bind (mirrors _) fun _ => .pure _

theorem mirrors_prepare (mirror : engines.Mirror r others) (plan : Plan) (body : Node)
    (nested : Option Node) :
    Mirrors (Alike r) (prepare engines plan body nested) (prepare others plan body nested) := by
  refine .bind (mirrors_andThen (fun tree => ?_) _ _) fun walked =>
    mirrors_andThen (fun tree => ?_) _ _
  · unfold forInStage
    split
    · exact .bind (mirrors_count _) fun _ => mirrors_withNames (mirror.forIn tree)
    · exact .pure _
  · unfold iterationStage
    split
    · exact .bind (mirrors_count _) fun _ => mirrors_withNames (mirrors_desugar mirror tree)
    · exact .pure _

theorem mirrors_targetStage (mirror : engines.Mirror r others) (plan : Plan) (tree : Node) :
    Mirrors (Alike r) (targetStage engines plan tree) (targetStage others plan tree) := by
  unfold targetStage
  split
  · exact .bind (mirrors_count _) fun _ => mirrors_withLog (mirror.generator tree)
  · exact .bind (mirrors_count _) fun _ => mirrors_withLog (mirror.async tree)

theorem mirrors_carryOut (mirror : engines.Mirror r others) (body : Node) (nested : Option Node)
    (plan : Option Plan) :
    Mirrors (Alike r) (carryOut engines body nested plan) (carryOut others body nested plan) := by
  cases plan with
  | none => exact .pure _
  | some plan =>
    rw [carryOut_some, carryOut_some]
    exact .bind (mirrors_count _) fun _ => .bind (mirrors_prepare mirror plan body nested)
      fun ready => mirrors_andThen (mirrors_targetStage mirror plan) body ready

theorem mirrors_lowerBody (mirror : engines.Mirror r others) (body : Node)
    {inner : Run σ (Option Node)} {inner' : Run τ (Option Node)}
    (nested : Mirrors (Alike r) inner inner') :
    Mirrors (Alike r) (lowerBody engines body inner) (lowerBody others body inner') := by
  rw [lowerBody_eq, lowerBody_eq]
  exact .bind nested fun _ => mirrors_carryOut mirror _ _ _

theorem mirrors_lowerFunction (mirror : engines.Mirror r others) (limit : UInt32) (node body : Node)
    {inner : Run σ (Option Node)} {inner' : Run τ (Option Node)}
    (nested : Mirrors (Alike r) inner inner') :
    Mirrors (Alike r) (lowerFunction limit engines node (body, inner))
      (lowerFunction limit others node (body, inner')) := by
  refine .bind (mirrors_count _) fun _ => .bind (mirrors_descend limit node) fun entered => ?_
  cases entered with
  | false => exact .pure _
  | true =>
    exact .bind (mirrors_lowerBody mirror body nested) fun _ => .bind mirrors_ascend fun _ => .pure _

/-- What is done at a function expression whose children are edited by `f`. -/
def lowerExpression (limit : UInt32) (node : Node) (f : Node → Run σ (Option Node)) :
    Run σ (Option Node) := do
  if ← descend limit node then
    let rebuilt ← node.rebuild (node.kind.map fun child => (child, f child))
    ascend
    return rebuilt
  else return none

theorem lowerNode_expression (limit : UInt32) (engines : Engines σ) {node : Node}
    (isExpression : node.form = .functionExpression) :
    lowerNode limit engines node = lowerExpression limit node (lowerNode limit engines) := by
  rw [lowerNode_eq]
  obtain ⟨span, kind⟩ := node
  cases kind <;> try cases isExpression
  rfl

theorem run_lowerExpression_deep {limit : UInt32} {s : State σ} (deep : limit.toNat ≤ s.depth)
    (node : Node) (f : Node → Run σ (Option Node)) :
    (lowerExpression limit node f).run s = (none, s.refuse limit node) := by
  simp only [lowerExpression, run_bind, run_descend_deep deep]
  rfl

theorem run_lowerExpression_room {limit : UInt32} {s : State σ} (room : s.depth < limit.toNat)
    (node : Node) (f : Node → Run σ (Option Node)) :
    (lowerExpression limit node f).run s =
      let rebuilt := (node.rebuild (node.kind.map fun child => (child, f child))).run s.deeper
      (rebuilt.1, rebuilt.2.shallower) := by
  simp only [lowerExpression, run_bind, run_descend_room room]
  rfl

theorem mirrors_lowerExpression (limit : UInt32) (node : Node) {f : Node → Run σ (Option Node)}
    {g : Node → Run τ (Option Node)} (each : ∀ child ∈ node.children, Mirrors (Alike r) (f child) (g child)) :
    Mirrors (Alike r) (lowerExpression limit node f) (lowerExpression limit node g) := by
  refine .bind (mirrors_descend limit node) fun entered => ?_
  cases entered with
  | false => exact .pure _
  | true => exact .bind (.rebuild node each) fun _ => .bind mirrors_ascend fun _ => .pure _

/-- Engines that mirror one another make runs that do. -/
theorem mirrors_lowerNode (mirror : engines.Mirror r others) (limit : UInt32) (node : Node) :
    Mirrors (Alike r) (lowerNode limit engines node) (lowerNode limit others node) := by
  induction node using Node.inductionOn with
  | step node ih =>
    cases node using Node.cases_scope with
    | function node body isFunction has mem =>
      rw [lowerNode_function limit engines isFunction has,
        lowerNode_function limit others isFunction has]
      exact mirrors_lowerFunction mirror limit node body (ih body mem)
    | expression node isExpression =>
      rw [lowerNode_expression limit engines isExpression,
        lowerNode_expression limit others isExpression]
      exact mirrors_lowerExpression limit node ih
    | plain node plain =>
      rw [lowerNode_plain limit engines plain, lowerNode_plain limit others plain]
      exact .rebuild node ih

/-! ## Outcomes -/

/-- What came out, once a run is at its end. -/
def Outcome.of (result : Option Node × State σ) : Outcome σ :=
  ⟨result.1, result.2.engines, result.2.names, result.2.log, result.2.stats⟩

/-- What came out of a run, with another look at the engines. -/
def Outcome.mapEngines (f : σ → τ) (outcome : Outcome σ) : Outcome τ :=
  ⟨outcome.tree, f outcome.engines, outcome.names, outcome.log, outcome.stats⟩

theorem Outcome.mapEngines_of {f : σ → τ} {x : Run σ (Option Node)} {y : Run τ (Option Node)}
    (mirrors : Mirrors (Alike fun s t => f s = t) x y) {s : State σ} {t : State τ}
    (alike : Alike (fun s t => f s = t) s t) :
    (Outcome.of (x.run s)).mapEngines f = .of (y.run t) := by
  obtain ⟨same, alike⟩ := mirrors s t alike
  simp only [of, mapEngines, same, alike.engines, alike.names, alike.log, alike.stats]

end Lowering

end Resumable
