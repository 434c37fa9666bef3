import Resumable.Syntax.Edit

/-!
# Traversing and rebuilding

`Kind.traverse` meets the children of a kind in their order (`children_traverse`) and keeps
everything else (`run_traverse_map`).  As `Node.rebuild` is such a traversal (`rebuild_eq`), there is a
rule for it (`rebuild_rule`): an invariant of the state that every edit of a child keeps, and a relation
between a child and what became of it that every edit establishes and later edits keep, hold of the node
as a whole.  If what an action does is told by a trace, then the traces of the edits, one after the
other, tell what rebuilding the node does (`rebuild_traced`).
-/

namespace Resumable

variable {σ α β γ τ : Type}

/-! ## Stateful actions -/

theorem run_bind (x : StateM σ α) (f : α → StateM σ β) (s : σ) :
    (x >>= f).run s = (f (x.run s).1).run (x.run s).2 := rfl

theorem run_map (f : α → β) (x : StateM σ α) (s : σ) :
    (f <$> x).run s = (f (x.run s).1, (x.run s).2) := rfl

theorem run_pure (a : α) (s : σ) : (pure a : StateM σ α).run s = (a, s) := rfl

theorem run_mapM_map {f : α → StateM σ β} {g : β → γ} {h : α → γ}
    (fixed : ∀ a s, g ((f a).run s).1 = h a) (l : List α) (s : σ) :
    ((l.mapM f).run s).1.map g = l.map h := by
  induction l generalizing s with
  | nil => rfl
  | cons a l ih =>
    rw [List.mapM_cons]
    simp only [run_bind, run_pure, List.map_cons, fixed, ih]

theorem run_optionMapM_map {f : α → StateM σ β} {g : β → γ} {h : α → γ}
    (fixed : ∀ a s, g ((f a).run s).1 = h a) (o : Option α) (s : σ) :
    ((o.mapM f).run s).1.map g = o.map h := by
  cases o with
  | none => rfl
  | some a => exact congrArg some (fixed a s)

/-- What every action keeps, and what every action establishes for its answer and later actions
keep, holds at the end of a list of actions. -/
theorem run_mapM_rule {f : α → StateM σ β} {I : σ → Prop} {R : β → σ → Prop} :
    ∀ l : List α,
      (∀ a ∈ l, ∀ s, I s → I ((f a).run s).2 ∧ R ((f a).run s).1 ((f a).run s).2) →
      (∀ b, ∀ a ∈ l, ∀ s, I s → R b s → R b ((f a).run s).2) →
      ∀ s, I s → I ((l.mapM f).run s).2 ∧ (∀ b, R b s → R b ((l.mapM f).run s).2) ∧
        ∀ b ∈ ((l.mapM f).run s).1, R b ((l.mapM f).run s).2
  | [], _, _, s, inv => ⟨inv, fun _ r => r, fun _ mem => nomatch mem⟩
  | a :: l, establish, keep, s, inv => by
    obtain ⟨inv₁, r₁⟩ := establish a (by simp) s inv
    obtain ⟨inv₂, kept, related⟩ := run_mapM_rule l (fun a' h => establish a' (by simp [h]))
      (fun b a' h => keep b a' (by simp [h])) _ inv₁
    rw [List.mapM_cons]
    simp only [run_bind, run_pure, List.mem_cons]
    refine ⟨inv₂, fun b r => kept b (keep b a (by simp) s inv r), ?_⟩
    rintro b (rfl | mem)
    · exact kept _ r₁
    · exact related b mem

/-- An action that is run for the members of a list, and runs another one for each member of a list of its own,
runs that for all of these, one list after the other. -/
theorem forM_flatMap {m : Type → Type} [Monad m] [LawfulMonad m] {f : α → m Unit} {g : α → List β}
    {visit : β → m Unit} :
    ∀ l : List α, (∀ a ∈ l, f a = (g a).forM visit) → l.forM f = (l.flatMap g).forM visit
  | [], _ => rfl
  | a :: l, each => by
    have first := each a (by simp)
    have rest := forM_flatMap l fun a' mem => each a' (by simp [mem])
    simp only [List.forM_eq_forM] at first rest ⊢
    rw [List.forM_cons, List.flatMap_cons, List.forM_append, first, rest]

/-- A relation between a state, what happened from there on, and the state that it led to. -/
structure IsTrace (W : σ → List τ → σ → Prop) : Prop where
  nil : ∀ s, W s [] s
  append : ∀ {s t u : σ} {a b : List τ}, W s a t → W t b u → W s (a ++ b) u

/-- What a list of actions does, if each of them answers with what it did. -/
theorem run_mapM_traced {W : σ → List τ → σ → Prop} (isTrace : IsTrace W) {I : σ → Prop}
    {f : α → StateM σ (β × List τ)} {R : β × List τ → Prop} :
    ∀ l : List α, (∀ a ∈ l, ∀ s, I s → I ((f a).run s).2 ∧
        W s ((f a).run s).1.2 ((f a).run s).2 ∧ R ((f a).run s).1) →
      ∀ s, I s → I ((l.mapM f).run s).2 ∧
        W s (((l.mapM f).run s).1.flatMap Prod.snd) ((l.mapM f).run s).2 ∧
        ∀ b ∈ ((l.mapM f).run s).1, R b
  | [], _, s, inv => ⟨inv, isTrace.nil s, fun _ mem => nomatch mem⟩
  | a :: l, each, s, inv => by
    obtain ⟨inv, first, related⟩ := each a (by simp) s inv
    obtain ⟨inv, rest, relateds⟩ := run_mapM_traced isTrace l
      (fun a' mem => each a' (by simp [mem])) ((f a).run s).2 inv
    rw [List.mapM_cons]
    simp only [run_bind, run_pure, List.mem_cons, forall_eq_or_imp]
    exact ⟨inv, isTrace.append first rest, related, relateds⟩

namespace Kind

/-! ## Traversals of a kind -/

section Lawful

variable {m : Type → Type} [Monad m] [LawfulMonad m]

theorem mapM_toList (f : α → m β) (o : Option α) :
    o.toList.mapM f = Option.toList <$> o.mapM f := by
  cases o <;> simp

/-- A traversal meets the children in their order, and each of them once. -/
theorem children_traverse (f : α → m β) (k : Kind α) :
    children <$> k.traverse f = k.children.mapM f := by
  cases k <;> simp [traverse, children, mapM_toList]

end Lawful

/-- A traversal changes nothing of which the results say the same as the children. -/
theorem run_traverse_map {f : α → StateM σ β} {g : β → γ} {h : α → γ}
    (fixed : ∀ a s, g ((f a).run s).1 = h a) (k : Kind α) (s : σ) :
    ((k.traverse f).run s).1.map g = k.map h := by
  cases k <;>
    simp only [traverse, map, run_bind, run_pure, run_mapM_map fixed, run_optionMapM_map fixed,
      fixed]

theorem run_traverse_children (f : α → StateM σ β) (k : Kind α) (s : σ) :
    ((k.children.mapM f).run s).1 = ((k.traverse f).run s).1.children ∧
      ((k.children.mapM f).run s).2 = ((k.traverse f).run s).2 := by
  rw [← children_traverse, run_map]
  exact ⟨rfl, rfl⟩

/-- Changing the answers of the actions changes the results of a traversal. -/
theorem traverse_map {m : Type → Type} [Monad m] [LawfulMonad m] (g : β → γ) (f : α → m β)
    (k : Kind α) : (k.traverse fun a => g <$> f a) = map g <$> k.traverse f := by
  have list (l : List α) : (l.mapM fun a => g <$> f a) = List.map g <$> l.mapM f := by
    induction l with
    | nil => simp
    | cons a l ih => simp [ih]
  have option (o : Option α) : (o.mapM fun a => g <$> f a) = Option.map g <$> o.mapM f := by
    cases o <;> simp
  cases k <;> simp [traverse, map, list, option]

/-- A traversal of changed children is a traversal with changed actions. -/
theorem map_traverse {m : Type → Type} [Monad m] [LawfulMonad m] (f : α → β) (g : β → m γ)
    (k : Kind α) : (k.map f).traverse g = k.traverse fun a => g (f a) := by
  have option (o : Option α) : (o.map f).mapM g = o.mapM fun a => g (f a) := by
    cases o <;> simp
  cases k <;> simp [traverse, map, List.mapM_map, Function.comp_def, option]

/-- What a traversal does is what its actions do, one after the other. -/
theorem run_traverse_traced {W : σ → List τ → σ → Prop} (isTrace : IsTrace W) {I : σ → Prop}
    {f : α → StateM σ β} {R : β → List τ → Prop} (k : Kind α)
    (each : ∀ a ∈ k.children, ∀ s, I s → I ((f a).run s).2 ∧
      ∃ trace, W s trace ((f a).run s).2 ∧ R ((f a).run s).1 trace)
    (s : σ) (inv : I s) :
    ∃ results : Kind (β × List τ), results.map Prod.fst = ((k.traverse f).run s).1 ∧
      I ((k.traverse f).run s).2 ∧
      W s (results.children.flatMap Prod.snd) ((k.traverse f).run s).2 ∧
      ∀ result ∈ results.children, R result.1 result.2 := by
  classical
  -- Let each action also answer with a trace of what it did.
  let traceOf (a : α) (s : σ) : List τ :=
    if known : ∃ trace, W s trace ((f a).run s).2 ∧ R ((f a).run s).1 trace then known.choose else []
  let traced (a : α) : StateM σ (β × List τ) := fun s =>
    ((((f a).run s).1, traceOf a s), ((f a).run s).2)
  have forget : k.traverse f = map Prod.fst <$> k.traverse traced := traverse_map Prod.fst traced k
  obtain ⟨children, state⟩ := run_traverse_children traced k s
  have rule := run_mapM_traced isTrace (I := I) (f := traced)
    (R := fun result => R result.1 result.2) k.children
    (fun a mem s inv => by
      obtain ⟨inv, known⟩ := each a mem s inv
      have isKnown : traceOf a s = known.choose := dif_pos known
      obtain ⟨happened, related⟩ := known.choose_spec
      rw [← isKnown] at happened related
      exact ⟨inv, happened, related⟩) s inv
  rw [children, state] at rule
  rw [forget]
  exact ⟨_, rfl, rule⟩

theorem map_congr {f g : α → β} (k : Kind α) (h : ∀ a ∈ k.children, f a = g a) :
    k.map f = k.map g := by
  cases k <;> simp_all [map, children]
  all_goals grind [Option.map_congr]

end Kind

namespace Node

/-! ## Edits of a scope -/

theorem editOwnScope_eq {m : Type → Type} [Monad m]
    (step : Node → Kind (Node × m (Option Node)) → m (Option Node)) (node : Node) :
    node.editOwnScope step =
      if node.isFunctionScope then return none
      else step node (node.kind.map fun child => (child, child.editOwnScope step)) := by
  rw [editOwnScope, edit, para_eq]
  rfl

/-! ## Rebuilding -/

/-- The answer of a rebuild that found these answers for the children. -/
def assemble (node : Node) (results : Kind (Node × Option Node)) : Option Node :=
  if results.children.any (·.2.isSome) then
    some ⟨node.span, results.map fun (child, result) => result.getD child⟩
  else none

theorem assemble_eq_none_iff (node : Node) (results : Kind (Node × Option Node)) :
    node.assemble results = none ↔ ∀ result ∈ results.children, result.2 = none := by
  simp [assemble]

/-- Whether it was built anew or kept, the node became the one with the answers as children. -/
theorem assemble_getD {node : Node} {results : Kind (Node × Option Node)}
    (same : results.map Prod.fst = node.kind) :
    (node.assemble results).getD node =
      ⟨node.span, results.map fun result => result.2.getD result.1⟩ := by
  unfold assemble
  split
  · rfl
  · rename_i unchanged
    have kept : results.map (fun result => result.2.getD result.1) = results.map Prod.fst := by
      apply Kind.map_congr
      intro result mem
      have isNone : result.2 = none := by
        simp only [List.any_eq_true, not_exists, not_and] at unchanged
        simpa using unchanged result mem
      simp [isNone]
    rw [kept, same]
    cases node
    rfl

/-- Rebuilding a node is a traversal of its kind that keeps the children beside the answers for them. -/
theorem rebuild_eq {m : Type → Type} [Monad m] [LawfulMonad m] (f : Node → m (Option Node)) (node : Node) :
    node.rebuild (node.kind.map fun child => (child, f child)) =
      node.assemble <$> node.kind.traverse fun child => (fun answer => (child, answer)) <$> f child := by
  rw [rebuild, Kind.map_traverse, map_eq_pure_bind]
  congr 1
  · simp only [bind_pure_comp]
  · funext results
    unfold assemble
    split <;> rfl

/-- The rule of rebuilding a node whose children are edited by `f`. -/
theorem rebuild_rule {f : Node → StateM σ (Option Node)} {I : σ → Prop}
    {R : Node → Option Node → σ → Prop} (node : Node)
    (establish : ∀ child ∈ node.children, ∀ s, I s →
      I ((f child).run s).2 ∧ R child ((f child).run s).1 ((f child).run s).2)
    (keep : ∀ child result, ∀ other ∈ node.children, ∀ s, I s → R child result s →
      R child result ((f other).run s).2) (s : σ) (inv : I s) :
    ∃ results : Kind (Node × Option Node), results.map Prod.fst = node.kind ∧
      ((node.rebuild (node.kind.map fun child => (child, f child))).run s).1 =
        node.assemble results ∧
      I ((node.rebuild (node.kind.map fun child => (child, f child))).run s).2 ∧
      ∀ result ∈ results.children, R result.1 result.2
        ((node.rebuild (node.kind.map fun child => (child, f child))).run s).2 := by
  let pair (child : Node) : StateM σ (Node × Option Node) := (fun answer => (child, answer)) <$> f child
  have rule := run_mapM_rule (f := pair) (R := fun result => R result.1 result.2) node.children establish
    (fun result other mem => keep result.1 result.2 other mem) s inv
  obtain ⟨children, state⟩ := Kind.run_traverse_children pair node.kind s
  rw [Node.children, children, state] at rule
  rw [rebuild_eq]
  refine ⟨((node.kind.traverse pair).run s).1, ?_, rfl, rule.1, rule.2.2⟩
  exact (Kind.run_traverse_map (h := id) (fun _ _ => rfl) _ _).trans (Kind.map_id' _)

/-- The rule for a relation between a child and the node that took its place. -/
theorem rebuild_rule_getD {f : Node → StateM σ (Option Node)} {I : σ → Prop}
    {R : Node → Node → σ → Prop}
    (node : Node)
    (establish : ∀ child ∈ node.children, ∀ s, I s →
      I ((f child).run s).2 ∧ R child (((f child).run s).1.getD child) ((f child).run s).2)
    (keep : ∀ child child', ∀ other ∈ node.children, ∀ s, I s → R child child' s →
      R child child' ((f other).run s).2) (s : σ) (inv : I s) :
    let out := (node.rebuild (node.kind.map fun child => (child, f child))).run s
    I out.2 ∧ ∃ kind : Kind (Node × Node), kind.map Prod.fst = node.kind ∧
      out.1.getD node = ⟨node.span, kind.map Prod.snd⟩ ∧ ∀ pair ∈ kind.children, R pair.1 pair.2 out.2 := by
  intro out
  obtain ⟨results, same, answer, kept, related⟩ := rebuild_rule (f := f) (I := I)
    (R := fun child result => R child (result.getD child)) node establish
    (fun child _ other mem s inv r => keep child _ other mem s inv r) s inv
  let kind := results.map fun result => (result.1, result.2.getD result.1)
  have first : kind.map Prod.fst = node.kind := by
    rw [Kind.map_map]
    exact same
  have second : kind.map Prod.snd = results.map fun result => result.2.getD result.1 :=
    Kind.map_map _ _ _
  refine ⟨kept, kind, first, ?_, fun pair mem => ?_⟩
  · rw [second, ← assemble_getD same, ← answer]
  · simp only [kind, Kind.children_map, List.mem_map] at mem
    obtain ⟨result, mem, rfl⟩ := mem
    exact related result mem

/-- What every edit of a child establishes, whatever state it starts from, holds of a rebuilt
node. -/
theorem rebuild_each {f : Node → StateM σ (Option Node)} {R : Node → Option Node → Prop}
    (node : Node)
    (each : ∀ child ∈ node.children, ∀ s, R child ((f child).run s).1) (s : σ) :
    ∃ results : Kind (Node × Option Node), results.map Prod.fst = node.kind ∧
      ((node.rebuild (node.kind.map fun child => (child, f child))).run s).1 =
        node.assemble results ∧
      ∀ result ∈ results.children, R result.1 result.2 := by
  obtain ⟨results, same, answer, -, related⟩ := rebuild_rule (I := fun _ => True)
    (R := fun child result _ => R child result) node
    (fun child mem s _ => ⟨trivial, each child mem s⟩) (fun _ _ _ _ _ _ r => r) s trivial
  exact ⟨results, same, answer, related⟩

/-- The rule of rebuilding a node with what happens on the way: what the edit of each child answered,
and what was done for it. -/
theorem rebuild_noted {W : σ → List τ → σ → Prop} (isTrace : IsTrace W) {I : σ → Prop}
    {f : Node → StateM σ (Option Node)} {R : Node → List τ → Option Node → Prop} (node : Node)
    (each : ∀ child ∈ node.children, ∀ s, I s → I ((f child).run s).2 ∧
      ∃ trace, W s trace ((f child).run s).2 ∧ R child trace ((f child).run s).1)
    (s : σ) (inv : I s) :
    let out := (node.rebuild (node.kind.map fun child => (child, f child))).run s
    I out.2 ∧ ∃ parts : Kind (Node × List τ × Option Node), parts.map Prod.fst = node.kind ∧
      out.1 = node.assemble (parts.map fun part => (part.1, part.2.2)) ∧
      W s (parts.children.flatMap fun part => part.2.1) out.2 ∧
      ∀ part ∈ parts.children, R part.1 part.2.1 part.2.2 := by
  let pair (child : Node) : StateM σ (Node × Option Node) := (fun answer => (child, answer)) <$> f child
  obtain ⟨results, forget, inv, happened, related⟩ := Kind.run_traverse_traced isTrace (I := I)
    (f := pair) (R := fun result trace => R result.1 trace result.2) node.kind each s inv
  let parts := results.map fun result => (result.1.1, result.2, result.1.2)
  have same : ((node.kind.traverse pair).run s).1.map Prod.fst = node.kind :=
    (Kind.run_traverse_map (h := id) (fun _ _ => rfl) _ _).trans (Kind.map_id' _)
  rw [rebuild_eq]
  refine ⟨inv, parts, ?_, ?_, ?_, ?_⟩
  · rw [← same, ← forget, Kind.map_map, Kind.map_map]
    rfl
  · rw [run_map, ← forget, Kind.map_map]
    rfl
  · rw [Kind.children_map, List.flatMap_map]
    exact happened
  · intro part mem
    simp only [parts, Kind.children_map, List.mem_map] at mem
    obtain ⟨result, mem, rfl⟩ := mem
    exact related result mem

/-- The rule of rebuilding a node with what happens on the way: what became of each child, and what
was done for it. -/
theorem rebuild_traced {W : σ → List τ → σ → Prop} (isTrace : IsTrace W) {I : σ → Prop}
    {f : Node → StateM σ (Option Node)} {R : Node → List τ → Node → Prop} (node : Node)
    (each : ∀ child ∈ node.children, ∀ s, I s → I ((f child).run s).2 ∧
      ∃ trace, W s trace ((f child).run s).2 ∧ R child trace (((f child).run s).1.getD child))
    (s : σ) (inv : I s) :
    let out := (node.rebuild (node.kind.map fun child => (child, f child))).run s
    I out.2 ∧ ∃ parts : Kind (Node × List τ × Node), parts.map Prod.fst = node.kind ∧
      out.1.getD node = ⟨node.span, parts.map fun part => part.2.2⟩ ∧
      W s (parts.children.flatMap fun part => part.2.1) out.2 ∧
      ∀ part ∈ parts.children, R part.1 part.2.1 part.2.2 := by
  intro out
  obtain ⟨inv, noted, same, answer, happened, related⟩ := rebuild_noted isTrace
    (R := fun child trace result => R child trace (result.getD child)) node each s inv
  refine ⟨inv, noted.map fun part => (part.1, part.2.1, part.2.2.getD part.1), ?_, ?_, ?_, ?_⟩
  · rw [Kind.map_map]
    exact same
  · have first : (noted.map fun part => (part.1, part.2.2)).map Prod.fst = node.kind := by
      rw [Kind.map_map]
      exact same
    rw [answer, assemble_getD first, Kind.map_map, Kind.map_map]
    rfl
  · rw [Kind.children_map, List.flatMap_map]
    exact happened
  · intro part mem
    simp only [Kind.children_map, List.mem_map] at mem
    obtain ⟨part, mem, rfl⟩ := mem
    exact related part mem

end Node

end Resumable
