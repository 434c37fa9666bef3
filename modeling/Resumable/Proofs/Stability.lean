import Resumable.Proofs.Pass

/-!
# Lowering twice

A tree is settled at a depth (`Node.settled`) if the lowering, started there, finds nothing to do:
every function that is not too deep has a body that does not suspend and is settled one level
deeper.  A run that starts at a settled tree keeps it and takes no name (`run_lowerNode_settled`).
What a run leaves behind is settled at the depth where the run stood (`settled_lowerNode`), as a
body handed to a helper only moves deeper, and deeper trees stay settled (`settled_mono`).
-/

namespace Resumable

namespace Node

/-! ## Settled trees -/

/-- The lowering, started at a depth, has nothing to do in the tree. -/
def settled (limit : Nat) (node : Node) : Nat → Prop :=
  node.para fun _ parts depth =>
    match parts with
    | .functionDeclaration _ _ _ body | .getAccessorDeclaration _ _ body
    | .setAccessorDeclaration _ _ _ body =>
      limit ≤ depth ∨ ((Facts.of body.1).suspends = false ∧ body.2 (depth + 1))
    | .functionExpression _ parameters body _ =>
      limit ≤ depth ∨ ∀ part ∈ parameters ++ [body], part.2 (depth + 1)
    | parts => ∀ part ∈ parts.children, part.2 depth

variable {limit depth : Nat} {node : Node}

theorem settled_function {body : Node} (isFunction : node.isFunctionLike = true)
    (has : node.body? = some body) :
    node.settled limit depth ↔
      limit ≤ depth ∨ ((Facts.of body).suspends = false ∧ body.settled limit (depth + 1)) := by
  rw [settled, para_eq]
  obtain ⟨span, kind⟩ := node
  cases kind
  case functionDeclaration | getAccessorDeclaration | setAccessorDeclaration =>
    cases has
    exact Iff.rfl
  all_goals cases isFunction

theorem settled_expression (isExpression : node.form = .functionExpression) :
    node.settled limit depth ↔
      limit ≤ depth ∨ ∀ child ∈ node.children, child.settled limit (depth + 1) := by
  rw [settled, para_eq]
  obtain ⟨span, kind⟩ := node
  cases kind <;> try cases isExpression
  simp [Node.kind, Kind.map, children, Kind.children, or_imp, forall_and, settled]

theorem settled_plain (plain : node.isFunctionScope = false) :
    node.settled limit depth ↔ ∀ child ∈ node.children, child.settled limit depth := by
  have parts : (∀ part ∈ (node.kind.map fun child => (child, child.settled limit)).children,
      part.2 depth) ↔ ∀ child ∈ node.children, child.settled limit depth := by
    simp [children]
  rw [← parts, settled, para_eq]
  obtain ⟨span, kind⟩ := node
  cases kind
  case functionDeclaration | functionExpression | getAccessorDeclaration | setAccessorDeclaration =>
    cases plain
  all_goals exact Iff.rfl

/-- Deeper down there is less to do. -/
theorem settled_mono {depth' : Nat} (le : depth ≤ depth') (settled : node.settled limit depth) :
    node.settled limit depth' := by
  induction node using inductionOn generalizing depth depth' with
  | step node ih =>
    cases node using cases_scope with
    | function node body isFunction has mem =>
      rw [settled_function isFunction has] at settled ⊢
      rcases settled with deep | ⟨calm, inner⟩
      · exact .inl (by omega)
      · exact .inr ⟨calm, ih body mem (by omega) inner⟩
    | expression node isExpression =>
      rw [settled_expression isExpression] at settled ⊢
      rcases settled with deep | inner
      · exact .inl (by omega)
      · exact .inr fun child mem => ih child mem (by omega) (inner child mem)
    | plain node plain =>
      rw [settled_plain plain] at settled ⊢
      exact fun child mem => ih child mem le (settled child mem)

/-- Whether a tree is settled is decided by the functions that stand in its scope. -/
theorem settled_iff_functions :
    node.settled limit depth ↔ ∀ inner ∈ node.functions false, inner.settled limit depth := by
  induction node using inductionOn with
  | step node ih =>
    cases scope : node.isFunctionScope with
    | true => simp [functions_of_scope false scope]
    | false =>
      rw [settled_plain scope, functions_of_not_scope false scope, keptChildren_false]
      simp only [List.mem_flatMap, forall_exists_index, and_imp]
      constructor
      · intro settled inner child mem inside
        exact (ih child mem).1 (settled child mem) inner inside
      · intro settled child mem
        exact (ih child mem).2 fun inner inside => settled inner child mem inside

theorem functions_true_subset (node : Node) : node.functions true ⊆ node.functions false := by
  induction node using inductionOn with
  | step node ih =>
    cases scope : node.isFunctionScope with
    | true => simp [functions_of_scope _ scope]
    | false =>
      rw [functions_of_not_scope _ scope, functions_of_not_scope _ scope, keptChildren_false]
      intro inner mem
      obtain ⟨child, inside, mem⟩ := List.mem_flatMap.1 mem
      have isChild := keptChildren_subset true node inside
      exact List.mem_flatMap.2 ⟨child, isChild, ih child isChild mem⟩

theorem functions_subset (loopsLowered : Bool) (node : Node) :
    node.functions loopsLowered ⊆ node.functions false := by
  cases loopsLowered with
  | false => exact List.Subset.refl _
  | true => exact functions_true_subset node

end Node

namespace Delegation

open Build

theorem functions_delegate (helper : String) (body : Node) :
    (delegate helper body).functions false = [functionExpression [] body true] := by
  simp [delegate, returnStatement, call, identifier, this, functionExpression, Node.synthetic,
    Node.functions_mk, Kind.form, Form.isFunctionScope, Form.isFunctionLike, Kind.children]

/-- A block that hands a body to a helper does not suspend by itself. -/
theorem suspends_delegate (helper : String) (body : Node) :
    (Facts.of (delegate helper body)).suspends = false := by
  have noSuspension : (delegate helper body).ownScope.any Node.isSuspension = false := by
    simp [delegate, returnStatement, call, identifier, this, functionExpression, Node.synthetic,
      Node.ownScope_eq, Node.isFunctionScope, Node.form, Node.children, Node.kind, Kind.form,
      Form.isFunctionScope, Form.isFunctionLike, Kind.children, Node.isSuspension]
  rw [Facts.of_eq_scan, Facts.suspends_scan, noSuspension]
  rfl

/-- The body itself stands one function deeper than the block that hands it over. -/
theorem settled_delegate (helper : String) {body : Node} {limit depth : Nat}
    (settled : body.settled limit depth) : (delegate helper body).settled limit depth := by
  rw [Node.settled_iff_functions, functions_delegate]
  intro inner mem
  obtain rfl := List.mem_singleton.1 mem
  rw [Node.settled_expression rfl]
  refine .inr fun child isBody => ?_
  obtain rfl : child = body := by
    simpa [functionExpression, Node.synthetic, Node.children, Node.kind, Kind.children] using isBody
  exact Node.settled_mono (Nat.le_succ depth) settled

end Delegation

namespace Lowering

variable {σ : Type}

/-! ## Runs on settled trees -/

/-- Between two states no body was lowered and no name taken. -/
def State.isQuiet (s later : State σ) : Prop :=
  later.depth = s.depth ∧ later.names = s.names ∧ later.engines = s.engines ∧
    later.stats.bodiesLowered = s.stats.bodiesLowered

theorem State.isQuiet_refl (s : State σ) : s.isQuiet s := ⟨rfl, rfl, rfl, rfl⟩

theorem State.isQuiet_trans {s middle later : State σ} (first : s.isQuiet middle)
    (second : middle.isQuiet later) : s.isQuiet later :=
  ⟨second.1.trans first.1, second.2.1.trans first.2.1, second.2.2.1.trans first.2.2.1,
    second.2.2.2.trans first.2.2.2⟩

/-- What runs quietly one function deeper is quiet from outside. -/
theorem State.isQuiet_shallower {s later : State σ} (quiet : s.deeper.isQuiet later) :
    s.isQuiet later.shallower := by
  obtain ⟨depth, names, engines, stats⟩ := quiet
  refine ⟨?_, names, engines, stats⟩
  rw [State.depth_shallower, depth, State.depth_deeper]
  omega

/-- A run that starts at a settled tree keeps it, lowers no body and takes no name. -/
theorem run_lowerNode_settled {limit : UInt32} (engines : Engines σ) {node : Node} {s : State σ}
    (settled : node.settled limit.toNat s.depth) :
    ((lowerNode limit engines node).run s).1 = none ∧
      s.isQuiet ((lowerNode limit engines node).run s).2 := by
  induction node using Node.inductionOn generalizing s with
  | step node ih =>
    have rebuilt : ∀ start : State σ, (∀ child ∈ node.children, child.settled limit.toNat start.depth) →
        ((node.rebuild (parts limit engines node)).run start).1 = none ∧
          start.isQuiet ((node.rebuild (parts limit engines node)).run start).2 := by
      intro start settled
      obtain ⟨results, -, answer, quiet, related⟩ := Node.rebuild_rule
        (I := start.isQuiet) (R := fun _ result _ => result = none) node
        (fun child mem later quiet => by
          obtain ⟨kept, still⟩ := ih child mem (s := later) (by
            rw [quiet.1]
            exact settled child mem)
          exact ⟨State.isQuiet_trans quiet still, kept⟩)
        (fun _ _ _ _ _ _ kept => kept) start (State.isQuiet_refl start)
      exact ⟨answer.trans ((Node.assemble_eq_none_iff _ _).2 related), quiet⟩
    have refused : node.isFunctionScope = true → limit.toNat ≤ s.depth →
        ((lowerNode limit engines node).run s).1 = none ∧
          s.isQuiet ((lowerNode limit engines node).run s).2 := by
      intro scope deep
      rw [run_lowerNode_refused limit _ scope deep]
      split <;> exact ⟨rfl, rfl, rfl, rfl, rfl⟩
    cases node using Node.cases_scope with
    | function node body isFunction has mem =>
      by_cases deep : limit.toNat ≤ s.depth
      · exact refused (Node.isFunctionScope_of_like isFunction) deep
      · rcases (Node.settled_function isFunction has).1 settled with absurd | ⟨calm, inner⟩
        · exact (deep absurd).elim
        · obtain ⟨kept, quiet⟩ := ih body mem (s := s.visit.deeper) inner
          have noPlan : Plan.ofFacts (Facts.of
              (((lowerNode limit engines body).run s.visit.deeper).1.getD body)) = none := by
            simp [kept, Plan.ofFacts, calm]
          rw [run_lowerNode_function limit _ isFunction has (by omega), run_lowerBody_none noPlan]
          exact ⟨by simp [kept], State.isQuiet_shallower (s := s.visit) quiet⟩
    | expression node isExpression =>
      by_cases deep : limit.toNat ≤ s.depth
      · exact refused (Node.isFunctionScope_of_expression isExpression) deep
      · rcases (Node.settled_expression isExpression).1 settled with absurd | inner
        · exact (deep absurd).elim
        · rw [run_lowerNode_expression limit _ isExpression (by omega)]
          obtain ⟨kept, quiet⟩ := rebuilt s.deeper inner
          exact ⟨kept, State.isQuiet_shallower quiet⟩
    | plain node plain =>
      rw [lowerNode_plain limit _ plain]
      exact rebuilt s ((Node.settled_plain plain).1 settled)

/-! ## What a run leaves behind -/

theorem isFunctionLike_withBody {node body : Node} (has : node.body? = some body) (body' : Node)
    (isFunction : node.isFunctionLike = true) :
    (node.withBody body').isFunctionLike = true ∧ (node.withBody body').body? = some body' := by
  obtain ⟨span, kind⟩ := node
  cases kind
  case functionDeclaration | getAccessorDeclaration | setAccessorDeclaration => exact ⟨rfl, rfl⟩
  all_goals cases isFunction

theorem withBody_self {node body : Node} (has : node.body? = some body) :
    node.withBody body = node := by
  obtain ⟨span, kind⟩ := node
  cases kind
  case functionDeclaration | functionExpression | getAccessorDeclaration | setAccessorDeclaration =>
    cases has
    rfl
  all_goals cases has

/-- A function whose body became something else is the function with what the body became. -/
theorem map_withBody_getD {node body : Node} (has : node.body? = some body) (result : Option Node) :
    (result.map node.withBody).getD node = node.withBody (result.getD body) := by
  cases result with
  | none => exact (withBody_self has).symm
  | some body' => rfl

/-- The body that a run leaves behind does not suspend. -/
theorem suspends_lowerBody (helpers : Helpers) (body : Node) (inner : Run Unit (Option Node))
    (s : State Unit) :
    (Facts.of (((lowerBody (.standard helpers) body inner).run s).1.getD body)).suspends = false := by
  cases found : Plan.ofFacts (Facts.of ((inner.run s).1.getD body)) with
  | none =>
    rw [run_lowerBody_none found]
    simpa [Plan.ofFacts] using found
  | some plan =>
    obtain ⟨helper, rewritten, answer, -⟩ := lowerBody_standard helpers found
    rw [answer]
    exact Delegation.suspends_delegate helper rewritten

theorem settled_lowerBody {helpers : Helpers} {body : Node} {inner : Run Unit (Option Node)}
    {s : State Unit} {limit depth : Nat}
    (settled : ((inner.run s).1.getD body).settled limit depth) :
    (((lowerBody (.standard helpers) body inner).run s).1.getD body).settled limit depth := by
  cases found : Plan.ofFacts (Facts.of ((inner.run s).1.getD body)) with
  | none =>
    rw [run_lowerBody_none found]
    exact settled
  | some plan =>
    obtain ⟨helper, rewritten, answer, functions, -, -⟩ := lowerBody_standard helpers found
    rw [answer]
    apply Delegation.settled_delegate helper
    rw [Node.settled_iff_functions] at settled ⊢
    intro inner mem
    exact settled inner (Node.functions_subset _ _ ((functions inner).1 mem))

/-- What a run leaves behind is settled at the depth where the run stood. -/
theorem settled_lowerNode (limit : UInt32) (helpers : Helpers) (node : Node) (s : State Unit) :
    (((lowerNode limit (.standard helpers) node).run s).1.getD node).settled limit.toNat s.depth := by
  induction node using Node.inductionOn generalizing s with
  | step node ih =>
    have rebuilt : ∀ start : State Unit, ∃ results : Kind (Node × Option Node),
        results.map Prod.fst = node.kind ∧
        ((node.rebuild (parts limit (.standard helpers) node)).run start).1 = node.assemble results ∧
        ∀ result ∈ results.children, (result.2.getD result.1).settled limit.toNat start.depth := by
      intro start
      obtain ⟨results, same, answer, -, related⟩ := Node.rebuild_rule
        (I := fun later : State Unit => later.depth = start.depth)
        (R := fun child result _ => (result.getD child).settled limit.toNat start.depth) node
        (fun child mem later depth => by
          have settled := ih child mem later
          rw [depth] at settled
          exact ⟨(depth_log_lowerNode limit helpers child later).1.trans depth, settled⟩)
        (fun _ _ _ _ _ _ settled => settled) start rfl
      exact ⟨results, same, answer, related⟩
    cases node using Node.cases_scope with
    | function node body isFunction has mem =>
      by_cases deep : limit.toNat ≤ s.depth
      · rw [run_lowerNode_refused limit _ (Node.isFunctionScope_of_like isFunction) deep]
        exact (Node.settled_function isFunction has).2 (.inl deep)
      · rw [run_lowerNode_function limit _ isFunction has (by omega), map_withBody_getD has]
        obtain ⟨stillFunction, hasNow⟩ := isFunctionLike_withBody has _ isFunction
        exact (Node.settled_function stillFunction hasNow).2
          (.inr ⟨suspends_lowerBody helpers body _ _, settled_lowerBody (ih body mem s.visit.deeper)⟩)
    | expression node isExpression =>
      by_cases deep : limit.toNat ≤ s.depth
      · rw [run_lowerNode_refused limit _ (Node.isFunctionScope_of_expression isExpression) deep]
        exact (Node.settled_expression isExpression).2 (.inl deep)
      · obtain ⟨results, same, answer, settled⟩ := rebuilt s.deeper
        rw [run_lowerNode_expression limit _ isExpression (by omega), answer, Node.assemble_getD same]
        refine (Node.settled_expression ?_).2 (.inr fun child mem => ?_)
        · have form := congrArg Kind.form same
          simpa [Node.form, Node.kind] using form.trans isExpression
        · simp only [Node.children, Node.kind, Kind.children_map, List.mem_map] at mem
          obtain ⟨result, mem, rfl⟩ := mem
          exact settled result mem
    | plain node plain =>
      obtain ⟨results, same, answer, settled⟩ := rebuilt s
      rw [lowerNode_plain limit _ plain, answer, Node.assemble_getD same]
      have stillPlain : Node.isFunctionScope
          ⟨node.span, results.map fun result => result.2.getD result.1⟩ = false := by
        rw [Node.isFunctionScope_of_kind_map _ Prod.fst _ node.span, same]
        exact plain
      refine (Node.settled_plain stillPlain).2 fun child mem => ?_
      simp only [Node.children, Node.kind, Kind.children_map, List.mem_map] at mem
      obtain ⟨result, mem, rfl⟩ := mem
      exact settled result mem

/-! ## Running twice -/

/-- A second run, with any names and any log, gives back what the first run gave.  It lowers no
body, and takes no name beyond those that it reserves. -/
theorem runStandard_stable (options : Options) (names names' : NameSupply) (log log' : Log)
    (tree : Node) :
    let first := (runStandard options names log tree).tree.getD tree
    let second := runStandard options names' log' first
    second.tree = none ∧ second.stats.bodiesLowered = 0 ∧
      second.names = names'.reserveAll first.names.toList := by
  intro first second
  have settled : first.settled options.maxFunctionDepth.toNat 0 :=
    settled_lowerNode options.maxFunctionDepth options.helpers tree
      ⟨(), names.reserveAll tree.names.toList, log, 0, .zero⟩
  have run := run_lowerNode_settled (.standard options.helpers)
    (s := ⟨(), names'.reserveAll first.names.toList, log', 0, .zero⟩) settled
  obtain ⟨kept, -, taken, -, lowered⟩ := run
  exact ⟨kept, lowered, taken⟩

end Lowering

end Resumable
