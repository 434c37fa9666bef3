import Resumable.Proofs.Protocol

/-!
# What a run leaves alone

The outline of a tree is the tree with one fixed node in the place of the body of every outermost
function declaration or accessor (`Node.outline`).  A run keeps the outline, whatever its engines
answer, and it keeps the outline of every body that it enters and that does not suspend by itself
(`run_outline`): all that changes is inside the bodies of functions that suspend.
-/

namespace Resumable

namespace Node

variable {node blank : Node}

/-- The tree with `blank` as the body of every outermost function declaration or accessor. -/
def outline (node blank : Node) : Node :=
  node.para fun node parts =>
    if node.isFunctionLike then node.withBody blank else ⟨node.span, parts.map (·.2)⟩

theorem outline_function (isFunction : node.isFunctionLike = true) :
    node.outline blank = node.withBody blank := by
  rw [outline, para_eq, if_pos isFunction]

theorem outline_other (other : node.isFunctionLike = false) :
    node.outline blank = ⟨node.span, node.kind.map fun child => child.outline blank⟩ := by
  rw [outline, para_eq, other, Kind.map_map]
  rfl

theorem withBody_withBody (node first second : Node) :
    (node.withBody first).withBody second = node.withBody second := by
  obtain ⟨span, kind⟩ := node
  cases kind <;> rfl

/-- A node that is no function declaration or accessor has the same outline with other children of
the same outlines. -/
theorem outline_rebuilt {results : Kind (Node × Option Node)}
    (same : results.map Prod.fst = node.kind) (other : node.isFunctionLike = false)
    (each : ∀ result ∈ results.children,
      (result.2.getD result.1).outline blank = result.1.outline blank) :
    ((node.assemble results).getD node).outline blank = node.outline blank := by
  rw [assemble_getD same]
  have stillOther : isFunctionLike ⟨node.span, results.map fun result => result.2.getD result.1⟩ =
      false := by
    rw [isFunctionLike, form, ← same] at other
    rw [isFunctionLike, form]
    simpa [kind] using other
  rw [outline_other stillOther, outline_other other, ← same]
  simp only [span, kind, Kind.map_map]
  congr 1
  exact Kind.map_congr _ each

end Node

namespace Lowering

variable {σ : Type}

/-- A run keeps the outline of a tree. -/
theorem outline_lowerNode (limit : UInt32) (engines : Engines σ) (blank node : Node) (s : State σ) :
    (((lowerNode limit engines node).run s).1.getD node).outline blank = node.outline blank := by
  induction node using Node.inductionOn generalizing s with
  | step node ih =>
    have rebuilt (start : State σ) (other : node.isFunctionLike = false) :
        (((node.rebuild (parts limit engines node)).run start).1.getD node).outline blank =
          node.outline blank := by
      obtain ⟨results, same, answer, each⟩ := Node.rebuild_each
        (R := fun child result => (result.getD child).outline blank = child.outline blank) node
        (fun child mem s => ih child mem s) start
      rw [answer]
      exact Node.outline_rebuilt same other each
    by_cases refused : node.isFunctionScope = true ∧ limit.toNat ≤ s.depth
    · rw [run_lowerNode_refused limit _ refused.1 refused.2]
      rfl
    · have room (scope : node.isFunctionScope = true) : s.depth < limit.toNat :=
        Nat.lt_of_not_le fun deep => refused ⟨scope, deep⟩
      cases node using Node.cases_scope with
      | function node body isFunction has mem =>
        have scope := Node.isFunctionScope_of_like isFunction
        rw [run_lowerNode_function limit _ isFunction has (room scope), map_withBody_getD has,
          Node.outline_function (isFunctionLike_withBody has _ isFunction).1,
          Node.withBody_withBody, Node.outline_function isFunction]
      | expression node isExpression =>
        have scope := Node.isFunctionScope_of_expression isExpression
        have other := Node.isFunctionLike_of_expression isExpression
        rw [run_lowerNode_expression limit _ isExpression (room scope)]
        exact rebuilt s.deeper other
      | plain node plain =>
        rw [lowerNode_plain limit _ plain]
        exact rebuilt s (Node.isFunctionLike_of_not_scope plain)

/-- Everything outside the bodies of functions is left alone, whatever the engines answer. The
outline of the tree is kept. The run puts the tree together from the bodies of the functions that it
enters, each with what became of it, and the outline of a body that does not suspend by itself is
kept as well. -/
theorem run_outline (limit : UInt32) (engines : Engines σ) (own : σ) (names : NameSupply) (log : Log)
    (tree blank : Node) :
    let out := (run limit engines own names log tree).tree.getD tree
    out.outline blank = tree.outline blank ∧
      ∃ bodies : List (Node × Node), bodies.map Prod.fst = tree.entered limit.toNat 0 ∧
        Course (fun function _ own result => own = [(function, result)]) limit.toNat 0 tree bodies
          out ∧
        ∀ entry ∈ bodies, entry.1.bodySuspends = false → ∀ body ∈ entry.1.body?,
          entry.2.outline blank = body.outline blank := by
  intro out
  let start : State σ := ⟨own, names.reserveAll tree.names.toList, log, 0, .zero⟩
  refine ⟨outline_lowerNode limit engines blank tree start, ?_⟩
  obtain ⟨-, bodies, -, course⟩ := course_lowerNode limit engines
    (W := fun _ (_ : List (Node × Node)) _ => True) ⟨fun _ => trivial, fun _ _ => trivial⟩
    (fun _ _ _ _ => trivial)
    (Q := fun function _ own result => own = [(function, result)] ∧
      (function.bodySuspends = false → ∀ body ∈ function.body?,
        result.outline blank = body.outline blank))
    (fun function body nested s _ has lowered => by
      refine ⟨_, trivial, rfl, fun calm body' has' => ?_⟩
      obtain rfl : body = body' := Option.some.inj (has.symm.trans has')
      obtain ⟨before, loweredEq⟩ := lowered
      rw [bodySuspends_eq has] at calm
      rw [run_carryOut_calm engines body nested calm s]
      have kept := outline_lowerNode limit engines blank body before
      rw [loweredEq] at kept
      exact kept) tree start
  have known : Course (fun function _ own result => own = [(function, result)]) limit.toNat 0 tree
      bodies out := course.imp fun _ _ _ _ _ _ said => said.1
  refine ⟨bodies, ?_, known, fun entry mem calm body has => ?_⟩
  · have functions := known.flatMap_trace (fun entry => [entry.1]) (fun function => [function])
      fun _ _ _ _ said => by rw [said]; rfl
    simpa [← List.map_eq_flatMap] using functions
  · obtain ⟨function, -, own, result, ⟨rfl, said⟩, isOwn, -⟩ := course.mem_trace mem
    obtain rfl := List.mem_singleton.1 isOwn
    exact said calm body has

end Lowering

end Resumable
