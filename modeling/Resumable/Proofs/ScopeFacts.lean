import Mathlib.Data.List.Basic
import Resumable.Proofs.MixedBodies

/-!
# The facts of a body are facts of its scope

What the lowering knows of a body is what the nodes of its own scope say, one after the other, so
functions in the scope count for nothing: they can be exchanged for others
(`Facts.of_ownScope`).
-/

namespace Resumable

/-- The trees differ in nothing but the functions that stand in the scope: where one has a function, the
other has some function too. -/
inductive SameScope : Node → Node → Prop
  | function {node other : Node} (isScope : node.isFunctionScope = true)
      (isScope' : other.isFunctionScope = true) : SameScope node other
  | parts (span : Span) (kind : Kind (Node × Node))
      (each : ∀ pair ∈ kind.children, SameScope pair.1 pair.2) :
      SameScope ⟨span, kind.map Prod.fst⟩ ⟨span, kind.map Prod.snd⟩

theorem SameScope.refl (node : Node) : SameScope node node := by
  induction node using Node.inductionOn with
  | step node ih =>
    obtain ⟨span, kind⟩ := node
    let pair (child : Node) : Node × Node := (child, child)
    have first : (kind.map pair).map Prod.fst = kind := (Kind.map_map _ _ _).trans (Kind.map_id' kind)
    have second : (kind.map pair).map Prod.snd = kind := (Kind.map_map _ _ _).trans (Kind.map_id' kind)
    have each : ∀ both ∈ (kind.map pair).children, SameScope both.1 both.2 := by
      rw [Kind.children_map]
      exact List.forall_mem_map.2 ih
    have same := SameScope.parts span (kind.map pair) each
    rwa [first, second] at same

namespace Facts

theorem hasAsyncSuspension_of (body : Node) :
    (Facts.of body).hasAsyncSuspension = body.ownScope.any Node.isAwait := by
  have noted (node : Node) (facts : Facts) :
      (note node facts).hasAsyncSuspension = (facts.hasAsyncSuspension || node.isAwait) := by
    obtain ⟨span, kind⟩ := node
    cases kind <;> simp [note, Node.kind, Node.isAwait, Node.form, Kind.form]
  rw [of_eq_scan]
  exact flag_scan noted body none

/-- Scopes that differ in their functions alone say the same. -/
theorem scan_of_sameScope {node other : Node} (same : SameScope node other) (facts : Facts) :
    scan other facts = scan node facts := by
  induction same generalizing facts with
  | function isScope isScope' => rw [scan_eq, if_pos isScope', scan_eq, if_pos isScope]
  | parts span kind each ih =>
    rw [scan_eq, scan_eq, Node.isFunctionScope_of_kind_map Prod.snd Prod.fst span span,
      note_map Prod.snd Prod.fst span span]
    simp only [Node.children, Node.kind, Kind.children_map, List.foldl_map]
    rw [List.foldl_ext _ _ _ fun facts pair mem => ih pair mem facts]

/-- The facts of a body are exactly what its own scope holds: a `yield`, the last of them being a
`yield for`, a loop over keys, and an `await`.  Other functions in the scope do not change them. -/
theorem of_ownScope (body : Node) :
    ((Facts.of body).hasSuspension = true ↔ ∃ inner ∈ body.ownScope, inner.isYield = true) ∧
      (Facts.of body).isIteration =
        (body.ownScope.filter Node.isYield).getLast?.any Node.iterates ∧
      ((Facts.of body).hasForIn = true ↔
        ∃ inner ∈ body.ownScope, inner.form = .forInStatement) ∧
      ((Facts.of body).hasAsyncSuspension = true ↔
        ∃ inner ∈ body.ownScope, inner.form = .asyncSuspensionStatement) ∧
      ∀ other, SameScope body other → Facts.of other = Facts.of body := by
  refine ⟨?_, isIteration_of body, ?_, ?_, fun other same => ?_⟩
  · rw [hasSuspension_of, List.any_eq_true]
  · simp [hasForIn_of, Node.isForIn]
  · simp [hasAsyncSuspension_of, Node.isAwait]
  · rw [of_eq_scan, of_eq_scan, scan_of_sameScope same]

/-- The body `{ f; yield for a; }` for a function `f`. -/
def besideFunction (function : Node) : Node :=
  Build.block [function, Build.suspensionStatement (some (Build.identifier "a")) true]

/-- A function that awaits in a loop over keys, and one that does nothing. -/
def busyFunction : Node :=
  let loop := Build.forInStatement (Build.identifier "k") (Build.identifier "o")
    (Build.asyncSuspensionStatement Option.none (Build.identifier "k"))
  Node.synthetic (.functionDeclaration (some "f") false [] (Build.block [loop]))

theorem of_besideFunction :
    let idle := Build.functionExpression [] (Build.block []) false
    SameScope (besideFunction idle) (besideFunction busyFunction) ∧
      Facts.of (besideFunction busyFunction) = ⟨true, true, false, false⟩ := by
  intro idle
  let statement := Build.suspensionStatement (some (Build.identifier "a")) true
  have same : SameScope (besideFunction idle) (besideFunction busyFunction) :=
    .parts .synthetic (.block [(idle, busyFunction), (statement, statement)])
      (by simpa [Kind.children] using ⟨.function rfl rfl, .refl statement⟩)
  obtain ⟨-, -, -, -, others⟩ := of_ownScope (besideFunction idle)
  exact ⟨same, (others _ same).trans rfl⟩

end Facts

end Resumable
