import Mathlib.Algebra.Order.BigOperators.Group.List
import Mathlib.Algebra.Order.Ring.Nat
import Mathlib.Data.List.Flatten
import Resumable.Proofs.MixedBodies

/-!
# The suspensions that lowering for-in loops conserves

Lowering the for-in loops of a scope takes every loop apart and puts its parts into a block.  Nothing
suspends twice after that, and what suspends the function is lost in one place only: where the
initializer of a loop declares the loop variable and suspends too (`lower_conserves_iff`).
-/

namespace Resumable

theorem Kind.kept_sublist {α : Type} (drops : α → Bool) (kind : Kind α) :
    (kind.kept drops).Sublist kind.children := by
  by_cases loop : kind.form = .forInStatement
  · cases kind <;> try cases loop
    rename_i initializer expression body
    simp only [kept, children]
    split
    · exact List.sublist_cons_self _ _
    · exact .refl _
  · rw [kept_eq_children _ loop]

namespace Node

/-- The suspensions of a function's own scope in source order, each by the range that it covers and
the way in which it suspends. -/
def marks (body : Node) : List (Span × Mode) :=
  body.ownScope.flatMap fun inner => inner.mode?.toList.map fun mode => (inner.span, mode)

variable {node loop : Node} {loopsLowered inOperand : Bool}

theorem marks_eq (node : Node) (inOperand : Bool) :
    node.marks = (node.suspensions false inOperand).map fun suspension =>
      (suspension.span, suspension.mode) := by
  rw [List.map_eq_flatMap, flatMap_suspensions_ownScope (fun span mode => [(span, mode)])]
  exact List.flatMap_congr fun inner _ => List.map_eq_flatMap

/-- What is left of the suspensions stands in its order. -/
theorem suspensions_sublist (node : Node) (inOperand : Bool) :
    (node.suspensions loopsLowered inOperand).Sublist (node.suspensions false inOperand) := by
  induction node using inductionOn generalizing inOperand with
  | step node ih =>
    cases scope : node.isFunctionScope with
    | true => rw [suspensions_scope scope, suspensions_scope scope]
    | false =>
      rw [suspensions_plain scope, suspensions_plain scope, keptChildren_false]
      let left (child : Node) := child.suspensions loopsLowered (inOperand || node.isReplaceable)
      have children : ((node.keptChildren loopsLowered).flatMap left).Sublist
          (node.children.flatMap left) := List.Sublist.flatMap (Kind.kept_sublist _ _) left
      have each : (node.children.flatMap left).Sublist (node.children.flatMap fun child =>
          child.suspensions false (inOperand || node.isReplaceable)) :=
        List.Sublist.flatMap_right _ fun child mem => ih child mem _
      exact .append_left (children.trans each) _

/-- A loop whose initializer is dropped with a suspension suspends in fewer places when it is
lowered. -/
theorem length_suspensions_lt_of_drops (drops : node.dropsSuspension = true) :
    (node.suspensions true inOperand).length < (node.suspensions false inOperand).length := by
  obtain ⟨span, kind⟩ := node
  cases kind <;> try cases drops
  rename_i initializer expression body
  obtain ⟨declares, suspends⟩ := Bool.and_eq_true_iff.1 drops
  have lost : initializer.suspensions false inOperand ≠ [] := by
    intro none
    obtain ⟨inner, mem, isSuspension⟩ := List.any_eq_true.1 suspends
    have calm := (forall_mode_iff isSuspension_eq initializer inOperand).1 (by simp [none]) inner mem
    rw [isSuspension] at calm
    cases calm
  have fewer (part : Node) : (part.suspensions true inOperand).length ≤
      (part.suspensions false inOperand).length := (suspensions_sublist part inOperand).length_le
  have fromExpression := fewer expression
  have fromBody := fewer body
  have lost := List.length_pos_iff.2 lost
  have plain : isFunctionScope ⟨span, .forInStatement initializer expression body⟩ = false := rfl
  rw [suspensions_plain plain, suspensions_plain plain]
  simp [keptChildren, Node.kind, Kind.kept, dropsInitializer, declares, suspension?, mode?,
    isReplaceable]
  omega

/-- If any loop of a scope drops a suspension, lowering the loops leaves fewer of them. -/
theorem length_suspensions_lt (mem : loop ∈ node.ownScope) (drops : loop.dropsSuspension = true) :
    (node.suspensions true inOperand).length < (node.suspensions false inOperand).length := by
  induction node using inductionOn generalizing inOperand with
  | step node ih =>
    obtain ⟨plain, rfl | ⟨child, isChild, mem⟩⟩ := mem_ownScope_iff.1 mem
    · exact length_suspensions_lt_of_drops drops
    by_cases dropsItself : node.dropsSuspension = true
    · exact length_suspensions_lt_of_drops dropsItself
    have fewer (inOperand : Bool) : (child.suspensions true inOperand).length <
        (child.suspensions false inOperand).length := ih child isChild mem
    have kept : child ∈ node.keptChildren true := by
      by_contra dropped
      obtain ⟨span, kind⟩ := node
      by_cases isLoop : kind.form = .forInStatement
      · cases kind <;> try cases isLoop
        rename_i initializer expression body
        -- What is dropped is the initializer, and it suspends.
        simp only [keptChildren, Node.kind, Kind.kept] at dropped
        simp only [Node.children, Node.kind, Kind.children] at isChild
        split at dropped
        · rename_i declares
          have isInitializer : child = initializer := by
            simpa [show child ≠ expression ∧ child ≠ body by simpa using dropped] using isChild
          have suspends : initializer.ownScope.any isSuspension = true := by
            by_contra calm
            have none : initializer.suspensions false false = [] :=
              suspensions_eq_nil (by simpa using calm)
            have fewer := fewer false
            rw [isInitializer, none] at fewer
            exact Nat.not_lt_zero _ fewer
          refine dropsItself (Bool.and_eq_true_iff.2 ⟨?_, suspends⟩)
          simpa [dropsInitializer] using declares
        · exact dropped isChild
      · have keepsAll : keptChildren true ⟨span, kind⟩ = kind.children := Kind.kept_eq_children _ isLoop
        exact dropped (keepsAll ▸ isChild)
    have left : ((node.keptChildren true).map fun child =>
        (child.suspensions true (inOperand || node.isReplaceable)).length).sum <
        ((node.keptChildren true).map fun child =>
          (child.suspensions false (inOperand || node.isReplaceable)).length).sum :=
      List.sum_lt_sum _ _ (fun other _ => (suspensions_sublist other _).length_le) ⟨child, kept, fewer _⟩
    have whole := ((Kind.kept_sublist (dropsInitializer true) node.kind).flatMap fun child =>
      child.suspensions false (inOperand || node.isReplaceable)).length_le
    rw [List.length_flatMap] at whole
    rw [suspensions_plain plain, suspensions_plain plain, keptChildren_false, List.length_append,
      List.length_append, List.length_flatMap]
    exact Nat.add_lt_add_left (Nat.lt_of_lt_of_le left whole) _

end Node

namespace ForIn

/-- Lowering the for-in loops of a scope conserves its suspensions, apart from their order, exactly if
no loop of the scope has one in an initializer that declares the loop variable. -/
theorem lower_conserves_iff (tree : Node) (names : NameSupply) :
    (((lower tree).run names).1.getD tree).marks.Perm tree.marks ↔
      ∀ loop ∈ tree.ownScope, loop.dropsSuspension = false := by
  have lowered := suspensions_lowerAt tree none names false
  rw [Node.marks_eq _ false, Node.marks_eq tree false]
  constructor
  · intro conserved loop mem
    refine Bool.eq_false_iff.2 fun drops => ?_
    have fewer : (tree.suspensions true false).length < (tree.suspensions false false).length :=
      Node.length_suspensions_lt mem drops
    have same := conserved.length_eq
    rw [List.length_map, List.length_map] at same
    exact absurd (lowered.length_eq.symm.trans same) (Nat.ne_of_lt fewer)
  · intro kept
    rw [← Node.suspensions_kept kept]
    exact lowered.map _

open Build in
/-- The loop `for (var k = yield 1 in o) {}`. -/
def suspendingKey : Node :=
  let declaration := variableStatement "k" (some ⟨⟨13, 20⟩, .yieldExpression (some (number 1))⟩)
  forInStatement declaration (identifier "o") (block [])

/-- Of its initializer only the name is left when it is lowered, so the `yield` is lost. -/
theorem suspendingKey_lost :
    let names := Options.standard.nameSupply
    let lowered := ((lower suspendingKey).run names).1.getD suspendingKey
    suspendingKey.marks = [(⟨13, 20⟩, .expression)] ∧ lowered.marks = [] ∧
      ¬ lowered.marks.Perm suspendingKey.marks := by
  intro names lowered
  have before : suspendingKey.marks = [(⟨13, 20⟩, .expression)] := by decide
  have left : suspendingKey.suspensions true false = [] := by decide
  have after : lowered.marks = [] := by
    have same := suspensions_lowerAt suspendingKey none names false
    rw [left] at same
    rw [Node.marks_eq _ false]
    exact List.map_eq_nil_iff.2 (List.perm_nil.1 same)
  refine ⟨before, after, fun conserved => ?_⟩
  rw [before, after] at conserved
  cases conserved.length_eq

end ForIn

end Resumable
