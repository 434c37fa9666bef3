import Resumable.Proofs.Census
import Resumable.Proofs.Course

/-!
# What the engines of the library make of a body

The for-in loops of a body are lowered (`walked`), its iterating suspensions are replaced
(`desugared`), its awaits become yields if it only awaits (`rewritten`), and the body that comes out
is handed to a helper (`carryOut_standard`).  On the way names are taken, and what else stands in
the scope of the body stands there still (`census_moved`).
-/

namespace Resumable.Lowering

variable (helpers : Helpers) (plan : Plan)

/-! ## The stages -/

/-- A tree and a supply, after the for-in loops of its scope were lowered if the plan says so. -/
def walked (tree : Node) (names : NameSupply) : Node × NameSupply :=
  if plan.lowerForIn then
    let out := (ForIn.lower tree).run names
    (out.1.getD tree, out.2)
  else (tree, names)

/-- A tree and a supply, after the iterating suspensions of its scope were replaced if the plan says
so. -/
def desugared (tree : Node) (names : NameSupply) : Node × NameSupply :=
  if plan.desugarIteration then
    let out := (Iteration.desugar (.standard helpers) tree).run ((), names)
    (out.1.getD tree, out.2.2)
  else (tree, names)

/-- A tree, after its awaits became yields if the plan calls for the async engine. -/
def rewritten (tree : Node) (log : Log) : Node :=
  match plan.target with
  | .generator => tree
  | .async => ((tree.editOwnScope Delegation.awaitStep).run log).1.getD tree

/-- A body that suspends, after all that is done to it before it is handed to a helper. -/
def moved (tree : Node) (names : NameSupply) (log : Log) : Node :=
  let walked := walked plan tree names
  rewritten plan (desugared helpers plan walked.1 walked.2).1 log

/-- The helper that drives a body. -/
def driver : String :=
  match plan.target with
  | .generator => helpers.generator
  | .async => helpers.awaiter

section Stages

variable (tree : Node) (s : State Unit)

theorem forInStage_eq :
    let out := (forInStage (.standard helpers) plan tree).run s
    (out.1.getD tree, out.2.names) = walked plan tree s.names ∧ out.2.log = s.log := by
  obtain ⟨lowerForIn, desugarIteration, target⟩ := plan
  cases lowerForIn <;> exact ⟨rfl, rfl⟩

theorem iterationStage_eq :
    let out := (iterationStage (.standard helpers) plan tree).run s
    (out.1.getD tree, out.2.names) = desugared helpers plan tree s.names ∧ out.2.log = s.log := by
  obtain ⟨lowerForIn, desugarIteration, target⟩ := plan
  cases desugarIteration <;> exact ⟨rfl, rfl⟩

theorem targetStage_eq :
    let out := (targetStage (.standard helpers) plan tree).run s
    out.1 = some (Delegation.delegate (driver helpers plan) (rewritten plan tree s.log)) ∧
      out.2.names = s.names := by
  obtain ⟨lowerForIn, desugarIteration, target⟩ := plan
  cases target <;> exact ⟨rfl, rfl⟩

end Stages

/-- The stages before the last one leave the body that it gets, and touch no log. -/
theorem prepare_standard (body : Node) (nested : Option Node) (s : State Unit) :
    let out := (prepare (.standard helpers) plan body nested).run s
    let walked := walked plan (nested.getD body) s.names
    (out.1.getD body, out.2.names) = desugared helpers plan walked.1 walked.2 ∧
      out.2.log = s.log := by
  intro out walked
  let first := (andThen (forInStage (.standard helpers) plan) body nested).run s
  obtain ⟨walkedEq, log₁⟩ := forInStage_eq helpers plan (nested.getD body) s
  obtain ⟨desugaredEq, log₂⟩ := iterationStage_eq helpers plan (first.1.getD body) first.2
  rw [← or_getD _ nested body] at walkedEq
  rw [← or_getD _ first.1 body] at desugaredEq
  have firstEq : (first.1.getD body, first.2.names) = walked := walkedEq
  refine ⟨desugaredEq.trans ?_, log₂.trans log₁⟩
  simp only [← firstEq]

/-- What becomes of a body that suspends. -/
theorem carryOut_standard (body : Node) (nested : Option Node) (s : State Unit) :
    let out := (carryOut (.standard helpers) body nested (some plan)).run s
    let walked := walked plan (nested.getD body) s.names
    out.1 = some (Delegation.delegate (driver helpers plan)
        (moved helpers plan (nested.getD body) s.names s.log)) ∧
      out.2.names = (desugared helpers plan walked.1 walked.2).2 := by
  intro out walked
  let ready := (prepare (.standard helpers) plan body nested).run s.lowering
  obtain ⟨readyEq, log⟩ := prepare_standard helpers plan body nested s.lowering
  obtain ⟨result, kept⟩ := targetStage_eq helpers plan (ready.1.getD body) ready.2
  have tree : ready.1.getD body = (desugared helpers plan walked.1 walked.2).1 :=
    congrArg Prod.fst readyEq
  refine ⟨?_, kept.trans (congrArg Prod.snd readyEq)⟩
  rw [show out.1 = _ from congrArg (Option.or · ready.1) result, log, tree]
  rfl

/-! ## What stands in a body -/

theorem census_walked (tree : Node) (names : NameSupply) :
    let out := walked plan tree names
    ∃ taken, names.Gives taken out.2 ∧ ∀ c : Census, (∀ name ∈ taken, c.Ignores name) →
      ∀ isMember, out.1.census c false isMember = tree.census c plan.lowerForIn isMember := by
  intro out
  cases lowers : plan.lowerForIn with
  | false =>
    have outEq : out = (tree, names) := by simp [out, walked, lowers]
    rw [outEq]
    exact ⟨[], NameSupply.isTrace_gives.nil names, fun _ _ _ => rfl⟩
  | true =>
    obtain ⟨taken, gives, census⟩ := ForIn.census_lowerAt tree none names
    have outEq : out = (((ForIn.lowerAt tree none).run names).1.getD tree,
        ((ForIn.lowerAt tree none).run names).2) := by
      simp only [out, walked, lowers, if_true]
      rfl
    rw [outEq]
    refine ⟨taken, gives, fun c ignores isMember => (census c ignores isMember).trans ?_⟩
    split <;> rfl

theorem census_desugared (tree : Node) (names : NameSupply) :
    let out := desugared helpers plan tree names
    ∃ taken, names.Gives taken out.2 ∧ ∀ c : Census, (∀ name ∈ taken, c.Ignores name) →
      c.named .identifier helpers.getIterator = 0 → (∀ span flag, c.yielding span flag = 0) →
      ∀ isMember, out.1.census c false isMember = tree.census c false isMember := by
  intro out
  cases desugars : plan.desugarIteration with
  | false =>
    have outEq : out = (tree, names) := by simp [out, desugared, desugars]
    rw [outEq]
    exact ⟨[], NameSupply.isTrace_gives.nil names, fun _ _ _ _ _ => rfl⟩
  | true =>
    have outEq : out = (((Iteration.desugar (.standard helpers) tree).run ((), names)).1.getD tree,
        ((Iteration.desugar (.standard helpers) tree).run ((), names)).2.2) := by
      simp only [out, desugared, desugars, if_true]
    rw [outEq]
    exact Iteration.census_desugar helpers tree ((), names)

theorem census_rewritten {c : Census} (awaits : c.named .asyncSuspensionStatement = c.named .identifier)
    (tree : Node) (log : Log) (isMember : Bool) :
    (rewritten plan tree log).census c false isMember = tree.census c false isMember := by
  unfold rewritten
  split
  · rfl
  · exact Delegation.census_awaitStep awaits tree log isMember

/-- In a body that is handed to a helper stands what stood in it before, without what lowering its
for-in loops drops and apart from the names that were taken. -/
theorem census_moved (tree : Node) (names : NameSupply) (log : Log) :
    let walked := walked plan tree names
    ∃ taken, names.Gives taken (desugared helpers plan walked.1 walked.2).2 ∧
      ∀ c : Census, (∀ name ∈ taken, c.Ignores name) →
        c.named .identifier helpers.getIterator = 0 → (∀ span flag, c.yielding span flag = 0) →
        c.named .asyncSuspensionStatement = c.named .identifier → ∀ isMember,
        (moved helpers plan tree names log).census c false isMember =
          tree.census c plan.lowerForIn isMember := by
  intro walked
  obtain ⟨taken₁, gives₁, census₁⟩ := census_walked plan tree names
  obtain ⟨taken₂, gives₂, census₂⟩ := census_desugared helpers plan walked.1 walked.2
  refine ⟨taken₁ ++ taken₂, NameSupply.isTrace_gives.append gives₁ gives₂,
    fun c ignores helper quiet awaits isMember => ?_⟩
  simp only [List.mem_append, or_imp, forall_and] at ignores
  rw [moved, census_rewritten plan awaits, census₂ c ignores.2 helper quiet, census₁ c ignores.1]

end Resumable.Lowering
