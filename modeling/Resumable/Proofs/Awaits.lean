import Resumable.Proofs.MixedBodies
import Resumable.Proofs.Revision

/-!
# Awaits that become yields

A body that only awaits is handed to a helper once each of its awaits has become a `yield`, whatever
the place in which it stands (`lowerAsync_resumes`).
-/

namespace Resumable.Delegation

open Build

/-- An `await` that was written as a `yield`, and what it waits for after the edit. -/
structure Resumption where
  await : Node
  operand : Node

/-- The `yield` that took the place of the `await`. -/
def Resumption.yield (resumption : Resumption) : Node := yieldExpression (some resumption.operand)

/-- What becomes of an `await`, once its operand was edited: a statement at its span that yields the
new operand, and that binds what comes back if the `await` did. -/
inductive Resumes : Node → Kind (Node × List Resumption × Option Node) → List Resumption → Node → Prop
  | await (span : Span) (operand : Node) (inOperand : List Resumption) (answer : Option Node) :
      Resumes ⟨span, .asyncSuspensionStatement none operand⟩
        (.asyncSuspensionStatement none (operand, inOperand, answer))
        (⟨⟨span, .asyncSuspensionStatement none operand⟩, answer.getD operand⟩ :: inOperand)
        ⟨span, .expressionStatement (yieldExpression (some (answer.getD operand)))⟩
  | binding (span : Span) (name : String) (operand : Node) (inOperand : List Resumption)
      (answer : Option Node) :
      Resumes ⟨span, .asyncSuspensionStatement (some name) operand⟩
        (.asyncSuspensionStatement (some name) (operand, inOperand, answer))
        (⟨⟨span, .asyncSuspensionStatement (some name) operand⟩, answer.getD operand⟩ :: inOperand)
        ⟨span, .expressionStatement
          (assignment (identifier name) (yieldExpression (some (answer.getD operand))))⟩

/-- The edit that writes awaits as yields. -/
def resumption : Revision Resumption := ⟨Node.isAwait, Resumes⟩

/-- In a scope that does not yield, the edit writes awaits as yields and reports nothing. -/
theorem revised_awaitStep {body : Node} (awaitsOnly : ∀ inner ∈ body.ownScope, inner.isYield = false)
    (log : Log) :
    let out := (body.editOwnScope awaitStep).run log
    ∃ resumed, out.2 = log ∧ resumption.Revised body resumed out.1 := by
  refine Revision.revised_editOwnScope (r := resumption)
    (W := fun (log : Log) _ (later : Log) => later = log)
    ⟨fun _ => rfl, fun first second => second.trans first⟩ (P := fun inner => inner.isYield = false)
    (fun node _notYield isAwait ih log => ?_) (fun node notYield notAwait => ?_) awaitsOnly log
  · obtain ⟨span, kind⟩ := node
    cases kind
    case asyncSuspensionStatement binding operand =>
      obtain ⟨inOperand, quiet, revised⟩ := ih operand (.head _) log
      have each : ∀ part ∈ [(operand, inOperand, ((operand.editOwnScope awaitStep).run log).1)],
          resumption.Revised part.1 part.2.1 part.2.2 := List.forall_mem_singleton.2 revised
      cases binding with
      | none =>
        exact ⟨_, quiet, .replaced (.asyncSuspensionStatement none (operand, inOperand, _)) rfl rfl rfl
          each (.await span operand inOperand _)⟩
      | some name =>
        exact ⟨_, quiet, .replaced (.asyncSuspensionStatement (some name) (operand, inOperand, _)) rfl
          rfl rfl each (.binding span name operand inOperand _)⟩
    all_goals cases isAwait
  · obtain ⟨span, kind⟩ := node
    cases kind
    -- Only a `yield` is reported, and any other node is rebuilt.
    case suspensionStatement | yieldExpression => cases notYield
    case asyncSuspensionStatement => cases notAwait
    all_goals rfl

/-- What a scope holds of some form once its awaits are `yield`s, if it held nothing of that form
beside the awaits, and the edit makes nothing of it beside the `yield`s. -/
theorem filter_ownScope_of_revised {q : Form → Bool} (notStatement : q .expressionStatement = false)
    (notAssignment : q .binaryExpression = false) (notName : q .identifier = false)
    {node : Node} {resumed : List Resumption} {answer : Option Node}
    (revised : resumption.Revised node resumed answer)
    (others : ∀ inner ∈ node.ownScope, inner.isAwait = false → q inner.form = false) :
    ((answer.getD node).ownScope.filter fun inner => q inner.form) =
      resumed.flatMap fun resumed => if q .yieldExpression then [resumed.yield] else [] := by
  refine revised.filter_ownScope (fun resumes each => ?_)
    (fun parts span => congrArg q ((Kind.form_map _ parts).trans (Kind.form_map _ parts).symm)) others
  cases resumes with
  | await span operand inOperand answer =>
    rw [List.flatMap_cons, ← each _ (.head _)]
    cases isCounted : q .yieldExpression <;>
      simp [Resumption.yield, yieldExpression, Node.synthetic, Node.ownScope_mk, Kind.form,
        Form.isFunctionScope, Form.isFunctionLike, Kind.children, Node.form, Node.kind, notStatement,
        isCounted]
  | binding span name operand inOperand answer =>
    rw [List.flatMap_cons, ← each _ (.head _)]
    cases isCounted : q .yieldExpression <;>
      simp [Resumption.yield, yieldExpression, assignment, binary, identifier, Node.synthetic,
        Node.ownScope_mk, Kind.form, Form.isFunctionScope, Form.isFunctionLike, Kind.children, Node.form,
        Node.kind, notStatement, notAssignment, notName, isCounted]

/-- A body that only awaits is handed to the helper without a report, as a function in which every
`await` became a `yield`.  The `yield`s in it are those that the awaits became, one after the other;
what holds no `await` is kept as it is, and so are the functions. -/
theorem lowerAsync_resumes (helpers : Helpers) (body : Node) (log : Log)
    (awaitsOnly : ∀ inner ∈ body.ownScope, inner.isYield = false) :
    ∃ resumed answer, let driven : Node := answer.getD body
      (lowerAsync helpers body).run log =
        (some ⟨body.span, .block [returnStatement (some (call (identifier helpers.awaiter)
          [this, functionExpression [] driven true]))]⟩, log) ∧
      resumption.Revised body resumed answer ∧
      (answer = none ↔ ∀ inner ∈ body.ownScope, inner.isAwait = false) ∧
      (∀ inner ∈ driven.ownScope, inner.isAwait = false) ∧
      resumed.map (·.await) = body.ownScope.filter Node.isAwait ∧
      resumed.map (·.yield) = driven.ownScope.filter (·.form == .yieldExpression) ∧
      driven.functions false = body.functions false := by
  obtain ⟨resumed, quiet, revised⟩ := revised_awaitStep awaitsOnly log
  have handedOver : (lowerAsync helpers body).run log =
      (some (delegate helpers.awaiter (((body.editOwnScope awaitStep).run log).1.getD body)),
        ((body.editOwnScope awaitStep).run log).2) := rfl
  -- The block for the helper has the span of the edited body.
  have span := revised.span_getD fun resumes => by cases resumes <;> rfl
  have awaits : resumed.map (·.await) = body.ownScope.filter Node.isAwait :=
    revised.map_notes fun becomes => by cases becomes <;> simp [Kind.children]
  refine ⟨resumed, _, ?_, revised, revised.eq_none_iff, ?_, awaits, ?_, functions_awaitStep body log⟩
  · rw [handedOver, quiet, delegate, span]
  · have left := filter_ownScope_of_revised (q := (· == .asyncSuspensionStatement)) rfl rfl rfl revised
      fun _ _ notAwait => notAwait
    have none := left.trans (List.flatMap_eq_nil_iff.2 fun _ _ => rfl)
    exact fun inner mem => Bool.eq_false_iff.2 (List.filter_eq_nil_iff.1 none inner mem)
  · have notYield : ∀ inner ∈ body.ownScope, (inner.form == .yieldExpression) = false := by
      rintro ⟨span, kind⟩ mem
      have calm := awaitsOnly _ mem
      cases kind
      case yieldExpression => cases calm
      all_goals rfl
    have left := filter_ownScope_of_revised (q := (· == .yieldExpression)) rfl rfl rfl revised
      fun inner mem _ => notYield inner mem
    rw [left]
    exact List.map_eq_flatMap

/-- The body `{ while (c) await x = f(await p); function g() { yield c; } }`. -/
def awaitInOperand : Node :=
  let condition := identifier "c"
  let inner := call (identifier "f") [asyncSuspensionStatement none (identifier "p")]
  block [Node.synthetic (.whileStatement condition (asyncSuspensionStatement (some "x") inner)),
    Node.synthetic (.functionDeclaration (some "g") false []
      (block [suspensionStatement (some condition) false]))]

theorem lowerAsync_awaitInOperand :
    (∀ inner ∈ awaitInOperand.ownScope, inner.isYield = false) ∧
      ∃ driven, (lowerAsync .standard awaitInOperand).run #[] =
          (some ⟨.synthetic, .block [returnStatement (some (call (identifier "__awaiter")
            [this, functionExpression [] driven true]))]⟩, #[]) ∧
        (driven.ownScope.filter (·.form == .yieldExpression)).length = 2 := by
  have awaitsOnly : ∀ inner ∈ awaitInOperand.ownScope, inner.isYield = false := by decide
  obtain ⟨resumed, answer, run, -, -, -, awaits, yields, -⟩ :=
    lowerAsync_resumes .standard awaitInOperand #[] awaitsOnly
  refine ⟨awaitsOnly, _, run, ?_⟩
  rw [← yields, List.length_map, ← List.length_map (·.await), awaits]
  rfl

end Resumable.Delegation
