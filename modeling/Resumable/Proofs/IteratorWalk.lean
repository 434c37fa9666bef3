import Resumable.Loop.ForEach
import Resumable.Proofs.Evaluator

/-!
# Walking an iterator

What the block does that stands for a `yield for` (`execute_loop`): it opens an iterator and takes
its steps, and yields what they answer.  Over an array it yields the elements (`outcome_loop`).  The
induction is on what the iterator has still to give, and `Walking` is what holds between two rounds.
-/

namespace Resumable.Evaluator

open Build

/-! ## The walk -/

/-- What the next step of an iterator answers that has these values still to give. -/
def stepOf : List Value → Value
  | [] => .step true .undefined
  | value :: _ => .step false value

theorem advance_eq {s : State} {address : Nat} {rest : List Value}
    (there : s.iterators[address]? = some rest) :
    ∃ iterators : List (List Value), iterators[address]? = some rest.tail ∧
      s.advance address = (stepOf rest, { s with iterators }) := by
  cases rest with
  | nil => exact ⟨s.iterators, there, by simp [State.advance, there, stepOf]⟩
  | cons value rest =>
    have lt : address < s.iterators.length := (List.getElem?_eq_some_iff.1 there).1
    refine ⟨s.iterators.set address rest, List.getElem?_set_self lt, ?_⟩
    simp [State.advance, there, stepOf]

/-- Takes a step and keeps it in a variable. -/
def takeStep (iterator step : String) : Eval Unit := do
  assign step (← next (← read iterator))

/-- One round of the walk. -/
def walkRound (element iterator step : String) : Eval Bool := do
  if (Value.boolean !(← property (← read step) "done").isTrue).isTrue then
    assign element (← property (← read step) "value")
    suspend [← read element]
    takeStep iterator step
    return true
  else return false

/-! ## What the built nodes mean -/

theorem execute_block (span : Span) (statements : List Node) :
    (meaning ⟨span, .block statements⟩).execute =
      statements.forM fun statement => (meaning statement).execute := by
  rw [meaning_mk]
  exact List.forM_map ..

theorem execute_variable (name : String) (value : Node) :
    (meaning (variableStatement name (some value))).execute = (do
      assign name (← (meaning value).evaluate)) := by
  have declared : (meaning (variableStatement name (some value))).execute = (do
      (meaning (variableDeclaration name (some value))).declare
      pure ()) := rfl
  rw [declared, bind_pure_unit]
  rfl

theorem execute_for (initializer condition incrementor body : Node) :
    (meaning (forStatement (some initializer) (some condition) (some incrementor) body)).execute = (do
      (meaning initializer).execute
      .repeatWhile do
        if (← (meaning condition).evaluate).isTrue then
          (meaning body).execute
          let _ ← (meaning incrementor).evaluate
          return true
        else return false) := rfl

theorem execute_yield (value : Node) :
    (meaning (suspensionStatement (some value) false)).execute = (do
      suspend [← (meaning value).evaluate]) := rfl

theorem evaluate_identifier (name : String) :
    (meaning (identifier name)).evaluate = read name := rfl

theorem evaluate_property (object : Node) (name : String) :
    (meaning (Build.property object name)).evaluate = (do
      property (← (meaning object).evaluate) name) := rfl

theorem evaluate_not (operand : Node) :
    (meaning (Build.not operand)).evaluate = (do
      return .boolean !(← (meaning operand).evaluate).isTrue) := rfl

theorem evaluate_assignment (name : String) (value : Node) :
    (meaning (assignment (identifier name) value)).evaluate = (do
      let value ← (meaning value).evaluate
      assign name value
      return value) := rfl

theorem evaluate_getIterator (operand : Node) :
    (meaning (Build.call (identifier "__getIterator") [operand])).evaluate = (do
      getIterator (← (meaning operand).evaluate)) := rfl

theorem evaluate_next (iterator : String) :
    (meaning (ForEach.next iterator)).evaluate = (do next (← read iterator)) := rfl

/-- What the block that stands for a `yield for` does. -/
theorem execute_loop (element iterator step : String) (span : Span) (operand : Node) :
    (meaning (ForEach.loop "__getIterator" iterator step span (variableStatement element none) operand
      (block [suspensionStatement (some (identifier element)) false]))).execute = (do
        assign iterator (← getIterator (← (meaning operand).evaluate))
        takeStep iterator step
        .repeatWhile (walkRound element iterator step)) := by
  have bound : bindVariable (variableStatement element none) (Build.property (identifier step) "value") =
      variableStatement element (some (Build.property (identifier step) "value")) := rfl
  have statements : (block [suspensionStatement (some (identifier element)) false]).statements =
      [suspensionStatement (some (identifier element)) false] := rfl
  simp only [ForEach.loop, bound, statements, execute_block, List.forM_eq_forM, List.forM_cons,
    List.forM_nil, bind_pure_unit]
  rw [execute_variable, execute_for, execute_variable, evaluate_getIterator, evaluate_next, evaluate_not,
    evaluate_property, evaluate_identifier, evaluate_assignment, evaluate_next]
  rw [block, Node.synthetic, execute_block]
  simp only [List.forM_eq_forM, List.forM_cons,
    List.forM_nil, bind_pure_unit, execute_variable, execute_yield, evaluate_property, evaluate_identifier]
  simp only [takeStep, walkRound, bind_assoc, pure_bind]

/-! ## Running the walk -/

/-- The walk stands where its iterator has these values still to give: the step that answers the
first of them was taken. -/
structure Walking (iterator step : String) (rest : List Value) (s : State) : Prop where
  stepTaken : s.store step = stepOf rest
  opened : ∃ address, s.store iterator = .iterator address ∧ s.iterators[address]? = some rest.tail

/-- Two states differ only in iterators, in what was yielded and in the variables of a walk. -/
structure SameButWalk (element step : String) (s s' : State) : Prop where
  store : ∀ name, name ≠ element → name ≠ step → s'.store name = s.store name
  items : s'.items = s.items
  sourceCalls : s'.sourceCalls = s.sourceCalls

theorem SameButWalk.trans {element step : String} {s middle s' : State}
    (first : SameButWalk element step s middle) (second : SameButWalk element step middle s') :
    SameButWalk element step s s' where
  store name notElement notStep :=
    (second.store name notElement notStep).trans (first.store name notElement notStep)
  items := second.items.trans first.items
  sourceCalls := second.sourceCalls.trans first.sourceCalls

theorem outcome_takeStep {iterator step : String} {rest : List Value} {s : State} {address : Nat}
    (distinct : iterator ≠ step) (opened : s.store iterator = .iterator address)
    (there : s.iterators[address]? = some rest) (element : String) :
    ∃ s', (takeStep iterator step).outcome s = some (.ok (), s') ∧ Walking iterator step rest s' ∧
      SameButWalk element step s s' ∧ s'.suspended = s.suspended := by
  obtain ⟨iterators, still, advanced⟩ := advance_eq there
  let s' := State.assign { s with iterators } step (stepOf rest)
  have run : (takeStep iterator step).outcome s = some (.ok (), s') := by
    have stepRead : (read iterator).outcome s = some (.ok (.iterator address), s) := by
      rw [← opened]
      rfl
    have stepped : (next (.iterator address)).outcome s = some (.ok (stepOf rest), { s with iterators }) := by
      change some (Except.ok (s.advance address).1, (s.advance address).2) = _
      rw [advanced]
    rw [takeStep, Computation.outcome_bind_ok stepRead, Computation.outcome_bind_ok stepped]
    rfl
  refine ⟨s', run, ⟨?_, address, ?_, still⟩, ⟨?_, rfl, rfl⟩, rfl⟩
  · simp [s', State.assign]
  · simpa [s', State.assign, distinct] using opened
  · intro name _ notStep
    simp [s', State.assign, notStep]

/-- A round that yields a value. -/
theorem outcome_walkRound_cons {element iterator step : String} {value : Value} {rest : List Value}
    {s : State} (distinct : element ≠ iterator ∧ iterator ≠ step)
    (walking : Walking iterator step (value :: rest) s) :
    ∃ s', (walkRound element iterator step).outcome s = some (.ok true, s') ∧
      Walking iterator step rest s' ∧ SameButWalk element step s s' ∧
      s'.suspended = s.suspended ++ [value] := by
  obtain ⟨stepTaken, address, opened, there⟩ := walking
  let bound := (s.assign element value).suspend [value]
  have openedStill : bound.store iterator = .iterator address := by
    simpa [bound, State.assign, State.suspend, distinct.1.symm] using opened
  obtain ⟨s', stepped, walking', same, suspended⟩ :=
    outcome_takeStep (s := bound) distinct.2 openedStill there element
  refine ⟨s', ?_, walking', ?_, suspended⟩
  · have stepRead : (read step).outcome s = some (.ok (.step false value), s) := by
      change some (Except.ok (s.store step), s) = _
      rw [stepTaken]
      rfl
    have elementRead : (read element).outcome (s.assign element value) =
        some (.ok value, s.assign element value) := by
      change some (Except.ok ((s.assign element value).store element), _) = _
      simp [State.assign]
    rw [walkRound, Computation.outcome_bind_ok stepRead]
    change Computation.outcome (do
      assign element (← property (← read step) "value")
      suspend [← read element]
      takeStep iterator step
      return true) s = _
    rw [Computation.outcome_bind_ok stepRead]
    change Computation.outcome (do
      assign element value
      suspend [← read element]
      takeStep iterator step
      return true) s = _
    have assigned : (assign element value).outcome s = some (.ok (), s.assign element value) := rfl
    have yielded : (suspend [value]).outcome (s.assign element value) = some (.ok (), bound) := rfl
    rw [Computation.outcome_bind_ok assigned, Computation.outcome_bind_ok elementRead,
      Computation.outcome_bind_ok yielded, Computation.outcome_bind_ok stepped]
    rfl
  · have first : SameButWalk element step s bound := by
      refine ⟨fun name notElement _ => ?_, rfl, rfl⟩
      simp [bound, State.assign, State.suspend, notElement]
    exact first.trans same

/-- The round that finds the iterator at its end. -/
theorem outcome_walkRound_nil {element iterator step : String} {s : State}
    (walking : Walking iterator step [] s) :
    (walkRound element iterator step).outcome s = some (.ok false, s) := by
  have stepRead : (read step).outcome s = some (.ok (.step true .undefined), s) := by
    change some (Except.ok (s.store step), s) = _
    rw [walking.stepTaken]
    rfl
  rw [walkRound, Computation.outcome_bind_ok stepRead]
  rfl

/-- The walk yields what its iterator has still to give. -/
theorem outcome_walk {element iterator step : String}
    (distinct : element ≠ iterator ∧ iterator ≠ step)
    {rest : List Value} {s : State} (walking : Walking iterator step rest s) :
    ∃ s', (Computation.repeatWhile (walkRound element iterator step)).outcome s = some (.ok (), s') ∧
      SameButWalk element step s s' ∧ s'.suspended = s.suspended ++ rest := by
  induction rest generalizing s with
  | nil =>
    refine ⟨s, ?_, ⟨fun _ _ _ => rfl, rfl, rfl⟩, (List.append_nil _).symm⟩
    exact Computation.outcome_repeatWhile_false (outcome_walkRound_nil walking)
  | cons value rest ih =>
    obtain ⟨middle, round, walking', same, suspended⟩ := outcome_walkRound_cons distinct walking
    obtain ⟨s', run, same', suspended'⟩ := ih walking'
    refine ⟨s', ?_, same.trans same', ?_⟩
    · rw [Computation.outcome_repeatWhile_true round, run]
    · rw [suspended', suspended, List.append_assoc]
      rfl

/-- The block that stands for a `yield for` over an array yields the elements of the array. -/
theorem outcome_loop {element iterator step : String} (span : Span) {operand : Node} {t t₁ : State}
    {items : List Value} (distinct : element ≠ iterator ∧ iterator ≠ step)
    (evaluated : (meaning operand).evaluate.outcome t = some (.ok (.array items), t₁)) :
    ∃ t', (meaning (ForEach.loop "__getIterator" iterator step span (variableStatement element none)
        operand (block [suspensionStatement (some (identifier element)) false]))).execute.outcome t =
          some (.ok (), t') ∧
      (∀ name, name ≠ element → name ≠ iterator → name ≠ step → t'.store name = t₁.store name) ∧
      t'.items = t₁.items ∧ t'.sourceCalls = t₁.sourceCalls ∧ t'.suspended = t₁.suspended ++ items := by
  let opened := (t₁.openIterator items).assign iterator (.iterator t₁.iterators.length)
  have isOpen : opened.store iterator = .iterator t₁.iterators.length := by
    simp [opened, State.assign]
  have there : opened.iterators[t₁.iterators.length]? = some items := by
    simp [opened, State.assign, State.openIterator]
  obtain ⟨t₂, stepped, walking, same₂, suspended₂⟩ :=
    outcome_takeStep distinct.2 isOpen there element
  obtain ⟨t', walked, same', suspended'⟩ := outcome_walk distinct walking
  have gotten : (getIterator (.array items)).outcome t₁ =
      some (.ok (.iterator t₁.iterators.length), t₁.openIterator items) := rfl
  have assigned : (assign iterator (.iterator t₁.iterators.length)).outcome (t₁.openIterator items) =
      some (.ok (), opened) := rfl
  have walkedAll := same₂.trans same'
  refine ⟨t', ?_, fun name notElement notIterator notStep => ?_, walkedAll.items,
    walkedAll.sourceCalls, ?_⟩
  · rw [execute_loop, Computation.outcome_bind_ok evaluated, Computation.outcome_bind_ok gotten,
      Computation.outcome_bind_ok assigned, Computation.outcome_bind_ok stepped, walked]
  · rw [walkedAll.store name notElement notStep]
    simp [opened, State.assign, State.openIterator, notIterator]
  · rw [suspended', suspended₂]
    rfl

end Resumable.Evaluator
