import Resumable.Lowering.Run
import Resumable.Proofs.FreshNames
import Resumable.Proofs.IteratorWalk
import Resumable.Proofs.ScopeEdits

/-!
# Desugaring keeps the meaning

`Desugared` relates a node to what desugaring its iterating suspensions makes of it: some `yield
for` statements became walks of an iterator with three fresh names each.  The new node follows the
old one (`Desugared.simulated`): it yields the same values, calls `source` as often, and gives the
same values to all variables but the fresh ones.  `follows_walk` is the case of a walk; all other
cases follow from the parts of the node (`simulated_of_parts`).  A run needs every operand of `yield
for` to be an array, as an iterator can only be opened on one.
-/

namespace Resumable

open Build

namespace Evaluator

/-! ## States that agree -/

/-- The states differ only in iterators and in variables that are not taken. -/
structure Agree (taken : String → Prop) (s t : State) : Prop where
  store : ∀ name, taken name → t.store name = s.store name
  items : t.items = s.items
  suspended : t.suspended = s.suspended
  sourceCalls : t.sourceCalls = s.sourceCalls

/-- Something that is no array was gone over. -/
def State.isExcused (s : State) : Prop := ∃ value ∈ s.iterated, value.isArray = false

variable {taken : String → Prop} {α : Type}

/-- The second computation does what the first one does, unless that goes over something that is no
array. -/
abbrev Keeps (taken : String → Prop) (x y : Eval α) : Prop :=
  Computation.Follows State.isExcused (Agree taken) x y

theorem keeps_read {name : String} (isTaken : taken name) : Keeps taken (read name) (read name) :=
  .act (fun _ excused => excused) fun _ _ agree => ⟨(agree.store name isTaken).symm, agree⟩

theorem keeps_assign {name : String} (value : Value) :
    Keeps taken (assign name value) (assign name value) := by
  refine .act (fun _ excused => excused) fun s t agree => ⟨rfl, ?_, agree.items, agree.suspended,
    agree.sourceCalls⟩
  intro other isTaken
  have same := agree.store other isTaken
  simp only [State.assign, same]

theorem keeps_suspend (values : List Value) : Keeps taken (suspend values) (suspend values) :=
  .act (fun _ excused => excused) fun _ _ agree =>
    ⟨rfl, agree.store, agree.items, congrArg (· ++ values) agree.suspended, agree.sourceCalls⟩

theorem State.iterated_iterate (s : State) (value : Value) :
    (s.iterate value).iterated = s.iterated ++ [value] := by
  cases value <;> rfl

theorem keeps_iterate (value : Value) : Keeps taken (iterate value) (iterate value) := by
  refine .act ?_ fun s t agree => ⟨rfl, ?_⟩
  · rintro s ⟨other, mem, notArray⟩
    refine ⟨other, ?_, notArray⟩
    rw [State.iterated_iterate]
    exact List.mem_append_left _ mem
  · obtain ⟨store, items, suspended, sourceCalls⟩ := agree
    cases value
    case array values => exact ⟨store, items, congrArg (· ++ values) suspended, sourceCalls⟩
    all_goals exact ⟨store, items, suspended, sourceCalls⟩

theorem keeps_callSource : Keeps taken callSource callSource :=
  .act (fun _ excused => excused) fun _ _ agree =>
    ⟨congrArg Value.array agree.items.symm, agree.store, agree.items, agree.suspended,
      congrArg (· + 1) agree.sourceCalls⟩

theorem keeps_property (value : Value) (name : String) :
    Keeps taken (property value name) (property value name) := by
  unfold property
  split
  · exact .pure _
  · exact .pure _
  · exact .pure _
  · exact .fail

/-! ## Nodes that keep a meaning -/

/-- Calls that open or step an iterator. -/
def usesIterator (node : Node) : Bool :=
  match node.kind with
  | .callExpression target _ => callee target = .next || callee target = .function "__getIterator"
  | _ => false

/-- The second node does what the first one does, wherever it stands. -/
structure Simulated (taken : String → Prop) (node node' : Node) : Prop where
  execute : Keeps taken (meaning node).execute (meaning node').execute
  evaluate : Keeps taken (meaning node).evaluate (meaning node').evaluate
  declare : Keeps taken (meaning node).declare (meaning node').declare
  object : Keeps taken (meaning node).object (meaning node').object
  callee : callee node' = callee node
  name : node'.identifierName? = node.identifierName?

section Parts

variable (taken)

/-- Two nodes in the same place, each with its meaning. -/
noncomputable abbrev left (pair : Node × Node) : Part := (pair.1, meaning pair.1)

noncomputable abbrev right (pair : Node × Node) : Part := (pair.2, meaning pair.2)

variable {taken}

theorem keeps_evaluateOr {pair? : Option (Node × Node)} (value : Value)
    (parts : ∀ pair ∈ pair?.toList, Simulated taken pair.1 pair.2) :
    Keeps taken (evaluateOr value (pair?.map left)) (evaluateOr value (pair?.map right)) := by
  cases pair? with
  | none => exact .pure _
  | some pair => exact (parts pair (by simp)).evaluate

theorem keeps_executeOr {pair? : Option (Node × Node)}
    (parts : ∀ pair ∈ pair?.toList, Simulated taken pair.1 pair.2) :
    Keeps taken (executeOr (pair?.map left)) (executeOr (pair?.map right)) := by
  cases pair? with
  | none => exact .pure _
  | some pair => exact (parts pair (by simp)).execute

theorem keeps_assignOr {target : Node × Node} {otherwise : Eval Unit}
    (simulated : Simulated taken target.1 target.2) (keeps : Keeps taken otherwise otherwise)
    (value : Value) :
    Keeps taken (assignOr otherwise (left target) value) (assignOr otherwise (right target) value) := by
  unfold assignOr
  rw [simulated.name]
  cases target.1.identifierName? with
  | none => exact keeps
  | some name => exact keeps_assign value

theorem keeps_increment {operand : Node × Node} (simulated : Simulated taken operand.1 operand.2)
    (value : Value) :
    Keeps taken (increment (left operand) value) (increment (right operand) value) := by
  cases value
  case number x => exact .bind (keeps_assignOr simulated (.pure _) _) fun _ => .pure _
  all_goals exact .fail

/-- A call that is no step of an iterator and opens none. -/
theorem keeps_call {target : Node × Node} {arguments arguments' : List Part}
    (simulated : Simulated taken target.1 target.2)
    (plain : callee target.1 ≠ .next ∧ callee target.1 ≠ .function "__getIterator") :
    Keeps taken (call (left target) arguments) (call (right target) arguments') := by
  unfold call
  rw [simulated.callee]
  obtain ⟨notNext, notIterator⟩ := plain
  cases found : callee target.1 with
  | next => exact absurd found notNext
  | other => exact .fail
  | function name =>
    have otherName : name ≠ "__getIterator" := by
      rintro rfl
      exact notIterator found
    simp only [callFunction]
    by_cases isSource : name = "source"
    · rw [if_pos isSource, if_pos isSource]
      exact keeps_callSource
    · rw [if_neg isSource, if_neg otherName, if_neg isSource, if_neg otherName]
      exact .fail

/-! ## Nodes from their parts -/

theorem keeps_evaluateParts (kind : Kind (Node × Node))
    (own : ∀ name, kind.ownName? = some name → taken name)
    (noIterator : ∀ span, usesIterator ⟨span, kind.map Prod.fst⟩ = false)
    (parts : ∀ pair ∈ kind.children, Simulated taken pair.1 pair.2) :
    Keeps taken (evaluateParts (kind.map left)) (evaluateParts (kind.map right)) := by
  cases kind <;> simp only [Kind.map, evaluateParts]
  case identifier name => exact keeps_read (own name rfl)
  case numericLiteral | stringLiteral | booleanLiteral => exact .pure _
  case arrayLiteral elements =>
    rw [List.mapM_map, List.mapM_map]
    refine .bind (.mapM fun pair mem => ?_) fun _ => .pure _
    exact (parts pair mem).evaluate
  case callExpression target arguments =>
    apply keeps_call (parts target (by simp [Kind.children]))
    simpa [usesIterator, Node.kind, Kind.map] using noIterator .synthetic
  case propertyAccess object name =>
    exact .bind (parts object (by simp [Kind.children])).evaluate fun value => keeps_property value name
  case unaryExpression operator operand =>
    cases operator
    case not => exact .bind (parts operand (by simp [Kind.children])).evaluate fun _ => .pure _
    all_goals exact .fail
  case binaryExpression operator target value =>
    have simulated := parts target (by simp [Kind.children])
    have simulated' := parts value (by simp [Kind.children])
    cases operator
    case assign =>
      refine .bind simulated'.evaluate fun value => .bind ?_ fun _ => .pure _
      exact keeps_assignOr simulated .fail value
    case lessThan =>
      exact .bind simulated.evaluate fun _ => .bind simulated'.evaluate fun _ => .pure _
    all_goals exact .fail
  case updateExpression operator isPrefix operand =>
    have simulated := parts operand (by simp [Kind.children])
    cases operator
    case increment => exact .bind simulated.evaluate fun value => keeps_increment simulated value
    all_goals exact .fail
  all_goals exact .fail

theorem keeps_round {condition incrementor : Option (Node × Node)} {body : Node × Node}
    (parts : ∀ pair ∈ condition.toList ++ incrementor.toList ++ [body],
      Simulated taken pair.1 pair.2) :
    Keeps taken (round (condition.map left) (incrementor.map left) (left body))
      (round (condition.map right) (incrementor.map right) (right body)) := by
  refine .bind (keeps_evaluateOr _ fun pair mem => parts pair (by simp_all)) fun value => ?_
  by_cases holds : value.isTrue = true
  · simp only [holds, if_true]
    refine .bind (parts body (by simp)).execute fun _ => .bind ?_ fun _ => .pure _
    exact keeps_evaluateOr _ fun pair mem => parts pair (by simp_all)
  · simp only [holds]
    exact .pure _

theorem keeps_executeParts (kind : Kind (Node × Node))
    (parts : ∀ pair ∈ kind.children, Simulated taken pair.1 pair.2) :
    Keeps taken (executeParts (kind.map left)) (executeParts (kind.map right)) := by
  cases kind <;> simp only [Kind.map, executeParts]
  case program statements | block statements =>
    rw [List.forM_eq_forM, List.forM_map, List.forM_map]
    exact .forM fun pair mem => (parts pair mem).execute
  case variableStatement declarations =>
    rw [List.forM_eq_forM, List.forM_map, List.forM_map]
    exact .forM fun pair mem => (parts pair mem).declare
  case expressionStatement expression =>
    exact .bind (parts expression (by simp [Kind.children])).evaluate fun _ => .pure _
  case forStatement initializer condition incrementor body =>
    refine .bind (keeps_executeOr fun pair mem => parts pair ?_) fun _ => .repeatWhile (keeps_round ?_)
    · simp only [Kind.children, List.mem_append]
      exact .inl (.inl (.inl mem))
    · intro pair mem
      apply parts pair
      simp only [Kind.children, List.mem_append] at mem ⊢
      tauto
  case suspensionStatement isIteration expression =>
    refine .bind (keeps_evaluateOr _ parts) fun value => ?_
    cases isIteration
    · exact keeps_suspend [value]
    · exact keeps_iterate value
  all_goals exact .fail

theorem keeps_declareParts (kind : Kind (Node × Node))
    (parts : ∀ pair ∈ kind.children, Simulated taken pair.1 pair.2) :
    Keeps taken (declareParts (kind.map left)) (declareParts (kind.map right)) := by
  cases kind
  case variableDeclaration name initializer =>
    exact .bind (keeps_evaluateOr _ parts) fun value => keeps_assign value
  all_goals exact .pure _

theorem keeps_objectOfParts (kind : Kind (Node × Node))
    (parts : ∀ pair ∈ kind.children, Simulated taken pair.1 pair.2) :
    Keeps taken (objectOfParts (kind.map left)) (objectOfParts (kind.map right)) := by
  cases kind
  case propertyAccess object name => exact (parts object (by simp [Kind.children])).evaluate
  all_goals exact .fail

/-- A node with its parts replaced by ones that do the same does the same. -/
theorem simulated_of_parts (span span' : Span) (kind : Kind (Node × Node))
    (own : ∀ name, kind.ownName? = some name → taken name)
    (noIterator : ∀ span, usesIterator ⟨span, kind.map Prod.fst⟩ = false)
    (parts : ∀ pair ∈ kind.children, Simulated taken pair.1 pair.2) :
    Simulated taken ⟨span, kind.map Prod.fst⟩ ⟨span', kind.map Prod.snd⟩ := by
  have before : meaning ⟨span, kind.map Prod.fst⟩ = meaningOfParts (kind.map left) := by
    rw [meaning_mk, Kind.map_map]
    rfl
  have after : meaning ⟨span', kind.map Prod.snd⟩ = meaningOfParts (kind.map right) := by
    rw [meaning_mk, Kind.map_map]
    rfl
  constructor
  case execute => rw [before, after]; exact keeps_executeParts kind parts
  case evaluate => rw [before, after]; exact keeps_evaluateParts kind own noIterator parts
  case declare => rw [before, after]; exact keeps_declareParts kind parts
  case object => rw [before, after]; exact keeps_objectOfParts kind parts
  case callee => cases kind <;> rfl
  case name => cases kind <;> rfl

end Parts

/-! ## Desugared trees -/

/-- The names of a walk are different names that are not taken. -/
structure FreshWalk (taken : String → Prop) (element iterator step : String) : Prop where
  newElement : ¬ taken element
  newIterator : ¬ taken iterator
  newStep : ¬ taken step
  distinct : element ≠ iterator ∧ iterator ≠ step

/-- What desugaring makes of a node whose own names are taken and whose own code uses no
iterator. -/
inductive Desugared (taken : String → Prop) : Node → Node → Prop where
  | scope {node : Node} (isScope : node.isFunctionScope = true) : Desugared taken node node
  | walk {element iterator step : String} (span : Span) {operand : Node}
      (fresh : FreshWalk taken element iterator step) (same : Desugared taken operand operand) :
      Desugared taken ⟨span, .suspensionStatement true (some operand)⟩
        (ForEach.loop "__getIterator" iterator step span (variableStatement element none) operand
          (block [suspensionStatement (some (identifier element)) false]))
  | parts (span span' : Span) (kind : Kind (Node × Node))
      (own : ∀ name, kind.ownName? = some name → taken name)
      (noIterator : ∀ span, usesIterator ⟨span, kind.map Prod.fst⟩ = false)
      (parts : ∀ pair ∈ kind.children, Desugared taken pair.1 pair.2) :
      Desugared taken ⟨span, kind.map Prod.fst⟩ ⟨span', kind.map Prod.snd⟩

theorem isExcused_iterate {s : State} {value : Value} (notArray : value.isArray = false) :
    (s.iterate value).isExcused := by
  refine ⟨value, ?_, notArray⟩
  rw [State.iterated_iterate]
  exact List.mem_append_right _ (List.mem_singleton_self value)

/-- A walk of a fresh iterator does what `yield for` does. -/
theorem follows_walk {element iterator step : String} (span : Span) {operand : Node}
    (fresh : FreshWalk taken element iterator step) (same : Simulated taken operand operand) :
    Keeps taken (meaning ⟨span, .suspensionStatement true (some operand)⟩).execute
      (meaning (ForEach.loop "__getIterator" iterator step span (variableStatement element none) operand
        (block [suspensionStatement (some (identifier element)) false]))).execute := by
  have source : (meaning ⟨span, .suspensionStatement true (some operand)⟩).execute = (do
      iterate (← (meaning operand).evaluate)) := rfl
  rw [source]
  have keeps := (same.evaluate.bind fun value => keeps_iterate value).keeps
  refine ⟨keeps, fun s t result s' agree run => ?_⟩
  rcases Computation.outcome_bind_cases run with
    ⟨value, middle, evaluated, iterated⟩ | ⟨e, failed, rfl⟩
  · cases iterated
    cases isArray : value.isArray with
    | false => exact .inl (isExcused_iterate isArray)
    | true =>
      obtain ⟨items, rfl⟩ : ∃ items, value = .array items := by
        cases value <;> simp_all [Value.isArray]
      rcases same.evaluate.follows s t _ middle agree evaluated with
        excused | ⟨t₁, evaluated', agree₁⟩
      · have kept : Keeps taken (iterate (.array items)) (iterate (.array items)) := keeps_iterate _
        exact .inl (kept.keeps middle _ _ rfl excused)
      · obtain ⟨t', run', store, items', sourceCalls, suspended⟩ :=
          outcome_loop span fresh.distinct evaluated'
        refine .inr ⟨t', run', fun name isTaken => ?_, items'.trans agree₁.items, ?_,
          sourceCalls.trans agree₁.sourceCalls⟩
        · have notElement : name ≠ element := fun eq => fresh.newElement (eq ▸ isTaken)
          have notIterator : name ≠ iterator := fun eq => fresh.newIterator (eq ▸ isTaken)
          have notStep : name ≠ step := fun eq => fresh.newStep (eq ▸ isTaken)
          exact (store name notElement notIterator notStep).trans (agree₁.store name isTaken)
        · rw [suspended]
          exact congrArg (· ++ items) agree₁.suspended
  · apply (same.evaluate.follows s t _ s' agree failed).imp_right
    rintro ⟨t', failed', agree'⟩
    refine ⟨t', ?_, agree'⟩
    rw [execute_loop]
    exact Computation.outcome_bind_error failed' _

theorem simulated_of_scope {node : Node} (isScope : node.isFunctionScope = true) :
    Simulated taken node node := by
  obtain ⟨span, kind⟩ := node
  cases kind
  case functionDeclaration | functionExpression | getAccessorDeclaration | setAccessorDeclaration =>
    exact ⟨.fail, .fail, .pure _, .fail, rfl, rfl⟩
  all_goals cases isScope

/-- What desugaring makes of a node does what the node does. -/
theorem Desugared.simulated {node node' : Node} (desugared : Desugared taken node node') :
    Simulated taken node node' := by
  induction desugared with
  | scope isScope => exact simulated_of_scope isScope
  | walk span fresh same ih =>
    exact ⟨follows_walk span fresh ih, .fail, .pure _, .fail, rfl, rfl⟩
  | parts span span' kind own noIterator parts ih =>
    exact simulated_of_parts span span' kind own noIterator ih

/-! ## What desugaring makes of a body -/

/-- The names in a node's own code are taken, and none of its calls opens or steps an iterator. -/
def OwnCode (taken : String → Prop) (node : Node) : Prop :=
  ∀ inner ∈ node.ownScope,
    (∀ name, inner.kind.ownName? = some name → taken name) ∧ usesIterator inner = false

/-- A node with its parts desugared. -/
theorem desugared_of_parts {node : Node} (own : OwnCode taken node)
    (plain : node.isFunctionScope = false) {kind : Kind (Node × Node)}
    (same : kind.map Prod.fst = node.kind)
    (parts : ∀ pair ∈ kind.children, Desugared taken pair.1 pair.2) (span : Span) :
    Desugared taken node ⟨span, kind.map Prod.snd⟩ := by
  obtain ⟨⟨taken, noIterator⟩, -⟩ := (Node.forall_ownScope_iff plain).1 own
  have whole : node = ⟨node.span, kind.map Prod.fst⟩ := by
    rw [same]
    cases node
    rfl
  rw [whole]
  refine .parts node.span span kind ?_ ?_ parts
  · intro name own
    apply taken name
    rw [← same, Kind.ownName?_map, own]
  · intro span'
    rw [same]
    exact noIterator

theorem desugared_refl {node : Node} (own : OwnCode taken node) : Desugared taken node node := by
  induction node using Node.inductionOn with
  | step node ih =>
    cases plain : node.isFunctionScope with
    | true => exact .scope plain
    | false =>
      let kind := node.kind.map fun child => (child, child)
      have first : kind.map Prod.fst = node.kind := by
        rw [Kind.map_map]
        exact Kind.map_id' _
      have second : kind.map Prod.snd = node.kind := by
        rw [Kind.map_map]
        exact Kind.map_id' _
      have parts : ∀ pair ∈ kind.children, Desugared taken pair.1 pair.2 := by
        intro pair mem
        simp only [kind, Kind.children_map, List.mem_map] at mem
        obtain ⟨child, isChild, rfl⟩ := mem
        exact ih child isChild (((Node.forall_ownScope_iff plain).1 own).2 child isChild)
      have desugared := desugared_of_parts own plain first parts node.span
      rw [second] at desugared
      cases node
      exact desugared

/-- The next three names of a supply are fresh for a walk, and what was taken stays taken. -/
theorem freshWalk_of_supply {names : NameSupply}
    (reserved : ∀ name, taken name → names.isTaken name = true) :
    let element := names.fresh
    let iterator := element.2.fresh
    let step := iterator.2.fresh
    FreshWalk taken element.1 iterator.1 step.1 ∧
      ∀ name, taken name → step.2.isTaken name = true := by
  intro element iterator step
  have three : names.nextNames 3 = [element.1, iterator.1, step.1] := rfl
  have new : ∀ name ∈ names.nextNames 3, ¬ taken name := by
    intro name mem isTaken
    have free := NameSupply.not_isTaken_nextNames mem
    rw [reserved name isTaken] at free
    cases free
  have distinct := names.nodup_nextNames 3
  rw [three] at new distinct
  simp only [List.nodup_cons, List.mem_cons, not_or] at distinct
  refine ⟨⟨new _ (by simp), new _ (by simp), new _ (by simp), distinct.1.1, distinct.2.1.1⟩, ?_⟩
  exact fun name isTaken => (names.isTaken_after_iff 3 name).2 (.inr (reserved name isTaken))

/-- Desugaring makes of a body what it should, and keeps what was taken. -/
theorem desugared_desugar {node : Node} (own : OwnCode taken node) (s : Unit × NameSupply)
    (reserved : ∀ name, taken name → s.2.isTaken name = true) :
    let out := (Iteration.desugar (.standard .standard) node).run s
    (∀ name, taken name → out.2.2.isTaken name = true) ∧
      Desugared taken node (out.1.getD node) := by
  induction node using Node.inductionOn generalizing s with
  | step node ih =>
    intro out
    have outEq : out = (node.editOwnScope (Iteration.step (.standard .standard))).run s := rfl
    rw [Node.editOwnScope_eq] at outEq
    cases plain : node.isFunctionScope with
    | true =>
      rw [plain] at outEq
      rw [outEq]
      exact ⟨reserved, .scope plain⟩
    | false =>
      rw [plain] at outEq
      have below := ((Node.forall_ownScope_iff plain).1 own).2
      by_cases iterates : ∃ operand, node.kind = .suspensionStatement true (some operand)
      · obtain ⟨operand, hk⟩ := iterates
        obtain ⟨span, kind⟩ := node
        obtain rfl : kind = .suspensionStatement true (some operand) := hk
        obtain ⟨fresh, still⟩ := freshWalk_of_supply reserved
        have isChild : operand ∈ Node.children ⟨span, .suspensionStatement true (some operand)⟩ := by
          simp [Node.children, Node.kind, Kind.children]
        rw [outEq]
        exact ⟨still, .walk span fresh (desugared_refl (below operand isChild))⟩
      · rw [if_neg (by simp), Iteration.step_eq_rebuild _ _ (fun operand hk => iterates ⟨operand, hk⟩)]
          at outEq
        obtain ⟨kept, kind, same, answer, parts⟩ := Node.rebuild_rule_getD
          (f := fun child => child.editOwnScope (Iteration.step (.standard .standard)))
          (I := fun later : Unit × NameSupply => ∀ name, taken name → later.2.isTaken name = true)
          (R := fun child child' _ => Desugared taken child child') node
          (fun child isChild later reserved => ih child isChild (below child isChild) later reserved)
          (fun _ _ _ _ _ _ desugared => desugared) s reserved
        rw [outEq]
        refine ⟨kept, ?_⟩
        rw [answer]
        exact desugared_of_parts own plain same parts node.span

/-- Desugaring keeps the meaning of a body.  If a run of the body ends and every operand of its
`yield for` is an array, the desugared body ends alike: it yields the same values in the same order,
calls `source` as often, and leaves every variable of the body with the same value. -/
theorem execute_desugar (items : List Value) (names : NameSupply) (body : Node)
    (reserved : ∀ name ∈ body.names, names.isTaken name = true)
    (noIterator : ∀ inner ∈ body.ownScope, usesIterator inner = false)
    {result : Except Unit Unit} {after : State}
    (run : execute body (State.start items) = some (result, after))
    (arrays : ∀ value ∈ after.iterated, value.isArray = true) :
    let desugared := ((Iteration.desugar (.standard .standard) body).run ((), names)).1.getD body
    ∃ after', execute desugared (State.start items) = some (result, after') ∧
      after'.suspended = after.suspended ∧ after'.sourceCalls = after.sourceCalls ∧
      ∀ name ∈ body.names, after'.store name = after.store name := by
  intro desugared
  have own : OwnCode (fun name => names.isTaken name = true) body := by
    refine fun inner mem => ⟨fun name own => ?_, noIterator inner mem⟩
    refine reserved name ((Node.mem_names_iff body name).2 ⟨inner, ?_, own⟩)
    exact Node.ownScope_subset_subtree body mem
  have simulated := (desugared_desugar own ((), names) fun _ isTaken => isTaken).2.simulated
  have start : Agree (fun name => names.isTaken name = true) (State.start items) (State.start items) :=
    ⟨fun _ _ => rfl, rfl, rfl, rfl⟩
  rcases simulated.execute.follows _ _ _ _ start run with excused | ⟨after', run', agree⟩
  · obtain ⟨value, mem, notArray⟩ := excused
    rw [arrays value mem] at notArray
    cases notArray
  · exact ⟨after', run', agree.suspended, agree.sourceCalls,
      fun name mem => agree.store name (reserved name mem)⟩

/-- The body `yield for source(); x = "end";` over two items. -/
theorem execute_desugar_source :
    let items := [.boolean true, .string "a"]
    let body := block [suspensionStatement (some (Build.call (identifier "source") [])) true,
      assignmentStatement (identifier "x") (string "end")]
    let names := (NameSupply.ofStem "$__").reserveAll body.names.toList
    let desugared := ((Iteration.desugar (.standard .standard) body).run ((), names)).1.getD body
    ∃ after', execute desugared (State.start items) = some (.ok (), after') ∧
      after'.suspended = items ∧ after'.sourceCalls = 1 ∧ after'.store "x" = .string "end" := by
  intro items body names desugared
  let after := ((State.start items).callSource.iterate (.array items)).assign "x" (.string "end")
  have reserved : ∀ name ∈ body.names, names.isTaken name = true := fun name mem =>
    (NameSupply.isTaken_reserveAll_iff _ _ name).2 (.inl (Std.TreeSet.mem_toList.2 mem))
  have noIterator : ∀ inner ∈ body.ownScope, usesIterator inner = false := by decide
  have run : execute body (State.start items) = some (.ok (), after) := rfl
  have arrays : ∀ value ∈ after.iterated, value.isArray = true := by
    intro value mem
    obtain rfl : value = .array items := List.mem_singleton.1 mem
    rfl
  have isName : "x" ∈ body.names := by
    refine (Node.mem_names_iff body "x").2 ⟨identifier "x", ?_, rfl⟩
    exact .tail _ (.tail _ (.tail _ (.tail _ (.tail _ (.tail _ (.head _))))))
  obtain ⟨after', run', suspended, sourceCalls, store⟩ :=
    execute_desugar items names body reserved noIterator run arrays
  exact ⟨after', run', suspended, sourceCalls, store "x" isName⟩

end Evaluator

end Resumable
