import Resumable.Proofs.Enumeration
import Resumable.Proofs.FreshNames

/-!
# Programs whose parts do the same

A program is written in the language of key loops (`isProgramNode`).  `Keeps` says that a
computation does what another one does, but may use some temporary variables of its own: all other
variables, the objects and the uses of the variables that are taken are the same.  A node whose
parts were replaced by ones that do the same does the same (`simulated_of_parts`).
-/

namespace Resumable.Enumeration

/-! ## The language -/

/-- The node belongs to the language of key loops. The variable of a loop is a name, or is declared
without a value. -/
def isProgramNode (node : Node) : Bool :=
  match node.kind with
  | .program _ | .block _ | .variableStatement _ | .variableDeclaration _ _ | .expressionStatement _
  | .ifStatement _ _ _ | .emptyStatement | .breakStatement none | .continueStatement none => true
  | .forInStatement initializer _ _ => (loopVariable? initializer).isSome
  | .identifier _ | .numericLiteral _ | .stringLiteral _ | .booleanLiteral _ | .nullLiteral
  | .objectLiteral _ | .propertyAssignment _ _ | .propertyAccess _ _ | .elementAccess _ _
  | .unaryExpression _ _ | .binaryExpression _ _ _ | .updateExpression _ _ _ => true
  | _ => false

/-! ## States that agree -/

/-- Of the uses of variables only those of taken ones count. -/
theorem filter_note (taken : String → Bool) (s : State) (event : Event) :
    (s.note event).trace.filter (Event.counts taken) =
      s.trace.filter (Event.counts taken) ++ if event.counts taken then [event] else [] := by
  rw [State.note, List.filter_append, List.filter_singleton, Bool.cond_eq_ite]

/-- The states have the same objects, and differ only in variables that are not taken. Of these only
temporary ones may differ from the frame. -/
structure Agree (taken : String → Bool) (temporary : String → Prop) (frame s t : State) : Prop where
  store : ∀ name, taken name = true → t.store name = s.store name
  others : ∀ name, taken name = false → ¬ temporary name → t.store name = frame.store name
  objects : t.objects = s.objects
  trace : t.trace.filter (Event.counts taken) = s.trace

/-- The first computation ends, and from states that agree the second one does what it does. -/
structure Keeps {α : Type} (taken : String → Bool) (temporary : String → Prop)
    (x y : Eval α) : Prop where
  ends : x.Ends
  follows : ∀ frame, Computation.Follows (fun _ => False) (Agree taken temporary frame) x y

variable {taken : String → Bool} {temporary : String → Prop} {α β γ : Type}

namespace Agree

/-- A state may itself be the frame. -/
theorem here {temporary' : String → Prop} {frame s t : State}
    (agree : Agree taken temporary frame s t) :
    Agree taken temporary' t s t :=
  ⟨agree.store, fun _ _ _ => rfl, agree.objects, agree.trace⟩

/-- What was reached from states that agree agrees with the old frame too. -/
theorem onward {temporary' : String → Prop} {frame s t s' t' : State}
    (before : Agree taken temporary' frame s t) (after : Agree taken temporary t s' t')
    (more : ∀ name, temporary name → temporary' name) : Agree taken temporary' frame s' t' where
  store := after.store
  others name free other := by
    rw [after.others name free fun isTemporary => other (more name isTemporary)]
    exact before.others name free other
  objects := after.objects
  trace := after.trace

/-- Both states note the same. -/
theorem note {frame s t : State} (agree : Agree taken temporary frame s t) {event : Event}
    (counts : event.counts taken = true) :
    Agree taken temporary frame (s.note event) (t.note event) where
  store := agree.store
  others := agree.others
  objects := agree.objects
  trace := by
    rw [filter_note, agree.trace, if_pos counts]
    rfl

end Agree

namespace Keeps

theorem pure (a : α) : Keeps taken temporary (Pure.pure a : Eval α) (Pure.pure a) where
  ends := .pure a
  follows _ := .pure a

theorem fail : Keeps taken temporary (Computation.fail : Eval α) Computation.fail where
  ends := .fail
  follows _ := .fail

/-- A step that gives the same value from states that agree, and leads to states that agree. -/
theorem act {f : State → α × State}
    (same : ∀ frame s t, Agree taken temporary frame s t →
      (f s).1 = (f t).1 ∧ Agree taken temporary frame (f s).2 (f t).2) :
    Keeps taken temporary (modifyGet f) (modifyGet f) where
  ends := .act f
  follows frame := .act (fun _ excused => excused) (same frame)

theorem bind {x y : Eval α} {f g : α → Eval β} (first : Keeps taken temporary x y)
    (next : ∀ a, Keeps taken temporary (f a) (g a)) :
    Keeps taken temporary (x >>= f) (y >>= g) where
  ends := .bind first.ends fun a => (next a).ends
  follows frame := .bind (first.follows frame) fun a => (next a).follows frame

theorem forM {f g : γ → Eval PUnit} {l : List γ}
    (each : ∀ c ∈ l, Keeps taken temporary (f c) (g c)) :
    Keeps taken temporary (l.forM f) (l.forM g) where
  ends := .forM fun c mem => (each c mem).ends
  follows frame := .forM fun c mem => (each c mem).follows frame

theorem mapM {f g : γ → Eval α} {l : List γ} (each : ∀ c ∈ l, Keeps taken temporary (f c) (g c)) :
    Keeps taken temporary (l.mapM f) (l.mapM g) where
  ends := .mapM fun c mem => (each c mem).ends
  follows frame := .mapM fun c mem => (each c mem).follows frame

theorem runAll {f g : γ → Eval Completion} {l : List γ}
    (each : ∀ c ∈ l, Keeps taken temporary (f c) (g c)) :
    Keeps taken temporary (runAll (l.map f)) (runAll (l.map g)) := by
  induction l with
  | nil => exact pure _
  | cons c rest ih =>
    refine bind (each c (by simp)) fun completion => ?_
    cases completion
    case normal => exact ih fun other mem => each other (by simp [mem])
    all_goals exact pure _

/-- What a run of the first computation says about the second one: it changes no variable that is
neither taken nor temporary. -/
theorem run {x y : Eval α} (keeps : Keeps taken temporary x y) {temporary' : String → Prop}
    {frame s s' t : State} {result : Except Unit α} (agree : Agree taken temporary' frame s t)
    (run : x.outcome s = some (result, s')) :
    ∃ t', y.outcome t = some (result, t') ∧ Agree taken temporary t s' t' :=
  ((keeps.follows t).follows s t result s' agree.here run).resolve_left id

end Keeps

/-! ## Actions -/

theorem keeps_read {name : String} (isTaken : taken name = true) :
    Keeps taken temporary (read name) (read name) := by
  refine .act fun frame s t agree => ?_
  have same := agree.store name isTaken
  refine ⟨same.symm, ?_⟩
  rw [same]
  exact agree.note isTaken

theorem keeps_write {name : String} (isTaken : taken name = true) (value : Value) :
    Keeps taken temporary (write name value) (write name value) := by
  refine .act fun frame s t agree => ⟨rfl, ?_⟩
  have assigned : Agree taken temporary frame (s.assign name value) (t.assign name value) := by
    refine ⟨fun other otherTaken => ?_, fun other free notTemporary => ?_, agree.objects, agree.trace⟩
    · have same := agree.store other otherTaken
      simp only [State.assign, same]
    · have different : other ≠ name := by
        rintro rfl
        rw [isTaken] at free
        cases free
      simp only [State.assign, if_neg different]
      exact agree.others other free notTemporary
  exact assigned.note isTaken

theorem keeps_onObjects (f : Objects → α × Objects) :
    Keeps taken temporary (onObjects f) (onObjects f) := by
  refine .act fun frame s t agree => ?_
  have same := agree.objects
  refine ⟨by simp only [same], agree.store, agree.others, ?_, agree.trace⟩
  simp only [same]

theorem keeps_addKey (reference : Value × String) :
    Keeps taken temporary (addKey reference) (addKey reference) := by
  unfold addKey
  split
  · exact keeps_onObjects _
  · exact .fail

theorem keeps_deleteKey (reference : Value × String) :
    Keeps taken temporary (deleteKey reference) (deleteKey reference) := by
  unfold deleteKey
  split
  · exact keeps_onObjects _
  · exact .fail

theorem keeps_hasKey (key object : Value) :
    Keeps taken temporary (hasKey key object) (hasKey key object) := by
  unfold hasKey
  split
  · exact .bind (keeps_onObjects _) fun _ => .pure _
  · exact .fail

theorem keeps_element (object index : Value) :
    Keeps taken temporary (element object index) (element object index) := by
  unfold element
  split
  · exact .pure _
  · exact .fail

theorem keeps_property (object : Value) (name : String) :
    Keeps taken temporary (property object name) (property object name) := by
  unfold property
  split
  · exact .pure _
  · exact .fail

theorem keeps_asKey (value : Value) : Keeps taken temporary (asKey value) (asKey value) := by
  unfold asKey
  split
  · exact .pure _
  · exact .fail

/-! ## Nodes from their parts -/

/-- The second node does what the first one does, wherever it stands. -/
structure Simulated (taken : String → Bool) (temporary : String → Prop)
    (node node' : Node) : Prop where
  execute : Keeps taken temporary (meaning node).execute (meaning node').execute
  evaluate : Keeps taken temporary (meaning node).evaluate (meaning node').evaluate
  declare : Keeps taken temporary (meaning node).declare (meaning node').declare
  reference : Keeps taken temporary (meaning node).reference (meaning node').reference
  key : Keeps taken temporary (meaning node).key (meaning node').key
  /-- It is the same variable, and a taken one, if it is one at all. -/
  name : node'.identifierName? = node.identifierName?
  isTaken : ∀ name, node.identifierName? = some name → taken name = true

/-- Two nodes in the same place, each with its meaning. -/
noncomputable abbrev left (pair : Node × Node) : Part := (pair.1, meaning pair.1)

noncomputable abbrev right (pair : Node × Node) : Part := (pair.2, meaning pair.2)

theorem keeps_executeOr {pair? : Option (Node × Node)}
    (parts : ∀ pair ∈ pair?.toList, Simulated taken temporary pair.1 pair.2) :
    Keeps taken temporary (executeOr (pair?.map left)) (executeOr (pair?.map right)) := by
  cases pair? with
  | none => exact .pure _
  | some pair => exact (parts pair (by simp)).execute

theorem keeps_assign {target value : Node × Node}
    (simulated : Simulated taken temporary target.1 target.2)
    (simulated' : Simulated taken temporary value.1 value.2) :
    Keeps taken temporary (assign (left target) (left value)) (assign (right target) (right value)) := by
  unfold assign
  rw [simulated.name]
  cases found : target.1.identifierName? with
  | some name =>
    refine .bind simulated'.evaluate fun value => .bind ?_ fun _ => .pure _
    exact keeps_write (simulated.isTaken name found) value
  | none =>
    refine .bind simulated.reference fun reference => .bind simulated'.evaluate fun _ => ?_
    exact .bind (keeps_addKey reference) fun _ => .pure _

theorem keeps_increment (isPrefix : Bool) {operand : Node × Node}
    (simulated : Simulated taken temporary operand.1 operand.2) :
    Keeps taken temporary (increment isPrefix (left operand)) (increment isPrefix (right operand)) := by
  unfold increment
  rw [simulated.name]
  refine .bind simulated.evaluate fun value => ?_
  cases found : operand.1.identifierName? with
  | none => exact .fail
  | some name =>
    cases value
    case number q =>
      exact .bind (keeps_write (simulated.isTaken name found) _) fun _ => .pure _
    all_goals exact .fail

theorem keeps_evaluateParts {kind : Kind (Node × Node)}
    (own : ∀ name, kind.ownName? = some name → taken name = true)
    (inLanguage : ∀ span, isProgramNode ⟨span, kind.map Prod.fst⟩ = true)
    (parts : ∀ pair ∈ kind.children, Simulated taken temporary pair.1 pair.2) :
    Keeps taken temporary (evaluateParts (kind.map left)) (evaluateParts (kind.map right)) := by
  cases kind <;> simp only [Kind.map, evaluateParts]
  case identifier name => exact keeps_read (own name rfl)
  case numericLiteral | stringLiteral | booleanLiteral | nullLiteral => exact .pure _
  case arrayLiteral | callExpression => cases inLanguage .synthetic
  case objectLiteral properties =>
    rw [List.mapM_map, List.mapM_map]
    exact .bind (.mapM fun pair mem => (parts pair mem).key) fun keys => keeps_onObjects _
  case propertyAccess object name =>
    exact .bind (parts object (by simp [Kind.children])).evaluate fun value => keeps_property value name
  case elementAccess object index =>
    refine .bind (parts object (by simp [Kind.children])).evaluate fun value => ?_
    exact .bind (parts index (by simp [Kind.children])).evaluate fun index => keeps_element value index
  case unaryExpression operator operand =>
    have simulated := parts operand (by simp [Kind.children])
    cases operator
    case not => exact .bind simulated.evaluate fun _ => .pure _
    case delete =>
      exact .bind simulated.reference fun reference => .bind (keeps_deleteKey reference) fun _ => .pure _
    all_goals exact .fail
  case binaryExpression operator first second =>
    have simulated := parts first (by simp [Kind.children])
    have simulated' := parts second (by simp [Kind.children])
    cases operator
    case assign => exact keeps_assign simulated simulated'
    case isIn =>
      exact .bind simulated.evaluate fun key => .bind simulated'.evaluate fun object => keeps_hasKey key object
    case lessThan | strictEquals =>
      exact .bind simulated.evaluate fun _ => .bind simulated'.evaluate fun _ => .pure _
    all_goals exact .fail
  case updateExpression operator isPrefix operand =>
    have simulated := parts operand (by simp [Kind.children])
    cases operator
    case increment => exact keeps_increment isPrefix simulated
    all_goals exact .fail
  all_goals exact .fail

theorem keeps_executeParts {kind : Kind (Node × Node)} (notLoop : kind.form ≠ .forInStatement)
    (inLanguage : ∀ span, isProgramNode ⟨span, kind.map Prod.fst⟩ = true)
    (parts : ∀ pair ∈ kind.children, Simulated taken temporary pair.1 pair.2) :
    Keeps taken temporary (executeParts (kind.map left)) (executeParts (kind.map right)) := by
  cases kind <;> simp only [Kind.map, executeParts]
  case program statements | block statements =>
    rw [List.map_map, List.map_map]
    exact .runAll fun pair mem => (parts pair mem).execute
  case variableStatement declarations =>
    rw [List.forM_eq_forM, List.forM_map, List.forM_map]
    exact .bind (.forM fun pair mem => (parts pair mem).declare) fun _ => .pure _
  case expressionStatement expression =>
    exact .bind (parts expression (by simp [Kind.children])).evaluate fun _ => .pure _
  case emptyStatement => exact .pure _
  case ifStatement condition thenBranch elseBranch =>
    refine .bind (parts condition (by simp [Kind.children])).evaluate fun value => ?_
    cases value.isTruthy
    · exact keeps_executeOr fun pair mem => parts pair (by simp_all [Kind.children])
    · exact (parts thenBranch (by simp [Kind.children])).execute
  case forStatement => cases inLanguage .synthetic
  case forInStatement => exact absurd rfl notLoop
  case breakStatement label | continueStatement label =>
    cases label
    · exact .pure _
    · exact .fail
  all_goals exact .fail

theorem keeps_declareParts {kind : Kind (Node × Node)}
    (own : ∀ name, kind.ownName? = some name → taken name = true)
    (parts : ∀ pair ∈ kind.children, Simulated taken temporary pair.1 pair.2) :
    Keeps taken temporary (declareParts (kind.map left)) (declareParts (kind.map right)) := by
  cases kind
  case variableDeclaration name initializer =>
    cases initializer with
    | none => exact .pure _
    | some value =>
      exact .bind (parts value (by simp [Kind.children])).evaluate fun value => keeps_write (own name rfl) value
  all_goals exact .fail

theorem keeps_referenceOfParts {kind : Kind (Node × Node)}
    (parts : ∀ pair ∈ kind.children, Simulated taken temporary pair.1 pair.2) :
    Keeps taken temporary (referenceOfParts (kind.map left)) (referenceOfParts (kind.map right)) := by
  cases kind
  case propertyAccess object name =>
    exact .bind (parts object (by simp [Kind.children])).evaluate fun _ => .pure _
  case elementAccess object index =>
    refine .bind (parts object (by simp [Kind.children])).evaluate fun _ => ?_
    refine .bind (parts index (by simp [Kind.children])).evaluate fun value => ?_
    exact .bind (keeps_asKey value) fun _ => .pure _
  all_goals exact .fail

theorem keeps_keyOfParts {kind : Kind (Node × Node)}
    (parts : ∀ pair ∈ kind.children, Simulated taken temporary pair.1 pair.2) :
    Keeps taken temporary (keyOfParts (kind.map left)) (keyOfParts (kind.map right)) := by
  cases kind
  case propertyAssignment name value =>
    exact .bind (parts value (by simp [Kind.children])).evaluate fun _ => .pure _
  all_goals exact .fail

/-- A node with its parts replaced by ones that do the same does the same. -/
theorem simulated_of_parts (span span' : Span) {kind : Kind (Node × Node)}
    (notLoop : kind.form ≠ .forInStatement)
    (own : ∀ name, kind.ownName? = some name → taken name = true)
    (inLanguage : ∀ span, isProgramNode ⟨span, kind.map Prod.fst⟩ = true)
    (parts : ∀ pair ∈ kind.children, Simulated taken temporary pair.1 pair.2) :
    Simulated taken temporary ⟨span, kind.map Prod.fst⟩ ⟨span', kind.map Prod.snd⟩ := by
  have before : meaning ⟨span, kind.map Prod.fst⟩ = meaningOfParts (kind.map left) := by
    rw [meaning_mk, Kind.map_map]
    rfl
  have after : meaning ⟨span', kind.map Prod.snd⟩ = meaningOfParts (kind.map right) := by
    rw [meaning_mk, Kind.map_map]
    rfl
  constructor
  case execute => rw [before, after]; exact keeps_executeParts notLoop inLanguage parts
  case evaluate => rw [before, after]; exact keeps_evaluateParts own inLanguage parts
  case declare => rw [before, after]; exact keeps_declareParts own parts
  case reference => rw [before, after]; exact keeps_referenceOfParts parts
  case key => rw [before, after]; exact keeps_keyOfParts parts
  case name => cases kind <;> rfl
  case isTaken =>
    intro name named
    cases kind <;> first | cases named; exact own _ rfl | cases named

end Resumable.Enumeration
