import Mathlib.Data.Nat.Cast.Order.Ring
import Resumable.Loop.ForIn
import Resumable.Proofs.EnumerationParts

/-!
# Walking over keys by index

What the block does that stands for a for-in loop (`execute_loop`): it takes the keys down, goes
over the list of them by index, and passes over those that are gone.  The steps of the walk change
nothing that counts but its own variables (`Aside`), and `Walking` is what holds between two rounds:
the list, the index and the object are in three variables of the walk.
-/

namespace Resumable.Enumeration

open Build

/-! ## What the built nodes mean -/

theorem runAll_cons (statement : Eval Completion) (rest : List (Eval Completion)) :
    runAll (statement :: rest) = (do
      match ← statement with
      | .normal => runAll rest
      | completion => return completion) := rfl

theorem runAll_single (statement : Eval Completion) : runAll [statement] = statement := by
  have ends : ∀ completion : Completion, (match completion with
      | .normal => runAll []
      | completion => return completion) = (pure completion : Eval Completion) := by
    intro completion
    cases completion <;> rfl
  rw [runAll_cons]
  simp only [ends, bind_pure]

theorem execute_block (span : Span) (statements : List Node) :
    (meaning ⟨span, .block statements⟩).execute =
      runAll (statements.map fun statement => (meaning statement).execute) := by
  rw [meaning_mk]
  change runAll ((statements.map _).map _) = _
  rw [List.map_map]
  rfl

/-- A body is run by running its statements. -/
theorem runAll_statements (body : Node) :
    runAll (body.statements.map fun statement => (meaning statement).execute) =
      (meaning body).execute := by
  obtain ⟨span, kind⟩ := body
  cases kind
  case block statements => exact (execute_block span statements).symm
  case program statements =>
    rw [meaning_mk]
    change _ = runAll ((statements.map _).map _)
    rw [List.map_map]
    rfl
  all_goals exact runAll_single _

theorem execute_variable (name : String) (value : Node) :
    (meaning (variableStatement name (some value))).execute = (do
      write name (← (meaning value).evaluate)
      return .normal) := by
  have declared : (meaning (variableStatement name (some value))).execute = (do
      (do
        (meaning (variableDeclaration name (some value))).declare
        pure ())
      return .normal) := rfl
  have declaration : (meaning (variableDeclaration name (some value))).declare = (do
      write name (← (meaning value).evaluate)) := rfl
  rw [declared, bind_pure_unit, declaration, bind_assoc]

theorem execute_assignment (name : String) (value : Node) :
    (meaning (assignmentStatement (identifier name) value)).execute = (do
      write name (← (meaning value).evaluate)
      return .normal) := by
  have assigned : (meaning (assignmentStatement (identifier name) value)).execute = (do
      let _ ← (do
        let value ← (meaning value).evaluate
        write name value
        return value)
      return .normal) := rfl
  rw [assigned]
  simp only [bind_assoc, pure_bind]

/-- The variable of a loop is given its value in the way it was named. -/
theorem execute_bindVariable {initializer : Node} {name : String}
    (named : loopVariable? initializer = some name) (value : Node) :
    (meaning (bindVariable initializer value)).execute = (do
      write name (← (meaning value).evaluate)
      return .normal) := by
  obtain ⟨span, kind⟩ := initializer
  unfold loopVariable? at named
  split at named
  · rename_i name' isName
    cases named
    obtain rfl : kind = .identifier name := isName
    have bound : (meaning (bindVariable ⟨span, .identifier name⟩ value)).execute =
        (meaning (assignmentStatement (identifier name) value)).execute := rfl
    rw [bound, execute_assignment]
  · rename_i span' name' isDeclaration
    cases named
    obtain rfl : kind = .variableStatement [⟨span', .variableDeclaration name none⟩] :=
      isDeclaration
    exact execute_variable name value
  · cases named

/-- A body that comes after two statements. -/
theorem runAll_append_statements (first second : Eval Completion) (body : Node) :
    runAll (first :: second :: body.statements.map fun statement => (meaning statement).execute) =
      runAll [first, second, (meaning body).execute] := by
  simp only [runAll_cons first, runAll_cons second, runAll_statements, runAll_single]

theorem evaluate_identifier (name : String) :
    (meaning (identifier name)).evaluate = read name := rfl

/-- The keys that were taken down. -/
def readKey (names : ForIn.Names) : Eval Value := do
  element (← read names.keys) (← read names.index)

theorem evaluate_currentKey (names : ForIn.Names) :
    (meaning names.currentKey).evaluate = readKey names := rfl

/-- Whether the next key is gone. -/
def skipGone (names : ForIn.Names) : Eval Completion := do
  if (Value.boolean !(← hasKey (← readKey names) (← read names.collection)).isTruthy).isTruthy then
    return .continued
  else return .normal

theorem execute_skipDeleted (names : ForIn.Names) :
    (meaning names.skipDeleted).execute = skipGone names := by
  have skipped : (meaning names.skipDeleted).execute = (do
      let gone ← (do
        return .boolean !(← (do
          let key ← readKey names
          let object ← read names.collection
          hasKey key object)).isTruthy)
      if Value.isTruthy gone then return .continued else return .normal) := rfl
  rw [skipped, skipGone]
  simp only [bind_assoc, pure_bind]

/-- Goes to the next index. -/
def incrementIndex (names : ForIn.Names) : Eval Unit := do
  match ← read names.index with
  | .number q => write names.index (.number (q + 1))
  | _ => .fail

theorem evaluate_increment (names : ForIn.Names) {α : Type} (next : Eval α) :
    (do let _ ← (meaning (postfixIncrement (identifier names.index))).evaluate; next) =
      (do incrementIndex names; next) := by
  have incremented : (meaning (postfixIncrement (identifier names.index))).evaluate =
      increment false (identifier names.index, meaning (identifier names.index)) := rfl
  rw [incremented, increment, evaluate_identifier, incrementIndex, bind_assoc, bind_assoc]
  congr 1
  funext value
  cases value
  case number q =>
    change (do let _ ← (do write names.index (.number (q + 1)); return Value.number q); next) = _
    simp only [bind_assoc, pure_bind]
  all_goals rfl

/-- Runs the block of the walk, and goes on unless it breaks. -/
def runBlock (names : ForIn.Names) (block : Eval Completion) : Eval Bool := do
  match ← block with
  | .broke => return false
  | _ => do
    incrementIndex names
    return true

/-- One round of the walk. -/
def walkRound (names : ForIn.Names) (block : Eval Completion) : Eval Bool := do
  if (Value.boolean ((← read names.index).isLess (← property (← read names.keys) "length"))).isTruthy then
    runBlock names block
  else return false

/-- The block of the walk. -/
def walkBlock (names : ForIn.Names) (name : String) (body : Eval Completion) : Eval Completion :=
  runAll [skipGone names, (do write name (← readKey names); return .normal), body]

/-- Puts the current property into the list of keys. -/
def pushProperty (names : ForIn.Names) : Eval Completion := do
  let _ ← push names.keys (← read names.property)
  return .normal

/-- Takes down the keys of what is gone over. -/
def takeDown (names : ForIn.Names) (object : Value) : Eval Unit := do
  write names.collection object
  enumerateObject (fun key => write names.property (.string key)) (pushProperty names)
    (← read names.collection)
  write names.index (.number 0)

/-- What the block that stands for a loop does. -/
theorem execute_loop (names : ForIn.Names) (span : Span) {initializer : Node} {name : String}
    (named : loopVariable? initializer = some name) (expression body : Node) :
    (meaning (ForIn.loop names none span initializer expression body)).execute = (do
      write names.keys (.list [])
      takeDown names (← (meaning expression).evaluate)
      .repeatWhile (walkRound names (walkBlock names name (meaning body).execute))
      return .normal) := by
  have keysDeclared : (meaning (array [])).evaluate = pure (.list []) := rfl
  have collected : (meaning names.collectKeys).execute = (do
      enumerateObject (fun key => write names.property (.string key))
        (do
          let _ ← (do push names.keys (← read names.property))
          return .normal) (← read names.collection)
      return .normal) := rfl
  have walked (statements : List Node) : (meaning (names.walkKeys initializer statements)).execute = (do
      let _ ← (meaning (variableStatement names.index (some (number 0)))).execute
      .repeatWhile (do
        if Value.isTruthy (← (do
            return .boolean ((← read names.index).isLess
              (← (do property (← read names.keys) "length"))))) then
          match ← (meaning (block (names.skipDeleted ::
              bindVariable initializer names.currentKey :: statements))).execute with
          | .broke => return false
          | _ =>
            let _ ← (meaning (postfixIncrement (identifier names.index))).evaluate
            return true
        else return false)
      return .normal) := rfl
  have zero : (meaning (number 0)).evaluate = pure (.number 0) := by
    change pure (Value.number (numeral 0)) = _
    rw [numeral, if_pos rfl]
  simp only [ForIn.loop, execute_block, List.map_cons, List.map_nil]
  rw [execute_variable, execute_variable, keysDeclared, collected, walked, execute_variable, zero]
  rw [block, Node.synthetic, execute_block, List.map_cons, List.map_cons, runAll_append_statements,
    execute_skipDeleted, execute_bindVariable named, evaluate_currentKey]
  rw [runAll_cons, runAll_cons, runAll_cons, runAll_single]
  simp only [takeDown, pushProperty, walkRound, runBlock, walkBlock, evaluate_increment, bind_assoc, pure_bind]

/-! ## Steps of the walk -/

section Steps

variable {taken : String → Bool} {temporary : String → Prop}

/-- The second state differs from the first one only in uses and values of variables that are not
taken, and in the values of temporary ones only. -/
structure Aside (taken : String → Bool) (temporary : String → Prop) (t t' : State) : Prop where
  store : ∀ name, taken name = true ∨ ¬ temporary name → t'.store name = t.store name
  objects : t'.objects = t.objects
  trace : t'.trace.filter (Event.counts taken) = t.trace.filter (Event.counts taken)

/-- Nothing but uses of variables that are not taken came about. -/
abbrev Looked (taken : String → Bool) (t t' : State) : Prop := Aside taken (fun _ => False) t t'

theorem Aside.same {t t' : State} (looked : Looked taken t t') (name : String) :
    t'.store name = t.store name := looked.store name (.inr id)

namespace Aside

theorem refl (t : State) : Aside taken temporary t t := ⟨fun _ _ => rfl, rfl, rfl⟩

theorem trans {t middle t' : State} (first : Aside taken temporary t middle)
    (second : Aside taken temporary middle t') : Aside taken temporary t t' where
  store name kept := (second.store name kept).trans (first.store name kept)
  objects := second.objects.trans first.objects
  trace := second.trace.trans first.trace

theorem mono {temporary' : String → Prop} {t t' : State} (aside : Aside taken temporary t t')
    (more : ∀ name, temporary name → temporary' name) : Aside taken temporary' t t' where
  store name kept := aside.store name (kept.imp_right fun other isTemporary => other (more name isTemporary))
  objects := aside.objects
  trace := aside.trace

theorem agree {frame s t t' : State} (aside : Aside taken temporary t t')
    (agree : Agree taken temporary frame s t) : Agree taken temporary frame s t' where
  store name isTaken := (aside.store name (.inl isTaken)).trans (agree.store name isTaken)
  others name free other := (aside.store name (.inr other)).trans (agree.others name free other)
  objects := aside.objects.trans agree.objects
  trace := aside.trace.trans agree.trace

theorem note {t t' : State} (aside : Aside taken temporary t t') (event : Event) :
    Aside taken temporary (t.note event) (t'.note event) where
  store := aside.store
  objects := aside.objects
  trace := by rw [filter_note, filter_note, aside.trace]

end Aside

theorem Aside.widen {t t' : State} (looked : Looked taken t t') : Aside taken temporary t t' :=
  looked.mono fun _ => False.elim

theorem outcome_read {name : String} (free : taken name = false) (t : State) :
    ∃ t', (read name).outcome t = some (.ok (t.store name), t') ∧ Looked taken t t' := by
  refine ⟨t.note (.read name (t.store name)), rfl, fun _ _ => rfl, rfl, ?_⟩
  rw [filter_note, Event.counts_read, free]
  exact List.append_nil _

theorem outcome_write {name : String} (free : taken name = false) (value : Value) (t : State) :
    ∃ t', (write name value).outcome t = some (.ok (), t') ∧ t'.store name = value ∧
      Aside taken (· = name) t t' := by
  refine ⟨(t.assign name value).note (.write name value), rfl, if_pos rfl, ?_, rfl, ?_⟩
  · intro other kept
    have different : other ≠ name := by
      rintro rfl
      simp [free] at kept
    exact if_neg different
  · rw [filter_note, Event.counts_write, free]
    exact List.append_nil _

/-- All names of a lowered loop. -/
def namesOf (names : ForIn.Names) : List String :=
  [names.keys, names.collection, names.property, names.index]

/-- The names are different ones that are not taken. -/
structure Fresh (taken : String → Bool) (names : ForIn.Names) : Prop where
  free : ∀ name ∈ namesOf names, taken name = false
  distinct : (namesOf names).Nodup

theorem Fresh.keys_ne {names : ForIn.Names} (fresh : Fresh taken names) :
    names.keys ≠ names.collection ∧ names.keys ≠ names.property ∧ names.keys ≠ names.index := by
  have distinct := fresh.distinct
  simp only [namesOf, List.nodup_cons, List.mem_cons, not_or] at distinct
  exact ⟨distinct.1.1, distinct.1.2.1, distinct.1.2.2.1⟩

theorem Fresh.collection_ne {names : ForIn.Names} (fresh : Fresh taken names) :
    names.collection ≠ names.property ∧ names.collection ≠ names.index := by
  have distinct := fresh.distinct
  simp only [namesOf, List.nodup_cons, List.mem_cons, not_or] at distinct
  exact ⟨distinct.2.1.1, distinct.2.1.2.1⟩

/-- The walk stands at an index in the list of keys. -/
structure Walking (names : ForIn.Names) (keys : List String) (i address : Nat)
    (t : State) : Prop where
  keys : t.store names.keys = .list (keys.map .string)
  collection : t.store names.collection = .object address
  index : t.store names.index = .number i

variable {names : ForIn.Names} {keys : List String} {i address : Nat} {t : State}

theorem Walking.congr {t' : State} (walking : Walking names keys i address t)
    (same : ∀ name ∈ namesOf names, t'.store name = t.store name) :
    Walking names keys i address t' where
  keys := (same names.keys (by simp [namesOf])).trans walking.keys
  collection := (same names.collection (by simp [namesOf])).trans walking.collection
  index := (same names.index (by simp [namesOf])).trans walking.index

theorem Walking.looked {t' : State} (walking : Walking names keys i address t)
    (looked : Looked taken t t') : Walking names keys i address t' :=
  walking.congr fun name _ => looked.same name

section Fresh

variable (fresh : Fresh taken names)

include fresh

theorem outcome_readKeys (t : State) :
    ∃ t', (read names.keys).outcome t = some (.ok (t.store names.keys), t') ∧ Looked taken t t' :=
  outcome_read (fresh.free names.keys (by simp [namesOf])) t

theorem outcome_readIndex (t : State) :
    ∃ t', (read names.index).outcome t = some (.ok (t.store names.index), t') ∧ Looked taken t t' :=
  outcome_read (fresh.free names.index (by simp [namesOf])) t

theorem outcome_readCollection (t : State) :
    ∃ t', (read names.collection).outcome t = some (.ok (t.store names.collection), t') ∧
      Looked taken t t' :=
  outcome_read (fresh.free names.collection (by simp [namesOf])) t

theorem outcome_readProperty (t : State) :
    ∃ t', (read names.property).outcome t = some (.ok (t.store names.property), t') ∧
      Looked taken t t' :=
  outcome_read (fresh.free names.property (by simp [namesOf])) t

theorem outcome_readKey (walking : Walking names keys i address t) {key : String}
    (there : keys[i]? = some key) :
    ∃ t', (readKey names).outcome t = some (.ok (.string key), t') ∧ Looked taken t t' := by
  obtain ⟨t₁, keysRead, looked₁⟩ := outcome_readKeys fresh t
  obtain ⟨t₂, indexRead, looked₂⟩ := outcome_readIndex fresh t₁
  refine ⟨t₂, ?_, looked₁.trans looked₂⟩
  have found : element (.list (keys.map .string)) (.number i) = pure (.string key) := by
    simp [element, asIndex?, there]
  rw [readKey, Computation.outcome_bind_ok keysRead, Computation.outcome_bind_ok indexRead,
    walking.keys, (walking.looked looked₁).index, found]
  rfl

/-- A round begins with a look at the index. -/
theorem outcome_walkRound (walking : Walking names keys i address t) :
    ∃ t', Looked taken t t' ∧ ∀ block, (walkRound names block).outcome t =
      if i < keys.length then (runBlock names block).outcome t' else some (.ok false, t') := by
  obtain ⟨t₁, indexRead, looked₁⟩ := outcome_readIndex fresh t
  obtain ⟨t₂, keysRead, looked₂⟩ := outcome_readKeys fresh t₁
  refine ⟨t₂, looked₁.trans looked₂, fun block => ?_⟩
  have length : property (.list (keys.map .string)) "length" = pure (.number keys.length) := by
    simp [property]
  rw [walkRound, Computation.outcome_bind_ok indexRead, Computation.outcome_bind_ok keysRead,
    walking.index, (walking.looked looked₁).keys, length, pure_bind]
  by_cases more : i < keys.length
  · have less : (i : ℚ) < keys.length := Nat.cast_lt.2 more
    simp [Value.isLess, Value.isTruthy, more, less]
  · have notLess : ¬ (i : ℚ) < keys.length := fun less => more (Nat.cast_lt.1 less)
    simp [Value.isLess, Value.isTruthy, more, notLess]

theorem outcome_skipGone (walking : Walking names keys i address t) {key : String}
    (there : keys[i]? = some key) :
    ∃ t', Looked taken t t' ∧ (skipGone names).outcome t =
      some (.ok (if key ∈ t.objects[address]?.getD [] then .normal else .continued), t') := by
  obtain ⟨t₁, keyRead, looked₁⟩ := outcome_readKey fresh walking there
  obtain ⟨t₂, collectionRead, looked₂⟩ := outcome_readCollection fresh t₁
  refine ⟨t₂, looked₁.trans looked₂, ?_⟩
  have has : (hasKey (.string key) (.object address)).outcome t₂ =
      some (.ok (.boolean (key ∈ t.objects[address]?.getD [])), t₂) := by
    rw [← (looked₁.trans looked₂).objects]
    rfl
  rw [skipGone, Computation.outcome_bind_ok keyRead, Computation.outcome_bind_ok collectionRead,
    (walking.looked looked₁).collection, Computation.outcome_bind_ok has]
  by_cases present : key ∈ t.objects[address]?.getD []
  · simp [Value.isTruthy, present]
  · simp [Value.isTruthy, present]

/-- A key that is gone is passed over. -/
theorem outcome_walkBlock_gone (walking : Walking names keys i address t) {key : String}
    (there : keys[i]? = some key) (gone : key ∉ t.objects[address]?.getD []) (name : String)
    (body : Eval Completion) :
    ∃ t', Looked taken t t' ∧ (walkBlock names name body).outcome t = some (.ok .continued, t') := by
  obtain ⟨t₁, looked, skipped⟩ := outcome_skipGone fresh walking there
  rw [if_neg gone] at skipped
  refine ⟨t₁, looked, ?_⟩
  rw [walkBlock, runAll_cons, Computation.outcome_bind_ok skipped]
  rfl

/-- A key that is still there is bound, and the body is run. -/
theorem outcome_walkBlock_there (walking : Walking names keys i address t) {key : String}
    (there : keys[i]? = some key) (present : key ∈ t.objects[address]?.getD []) (name : String)
    (body : Eval Completion) :
    ∃ t', Looked taken t t' ∧ (walkBlock names name body).outcome t =
      Computation.outcome (do write name (.string key); body) t' := by
  obtain ⟨t₁, looked₁, skipped⟩ := outcome_skipGone fresh walking there
  rw [if_pos present] at skipped
  obtain ⟨t₂, keyRead, looked₂⟩ := outcome_readKey fresh (walking.looked looked₁) there
  refine ⟨t₂, looked₁.trans looked₂, ?_⟩
  rw [walkBlock, runAll_cons, Computation.outcome_bind_ok skipped]
  change (runAll [_, body]).outcome t₁ = _
  rw [runAll_cons, bind_assoc, Computation.outcome_bind_ok keyRead, bind_assoc]
  simp only [pure_bind, runAll_single]

theorem outcome_incrementIndex (walking : Walking names keys i address t) :
    ∃ t', (incrementIndex names).outcome t = some (.ok (), t') ∧
      Walking names keys (i + 1) address t' ∧ Aside taken (· = names.index) t t' := by
  obtain ⟨t₁, indexRead, looked⟩ := outcome_readIndex fresh t
  have free := fresh.free names.index (by simp [namesOf])
  obtain ⟨t₂, written, index, aside⟩ := outcome_write free (.number (i + 1)) t₁
  obtain ⟨-, -, keysNotIndex⟩ := fresh.keys_ne
  obtain ⟨-, collectionNotIndex⟩ := fresh.collection_ne
  refine ⟨t₂, ?_, ⟨?_, ?_, ?_⟩, looked.widen.trans aside⟩
  · rw [incrementIndex, Computation.outcome_bind_ok indexRead, walking.index]
    exact written
  · rw [aside.store names.keys (.inr keysNotIndex), (walking.looked looked).keys]
  · rw [aside.store names.collection (.inr collectionNotIndex), (walking.looked looked).collection]
  · rw [index, Nat.cast_succ]

/-- After a block that does not break the walk goes on. -/
theorem outcome_runBlock {block : Eval Completion} {t₁ : State} {completion : Completion}
    (ran : block.outcome t = some (.ok completion, t₁)) (goesOn : completion ≠ .broke)
    (walking : Walking names keys i address t₁) :
    ∃ t', (runBlock names block).outcome t = some (.ok true, t') ∧
      Walking names keys (i + 1) address t' ∧ Aside taken (· = names.index) t₁ t' := by
  obtain ⟨t₂, incremented, walking₂, aside⟩ := outcome_incrementIndex fresh walking
  refine ⟨t₂, ?_, walking₂, aside⟩
  rw [runBlock, Computation.outcome_bind_ok ran]
  cases completion
  case broke => exact absurd rfl goesOn
  all_goals
    change Computation.outcome (do incrementIndex names; return true) t₁ = _
    rw [Computation.outcome_bind_ok incremented]
    rfl

end Fresh

end Steps

end Resumable.Enumeration
