import Resumable.Proofs.KeyWalk

/-!
# Running the walk over keys

The block of the walk does for one key what the native loop does (`follows_turn`), and so the walk
does it for all of them (`follows_walk`).  The induction is on the keys still to come; the body keeps
`Walking`, as it cannot touch the variables of the walk.
Before the walk the keys are taken down in their order (`outcome_takeDown`), so the whole block does
what the loop does (`keeps_loop`).
-/

namespace Resumable.Enumeration

/-! ## The native loop -/

/-- What a loop does for one key: if that is still there, it is bound and the body is run. -/
def turn (address : Nat) (bind : String → Eval Unit) (body : Eval Completion) (key : String) :
    Eval Completion := do
  if key ∈ (← keysOf address) then
    bind key
    body
  else return .continued

theorem enumerate_cons (address : Nat) (bind : String → Eval Unit) (body : Eval Completion)
    (key : String) (rest : List String) :
    enumerate address bind body (key :: rest) = (do
      match ← turn address bind body key with
      | .broke => return ()
      | _ => enumerate address bind body rest) := by
  rw [enumerate, turn, bind_assoc]
  congr 1
  funext keys
  by_cases present : key ∈ keys
  · rw [if_pos present, if_pos present]
    exact (bind_assoc _ _ _).symm
  · rw [if_neg present, if_neg present]
    exact (pure_bind _ _).symm

theorem outcome_turn_there {address : Nat} {key : String} {s : State}
    (present : key ∈ s.objects[address]?.getD []) (bind : String → Eval Unit)
    (body : Eval Completion) :
    (turn address bind body key).outcome s = Computation.outcome (do bind key; body) s := by
  have keysNow : (keysOf address).outcome s = some (.ok (s.objects[address]?.getD []), s) := rfl
  rw [turn, Computation.outcome_bind_ok keysNow, if_pos present]

theorem outcome_turn_gone {address : Nat} {key : String} {s : State}
    (gone : key ∉ s.objects[address]?.getD []) (bind : String → Eval Unit)
    (body : Eval Completion) :
    (turn address bind body key).outcome s = some (.ok .continued, s) := by
  have keysNow : (keysOf address).outcome s = some (.ok (s.objects[address]?.getD []), s) := rfl
  rw [turn, Computation.outcome_bind_ok keysNow, if_neg gone, Computation.outcome_pure]

theorem enumerateObject_fail {value : Value} (notObject : ∀ address, value ≠ .object address)
    (bind : String → Eval Unit) (body : Eval Completion) :
    enumerateObject bind body value = Computation.fail := by
  cases value
  case object address => exact absurd rfl (notObject address)
  all_goals rfl

/-- A native loop ends if what it runs for each key ends: there are only so many keys. -/
theorem ends_enumerateObject {name : String} {body : Eval Completion} (ends : body.Ends)
    (value : Value) :
    (enumerateObject (fun key => write name (.string key)) body value).Ends := by
  have overKeys (address : Nat) (keys : List String) :
      (enumerate address (fun key => write name (.string key)) body keys).Ends := by
    induction keys with
    | nil => exact .pure _
    | cons key rest ih =>
      refine .bind (.act _) fun present => ?_
      split
      · refine .bind (.act _) fun _ => .bind ends fun completion => ?_
        cases completion
        case broke => exact .pure _
        all_goals exact ih
      · exact ih
  cases value
  case object address => exact .bind (.act _) fun keys => overKeys address keys
  all_goals exact .fail

/-! ## Taking the keys down -/

section Collect

variable {taken : String → Bool} {names : ForIn.Names} (fresh : Fresh taken names)

include fresh

theorem outcome_pushProperty {t : State} {items : List Value}
    (collected : t.store names.keys = .list items) :
    ∃ t', (pushProperty names).outcome t = some (.ok .normal, t') ∧
      t'.store names.keys = .list (items ++ [t.store names.property]) ∧
      Aside taken (· = names.keys) t t' := by
  obtain ⟨t₁, propertyRead, looked₁⟩ := outcome_readProperty fresh t
  obtain ⟨t₂, keysRead, looked₂⟩ := outcome_readKeys fresh t₁
  have free := fresh.free names.keys (by simp [namesOf])
  obtain ⟨t₃, written, keys, aside⟩ :=
    outcome_write free (.list (items ++ [t.store names.property])) t₂
  refine ⟨t₃, ?_, keys, (looked₁.trans looked₂).widen.trans aside⟩
  have same : t₁.store names.keys = .list items := (looked₁.same names.keys).trans collected
  rw [pushProperty, Computation.outcome_bind_ok propertyRead, push, bind_assoc,
    Computation.outcome_bind_ok keysRead, same]
  change Computation.outcome (do
    let _ ← (do
      write names.keys (.list (items ++ [t.store names.property]))
      return Value.number (items.length + 1))
    return Completion.normal) t₂ = _
  rw [bind_assoc, Computation.outcome_bind_ok written]
  rfl

/-- The keys are taken down in their order. -/
theorem outcome_collect {address : Nat} {rest done : List String} {t : State}
    (present : ∀ key ∈ rest, key ∈ t.objects[address]?.getD [])
    (collected : t.store names.keys = .list (done.map .string)) :
    ∃ t', (enumerate address (fun key => write names.property (.string key)) (pushProperty names)
        rest).outcome t = some (.ok (), t') ∧
      t'.store names.keys = .list ((done ++ rest).map .string) ∧
      Aside taken (fun name => name = names.property ∨ name = names.keys) t t' := by
  induction rest generalizing done t with
  | nil => exact ⟨t, rfl, by rw [collected, List.append_nil], .refl t⟩
  | cons key rest ih =>
    have free := fresh.free names.property (by simp [namesOf])
    obtain ⟨t₁, bound, property, aside₁⟩ := outcome_write free (.string key) t
    have different : names.keys ≠ names.property := fresh.keys_ne.2.1
    have same : t₁.store names.keys = .list (done.map .string) :=
      (aside₁.store names.keys (.inr different)).trans collected
    obtain ⟨t₂, pushed, keys, aside₂⟩ := outcome_pushProperty fresh same
    have aside : Aside taken (fun name => name = names.property ∨ name = names.keys) t t₂ :=
      (aside₁.mono fun _ => .inl).trans (aside₂.mono fun _ => .inr)
    have presentStill : ∀ key ∈ rest, key ∈ t₂.objects[address]?.getD [] := by
      rw [aside.objects]
      exact fun key mem => present key (by simp [mem])
    have collectedStill : t₂.store names.keys = .list ((done ++ [key]).map .string) := by
      rw [keys, property, List.map_append]
      rfl
    obtain ⟨t₃, run, keys₃, aside₃⟩ := ih presentStill collectedStill
    refine ⟨t₃, ?_, ?_, aside.trans aside₃⟩
    · have first : (turn address (fun key => write names.property (.string key)) (pushProperty names)
          key).outcome t = some (.ok .normal, t₂) := by
        rw [outcome_turn_there (present key (by simp)), Computation.outcome_bind_ok bound, pushed]
      rw [enumerate_cons, Computation.outcome_bind_ok first]
      exact run
    · rw [keys₃, List.append_assoc]
      rfl

/-- What comes before the walk, once the loop has its object: the keys are taken down, and the walk
stands at the first of them. -/
theorem outcome_takeDown (address : Nat) {t : State} (empty : t.store names.keys = .list []) :
    ∃ t', (takeDown names (.object address)).outcome t = some (.ok (), t') ∧
      Walking names (t.objects[address]?.getD []) 0 address t' ∧
      Aside taken (· ∈ namesOf names) (t.note (.enter address)) t' := by
  obtain ⟨keysNotCollection, -, keysNotIndex⟩ := fresh.keys_ne
  obtain ⟨collectionNotProperty, collectionNotIndex⟩ := fresh.collection_ne
  have freeCollection := fresh.free names.collection (by simp [namesOf])
  have freeIndex := fresh.free names.index (by simp [namesOf])
  obtain ⟨t₁, written, collection, aside₁⟩ := outcome_write freeCollection (.object address) t
  obtain ⟨t₂, collectionRead, looked⟩ := outcome_readCollection fresh t₁
  let entered := t₂.note (.enter address)
  have keysNow : (enter address).outcome t₂ = some (.ok (t.objects[address]?.getD []), entered) := by
    rw [← aside₁.objects, ← looked.objects]
    rfl
  have collected : entered.store names.keys = .list (([] : List String).map .string) := by
    change t₂.store names.keys = _
    rw [looked.same, aside₁.store names.keys (.inr keysNotCollection), empty]
    rfl
  have present : ∀ key ∈ t.objects[address]?.getD [], key ∈ entered.objects[address]?.getD [] := by
    change ∀ key ∈ _, key ∈ t₂.objects[address]?.getD []
    rw [looked.objects, aside₁.objects]
    exact fun _ mem => mem
  obtain ⟨t₃, enumerated, keys, aside₃⟩ := outcome_collect fresh present collected
  obtain ⟨t₄, written', index, aside₄⟩ := outcome_write freeIndex (.number 0) t₃
  refine ⟨t₄, ?_, ⟨?_, ?_, ?_⟩, ?_⟩
  · rw [takeDown, Computation.outcome_bind_ok written, Computation.outcome_bind_ok collectionRead,
      collection, enumerateObject, bind_assoc, Computation.outcome_bind_ok keysNow,
      Computation.outcome_bind_ok enumerated, written']
  · rw [aside₄.store names.keys (.inr keysNotIndex), keys, List.nil_append]
  · have apart : ¬ (names.collection = names.property ∨ names.collection = names.keys) := by
      rintro (same | same)
      · exact collectionNotProperty same
      · exact keysNotCollection same.symm
    rw [aside₄.store names.collection (.inr collectionNotIndex),
      aside₃.store names.collection (.inr apart)]
    exact (looked.same names.collection).trans collection
  · rw [index, Nat.cast_zero]
  · refine (((aside₁.mono ?_).trans looked.widen).note _).trans
      ((aside₃.mono ?_).trans (aside₄.mono ?_))
    · rintro _ rfl
      simp [namesOf]
    · rintro _ (rfl | rfl) <;> simp [namesOf]
    · rintro _ rfl
      simp [namesOf]

/-- Nothing can be taken down of a value that is no object. -/
theorem outcome_takeDown_fail {value : Value} (notObject : ∀ address, value ≠ .object address)
    (t : State) :
    ∃ t', (takeDown names value).outcome t = some (.error (), t') ∧ Aside taken (· ∈ namesOf names) t t' := by
  have freeCollection := fresh.free names.collection (by simp [namesOf])
  obtain ⟨t₁, written, collection, aside₁⟩ := outcome_write freeCollection value t
  obtain ⟨t₂, collectionRead, looked⟩ := outcome_readCollection fresh t₁
  refine ⟨t₂, ?_, (aside₁.mono ?_).trans looked.widen⟩
  · rw [takeDown, Computation.outcome_bind_ok written, Computation.outcome_bind_ok collectionRead,
      collection, enumerateObject_fail notObject]
    rfl
  · rintro _ rfl
    simp [namesOf]

end Collect

/-! ## The whole walk -/

section Walk

variable {taken : String → Bool} {inner temporary : String → Prop} {names : ForIn.Names} {name : String}
  {x y : Eval Completion}

/-- The names of a loop are temporary ones, and the loops inside it do not use them. -/
structure Hygienic (taken : String → Bool) (inner temporary : String → Prop)
    (names : ForIn.Names) : Prop extends Fresh taken names where
  own : ∀ name ∈ namesOf names, temporary name
  apart : ∀ name ∈ namesOf names, ¬ inner name
  within : ∀ name, inner name → temporary name

/-- The block of the walk does for one key what the native loop does, and leaves the walk where it
stood. -/
theorem follows_turn (hygienic : Hygienic taken inner temporary names) (isTaken : taken name = true)
    (body : Keeps taken inner x y) {frame : State} {address : Nat} {keys : List String}
    {key : String} {i : Nat} {s t s' : State} {result : Except Unit Completion}
    (there : keys[i]? = some key) (walking : Walking names keys i address t)
    (agree : Agree taken temporary frame s t)
    (run : (turn address (fun key => write name (.string key)) x key).outcome s =
      some (result, s')) :
    ∃ t', (walkBlock names name y).outcome t = some (result, t') ∧
      Walking names keys i address t' ∧ Agree taken temporary frame s' t' := by
  obtain ⟨fresh, own, apart, within⟩ := hygienic
  by_cases present : key ∈ s.objects[address]?.getD []
  · have present' : key ∈ t.objects[address]?.getD [] := agree.objects ▸ present
    obtain ⟨t₁, looked, block⟩ := outcome_walkBlock_there fresh walking there present' name y
    have both : Keeps taken inner (do write name (.string key); x) (do write name (.string key); y) :=
      .bind (keeps_write isTaken _) fun _ => body
    have agree₁ : Agree taken temporary frame s t₁ := looked.widen.agree agree
    rw [outcome_turn_there present] at run
    obtain ⟨t₂, run', agree₂⟩ := both.run agree₁ run
    refine ⟨t₂, by rw [block, run'], ?_, agree₁.onward agree₂ within⟩
    -- The body uses none of the names of the walk.
    exact (walking.looked looked).congr fun name mem =>
      agree₂.others name (fresh.free name mem) (apart name mem)
  · have gone : key ∉ t.objects[address]?.getD [] := agree.objects ▸ present
    obtain ⟨t₁, looked, skipped⟩ := outcome_walkBlock_gone fresh walking there gone name y
    rw [outcome_turn_gone present] at run
    cases run
    exact ⟨t₁, skipped, walking.looked looked, looked.widen.agree agree⟩

/-- From any key on, the walk by index does what the native loop does. -/
theorem follows_walk (hygienic : Hygienic taken inner temporary names)
    (isTaken : taken name = true) (body : Keeps taken inner x y) {frame : State} {address : Nat}
    {keys rest : List String} {i : Nat} {s t s' : State} {result : Except Unit Unit}
    (ahead : keys.drop i = rest) (walking : Walking names keys i address t)
    (agree : Agree taken temporary frame s t)
    (run : (enumerate address (fun key => write name (.string key)) x rest).outcome s =
      some (result, s')) :
    ∃ t', (Computation.repeatWhile (walkRound names (walkBlock names name y))).outcome t =
      some (result, t') ∧ Agree taken temporary frame s' t' := by
  have fresh := hygienic.toFresh
  induction rest generalizing i s t with
  | nil =>
    cases run
    obtain ⟨t₁, looked, round⟩ := outcome_walkRound fresh walking
    have done : ¬ i < keys.length := by
      have le := List.drop_eq_nil_iff.1 ahead
      omega
    refine ⟨t₁, Computation.outcome_repeatWhile_false ?_, looked.widen.agree agree⟩
    rw [round, if_neg done]
  | cons key rest ih =>
    have there : keys[i]? = some key := by
      rw [← List.head?_drop, ahead]
      rfl
    have next : keys.drop (i + 1) = rest := by
      rw [← List.tail_drop, ahead]
      rfl
    have more : i < keys.length := (List.getElem?_eq_some_iff.1 there).1
    obtain ⟨t₁, looked, round⟩ := outcome_walkRound fresh walking
    have follows {ended : Except Unit Completion} {s₁ : State} (ran : (turn address
        (fun key => write name (.string key)) x key).outcome s = some (ended, s₁)) :=
      follows_turn hygienic isTaken body there (walking.looked looked)
        (looked.widen.agree agree) ran
    rw [enumerate_cons] at run
    rcases Computation.outcome_bind_cases run with ⟨completion, s₁, ran, run⟩ | ⟨e, failed, rfl⟩
    · obtain ⟨t₂, ran', walking₂, agree₂⟩ := follows ran
      by_cases broke : completion = .broke
      · subst broke
        cases run
        refine ⟨t₂, Computation.outcome_repeatWhile_false ?_, agree₂⟩
        rw [round, if_pos more, runBlock, Computation.outcome_bind_ok ran']
        rfl
      · obtain ⟨t₃, stepped, walking₃, aside⟩ := outcome_runBlock fresh ran' broke walking₂
        have agree₃ : Agree taken temporary frame s₁ t₃ := by
          refine (aside.mono ?_).agree agree₂
          rintro _ rfl
          exact hygienic.own names.index (by simp [namesOf])
        have again : (walkRound names (walkBlock names name y)).outcome t = some (.ok true, t₃) := by
          rw [round, if_pos more, stepped]
        rw [Computation.outcome_repeatWhile_true again]
        cases completion
        case broke => exact absurd rfl broke
        all_goals exact ih next walking₃ agree₃ run
    · obtain ⟨t₂, failed', -, agree₂⟩ := follows failed
      refine ⟨t₂, Computation.outcome_repeatWhile_error ?_, agree₂⟩
      rw [round, if_pos more, runBlock, Computation.outcome_bind_error failed']

theorem execute_forIn {initializer : Node} {name : String}
    (named : loopVariable? initializer = some name)
    (span : Span) (expression body : Node) :
    (meaning ⟨span, .forInStatement initializer expression body⟩).execute = (do
      enumerateObject (fun key => write name (.string key)) (meaning body).execute
        (← (meaning expression).evaluate)
      return .normal) := by
  have bound : bindKey initializer = fun key => write name (.string key) := by
    funext key
    rw [bindKey, named]
  rw [← bound, meaning_mk]
  rfl

/-- Once both have what they go over, the block that stands for a loop does what the loop does. -/
theorem follows_over (hygienic : Hygienic taken inner temporary names) (isTaken : taken name = true)
    (body : Keeps taken inner x y) {value : Value} {frame s t s' : State}
    {result : Except Unit Completion}
    (empty : t.store names.keys = .list []) (agree : Agree taken temporary frame s t)
    (run : Computation.outcome (do
      enumerateObject (fun key => write name (.string key)) x value
      return Completion.normal) s = some (result, s')) :
    ∃ t', Computation.outcome (do
        takeDown names value
        .repeatWhile (walkRound names (walkBlock names name y))
        return Completion.normal) t = some (result, t') ∧ Agree taken temporary frame s' t' := by
  by_cases isObject : ∃ address, value = .object address
  · obtain ⟨address, rfl⟩ := isObject
    obtain ⟨t₁, takenDown, walking, aside⟩ := outcome_takeDown hygienic.toFresh address empty
    have agree₁ : Agree taken temporary frame (s.note (.enter address)) t₁ :=
      (aside.mono hygienic.own).agree (agree.note rfl)
    rw [agree.objects] at walking
    rw [Computation.outcome_bind_ok takenDown]
    have follows {ended : Except Unit Unit} {s₂ : State} (enumerated : (enumerateObject
        (fun key => write name (.string key)) x (.object address)).outcome s = some (ended, s₂)) :=
      follows_walk hygienic isTaken body List.drop_zero walking agree₁ enumerated
    rcases Computation.outcome_bind_cases run with ⟨_, s₂, enumerated, done⟩ | ⟨e, failed, rfl⟩
    · cases done
      obtain ⟨t₂, walked, agree₂⟩ := follows enumerated
      refine ⟨t₂, ?_, agree₂⟩
      rw [Computation.outcome_bind_ok walked]
      rfl
    · obtain ⟨t₂, walked, agree₂⟩ := follows failed
      exact ⟨t₂, Computation.outcome_bind_error walked _, agree₂⟩
  · have notObject : ∀ address, value ≠ .object address := fun address is => isObject ⟨address, is⟩
    rw [enumerateObject_fail notObject] at run
    cases run
    obtain ⟨t₁, failed, aside⟩ := outcome_takeDown_fail hygienic.toFresh notObject t
    exact ⟨t₁, Computation.outcome_bind_error failed _, (aside.mono hygienic.own).agree agree⟩

/-- The block that stands for a loop does what the loop does. -/
theorem keeps_loop (hygienic : Hygienic taken inner temporary names)
    {initializer expression expression' body body' : Node} (span span' : Span)
    (named : loopVariable? initializer = some name) (isTaken : taken name = true)
    (object : Keeps taken inner (meaning expression).evaluate (meaning expression').evaluate)
    (each : Keeps taken inner (meaning body).execute (meaning body').execute) :
    Keeps taken temporary (meaning ⟨span, .forInStatement initializer expression body⟩).execute
      (meaning (ForIn.loop names none span' initializer expression' body')).execute := by
  rw [execute_forIn named, execute_loop names span' named]
  refine ⟨.bind object.ends fun value => .bind (ends_enumerateObject each.ends value) fun _ => .pure _,
    fun frame => ⟨fun _ _ _ _ excused => excused, fun s t result s' agree run => .inr ?_⟩⟩
  have isOwn : names.keys ∈ namesOf names := by simp [namesOf]
  have free := hygienic.free names.keys isOwn
  obtain ⟨t₁, emptied, empty, aside⟩ := outcome_write free (.list []) t
  have agree₁ : Agree taken temporary frame s t₁ := by
    refine (aside.mono ?_).agree agree
    rintro _ rfl
    exact hygienic.own names.keys isOwn
  rw [Computation.outcome_bind_ok emptied]
  rcases Computation.outcome_bind_cases run with ⟨value, s₂, evaluated, rest⟩ | ⟨e, failed, rfl⟩
  · obtain ⟨t₂, evaluated', agree₂⟩ := object.run agree₁ evaluated
    have emptyStill : t₂.store names.keys = .list [] := by
      rw [agree₂.others names.keys free (hygienic.apart names.keys isOwn), empty]
    rw [Computation.outcome_bind_ok evaluated']
    exact follows_over hygienic isTaken each emptyStill (agree₁.onward agree₂ hygienic.within) rest
  · obtain ⟨t₂, failed', agree₂⟩ := object.run agree₁ failed
    exact ⟨t₂, Computation.outcome_bind_error failed' _, agree₁.onward agree₂ hygienic.within⟩

end Walk

end Resumable.Enumeration
