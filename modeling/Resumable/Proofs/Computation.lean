import Mathlib.Logic.Basic

/-!
# Computations that may fail or run forever

A `Computation` takes a state to an outcome, which is a value or a failure with the state where it
came about; a computation that runs forever has none.  A loop has the outcome of its last round, if
there is one (`Repeats`).  `y` follows `x` (`Follows`) if from states that agree every outcome of
`x` is an outcome of `y` too, in states that agree again.  A run of `x` may be excused: then nothing
is asked of `y`, but whatever `x` does next is excused as well.  Computations that always have an
outcome (`Ends`) are put together from ones that do.
-/

namespace Resumable

/-- A computation over a state that may fail. -/
abbrev Computation (σ α : Type) := ExceptT Unit (StateT σ Option) α

namespace Computation

variable {σ τ α β γ : Type}

/-- The outcome of a computation, or none if it runs forever. -/
def outcome (x : Computation σ α) (s : σ) : Option (Except Unit α × σ) := x s

/-- The computation that fails. -/
def fail : Computation σ α := throw ()

/-! ## Outcomes -/

@[simp] theorem outcome_pure (a : α) (s : σ) :
    outcome (pure a : Computation σ α) s = some (.ok a, s) := rfl

theorem outcome_bind (x : Computation σ α) (f : α → Computation σ β) (s : σ) :
    outcome (x >>= f) s = (outcome x s).bind fun
      | (.ok a, s) => outcome (f a) s
      | (.error e, s) => some (.error e, s) := by
  change (outcome x s).bind _ = (outcome x s).bind _
  congr 1
  funext result
  obtain ⟨_ | _, _⟩ := result <;> rfl

/-- What comes after a computation that succeeds starts from its state. -/
theorem outcome_bind_ok {x : Computation σ α} {s s' : σ} {a : α}
    (ok : outcome x s = some (.ok a, s'))
    (f : α → Computation σ β) : outcome (x >>= f) s = outcome (f a) s' := by
  rw [outcome_bind, ok]
  rfl

theorem outcome_bind_error {x : Computation σ α} {s s' : σ} {e : Unit}
    (error : outcome x s = some (.error e, s')) (f : α → Computation σ β) :
    outcome (x >>= f) s = some (.error e, s') := by
  rw [outcome_bind, error]
  rfl

/-- The ways to an outcome of a bind. -/
theorem outcome_bind_cases {x : Computation σ α} {f : α → Computation σ β} {s s' : σ}
    {result : Except Unit β} (run : outcome (x >>= f) s = some (result, s')) :
    (∃ a middle, outcome x s = some (.ok a, middle) ∧ outcome (f a) middle = some (result, s')) ∨
      ∃ e, outcome x s = some (.error e, s') ∧ result = .error e := by
  rw [outcome_bind] at run
  obtain ⟨⟨first, middle⟩, ran, rest⟩ := Option.bind_eq_some_iff.1 run
  cases first with
  | ok a => exact .inl ⟨a, middle, ran, rest⟩
  | error e =>
    cases rest
    exact .inr ⟨e, ran, rfl⟩

/-! ## Loops -/

/-- The outcomes of running a step again and again as long as it answers `true`. -/
inductive Repeats (step : Computation σ Bool) : σ → Except Unit Unit × σ → Prop where
  | done {s s' : σ} (last : outcome step s = some (.ok false, s')) : Repeats step s (.ok (), s')
  | error {s s' : σ} {e : Unit} (failed : outcome step s = some (.error e, s')) :
      Repeats step s (.error e, s')
  | again {s s' : σ} {result : Except Unit Unit × σ} (first : outcome step s = some (.ok true, s'))
      (rest : Repeats step s' result) : Repeats step s result

/-- What comes after a round that goes on is what comes from its state. -/
theorem Repeats.again_iff {step : Computation σ Bool} {s s' : σ} {result : Except Unit Unit × σ}
    (first : outcome step s = some (.ok true, s')) :
    Repeats step s result ↔ Repeats step s' result := by
  refine ⟨fun repeats => ?_, .again first⟩
  cases repeats with
  | done last => simp [first] at last
  | error failed => simp [first] at failed
  | again other rest =>
    obtain rfl : s' = _ := by simpa [first] using other
    exact rest

/-- A loop has one outcome at most. -/
theorem Repeats.unique {step : Computation σ Bool} {s : σ} {result result' : Except Unit Unit × σ}
    (repeats : Repeats step s result) (repeats' : Repeats step s result') : result' = result := by
  induction repeats with
  | done last => cases repeats' <;> simp_all
  | error failed => cases repeats' <;> simp_all
  | again first rest ih => exact ih ((again_iff first).1 repeats')

open Classical in
/-- Runs a step again and again as long as it answers `true`. -/
noncomputable def repeatWhile (step : Computation σ Bool) : Computation σ Unit := fun s =>
  if ends : ∃ result, Repeats step s result then some ends.choose else none

theorem outcome_repeatWhile_iff {step : Computation σ Bool} {s : σ}
    {result : Except Unit Unit × σ} :
    outcome (repeatWhile step) s = some result ↔ Repeats step s result := by
  unfold outcome repeatWhile
  split
  · rename_i ends
    constructor
    · intro chosen
      cases chosen
      exact ends.choose_spec
    · exact fun repeats => congrArg some (repeats.unique ends.choose_spec)
  · rename_i forever
    exact ⟨nofun, fun repeats => absurd ⟨result, repeats⟩ forever⟩

theorem outcome_repeatWhile_true {step : Computation σ Bool} {s s' : σ}
    (again : outcome step s = some (.ok true, s')) :
    outcome (repeatWhile step) s = outcome (repeatWhile step) s' := by
  ext result
  exact outcome_repeatWhile_iff.trans ((Repeats.again_iff again).trans outcome_repeatWhile_iff.symm)

theorem outcome_repeatWhile_false {step : Computation σ Bool} {s s' : σ}
    (done : outcome step s = some (.ok false, s')) :
    outcome (repeatWhile step) s = some (.ok (), s') :=
  outcome_repeatWhile_iff.2 (.done done)

theorem outcome_repeatWhile_error {step : Computation σ Bool} {s s' : σ} {e : Unit}
    (error : outcome step s = some (.error e, s')) :
    outcome (repeatWhile step) s = some (.error e, s') :=
  outcome_repeatWhile_iff.2 (.error error)

/-! ## Ending -/

/-- The computation has an outcome, whatever it starts from. -/
def Ends (x : Computation σ α) : Prop := ∀ s, ∃ result s', outcome x s = some (result, s')

namespace Ends

theorem pure (a : α) : Ends (Pure.pure a : Computation σ α) := fun s => ⟨.ok a, s, rfl⟩

theorem fail : Ends (fail : Computation σ α) := fun s => ⟨.error (), s, rfl⟩

theorem act (f : σ → α × σ) : Ends (modifyGet f : Computation σ α) :=
  fun s => ⟨.ok (f s).1, (f s).2, rfl⟩

theorem bind {x : Computation σ α} {f : α → Computation σ β} (first : Ends x)
    (next : ∀ a, Ends (f a)) :
    Ends (x >>= f) := by
  intro s
  obtain ⟨result, middle, ran⟩ := first s
  cases result with
  | ok a =>
    obtain ⟨result, s', rest⟩ := next a middle
    exact ⟨result, s', by rw [outcome_bind_ok ran, rest]⟩
  | error e => exact ⟨.error e, middle, outcome_bind_error ran f⟩

theorem forM {f : γ → Computation σ PUnit} {l : List γ} (each : ∀ c ∈ l, Ends (f c)) :
    Ends (l.forM f) := by
  induction l with
  | nil => exact pure PUnit.unit
  | cons c rest ih =>
    exact bind (each c (by simp)) fun _ => ih fun other mem => each other (by simp [mem])

theorem mapM {f : γ → Computation σ α} {l : List γ} (each : ∀ c ∈ l, Ends (f c)) :
    Ends (l.mapM f) := by
  induction l with
  | nil => exact pure []
  | cons c rest ih =>
    rw [List.mapM_cons]
    refine bind (each c (by simp)) fun _ => bind (ih fun other mem => each other (by simp [mem])) ?_
    exact fun _ => pure _

end Ends

/-! ## Following -/

/-- From states that agree `y` does what `x` does, unless that is excused. -/
structure Follows (Excused : σ → Prop) (Agree : σ → τ → Prop) (x : Computation σ α)
    (y : Computation τ α) : Prop where
  keeps : ∀ s result s', outcome x s = some (result, s') → Excused s → Excused s'
  follows : ∀ s t result s', Agree s t → outcome x s = some (result, s') →
    Excused s' ∨ ∃ t', outcome y t = some (result, t') ∧ Agree s' t'

namespace Follows

variable {Excused : σ → Prop} {Agree : σ → τ → Prop}

theorem pure (a : α) :
    Follows Excused Agree (Pure.pure a : Computation σ α) (Pure.pure a : Computation τ α) where
  keeps s result s' run excused := by
    cases run
    exact excused
  follows s t result s' agree run := by
    cases run
    exact .inr ⟨t, rfl, agree⟩

theorem fail :
    Follows Excused Agree (fail : Computation σ α) (Computation.fail : Computation τ α) where
  keeps s result s' run excused := by
    cases run
    exact excused
  follows s t result s' agree run := by
    cases run
    exact .inr ⟨t, rfl, agree⟩

/-- A step on the states that gives the same value and keeps what agrees. -/
theorem act {f : σ → α × σ} {g : τ → α × τ} (keeps : ∀ s, Excused s → Excused (f s).2)
    (same : ∀ s t, Agree s t → (f s).1 = (g t).1 ∧ Agree (f s).2 (g t).2) :
    Follows Excused Agree (modifyGet f : Computation σ α) (modifyGet g : Computation τ α) where
  keeps s result s' run excused := by
    cases run
    exact keeps s excused
  follows s t result s' agree run := by
    cases run
    obtain ⟨value, still⟩ := same s t agree
    refine .inr ⟨(g t).2, ?_, still⟩
    rw [value]
    rfl

theorem bind {x : Computation σ α} {y : Computation τ α} {f : α → Computation σ β}
    {g : α → Computation τ β} (first : Follows Excused Agree x y)
    (next : ∀ a, Follows Excused Agree (f a) (g a)) :
    Follows Excused Agree (x >>= f) (y >>= g) where
  keeps s result s' run excused := by
    rcases outcome_bind_cases run with ⟨a, middle, ran, rest⟩ | ⟨e, ran, -⟩
    · exact (next a).keeps middle result s' rest (first.keeps s _ middle ran excused)
    · exact first.keeps s _ s' ran excused
  follows s t result s' agree run := by
    rcases outcome_bind_cases run with ⟨a, middle, ran, rest⟩ | ⟨e, ran, rfl⟩
    · rcases first.follows s t _ middle agree ran with excused | ⟨t₁, ran', agree₁⟩
      · exact .inl ((next a).keeps middle result s' rest excused)
      · rw [outcome_bind_ok ran']
        exact (next a).follows middle t₁ result s' agree₁ rest
    · rcases first.follows s t _ s' agree ran with excused | ⟨t₁, ran', agree₁⟩
      · exact .inl excused
      · exact .inr ⟨t₁, outcome_bind_error ran' g, agree₁⟩

theorem forM {f : γ → Computation σ PUnit} {g : γ → Computation τ PUnit} {l : List γ}
    (each : ∀ c ∈ l, Follows Excused Agree (f c) (g c)) :
    Follows Excused Agree (l.forM f) (l.forM g) := by
  induction l with
  | nil => exact pure PUnit.unit
  | cons c rest ih =>
    exact bind (each c (by simp)) fun _ => ih fun other mem => each other (by simp [mem])

theorem mapM {f : γ → Computation σ α} {g : γ → Computation τ α} {l : List γ}
    (each : ∀ c ∈ l, Follows Excused Agree (f c) (g c)) :
    Follows Excused Agree (l.mapM f) (l.mapM g) := by
  induction l with
  | nil => exact pure []
  | cons c rest ih =>
    rw [List.mapM_cons, List.mapM_cons]
    refine bind (each c (by simp)) fun _ => bind (ih fun other mem => each other (by simp [mem])) ?_
    exact fun _ => pure _

theorem keeps_repeats {x : Computation σ Bool} {y : Computation τ Bool}
    (step : Follows Excused Agree x y)
    {s : σ} {result : Except Unit Unit × σ} (repeats : Repeats x s result) (excused : Excused s) :
    Excused result.2 := by
  induction repeats with
  | done last => exact step.keeps _ _ _ last excused
  | error failed => exact step.keeps _ _ _ failed excused
  | again first rest ih => exact ih (step.keeps _ _ _ first excused)

/-- What one run of a loop does, the other loop does too, round after round. -/
theorem follows_repeats {x : Computation σ Bool} {y : Computation τ Bool}
    (step : Follows Excused Agree x y) {s : σ} {t : τ} {result : Except Unit Unit × σ}
    (repeats : Repeats x s result) (agree : Agree s t) :
    Excused result.2 ∨ ∃ t', outcome (repeatWhile y) t = some (result.1, t') ∧ Agree result.2 t' := by
  induction repeats generalizing t with
  | done last =>
    apply (step.follows _ t _ _ agree last).imp_right
    rintro ⟨t', last', agree'⟩
    exact ⟨t', outcome_repeatWhile_false last', agree'⟩
  | error failed =>
    apply (step.follows _ t _ _ agree failed).imp_right
    rintro ⟨t', failed', agree'⟩
    exact ⟨t', outcome_repeatWhile_error failed', agree'⟩
  | again first rest ih =>
    rcases step.follows _ t _ _ agree first with excused | ⟨t', first', agree'⟩
    · exact .inl (keeps_repeats step rest excused)
    · rw [outcome_repeatWhile_true first']
      exact ih agree'

theorem repeatWhile {x : Computation σ Bool} {y : Computation τ Bool}
    (step : Follows Excused Agree x y) :
    Follows Excused Agree (Computation.repeatWhile x) (Computation.repeatWhile y) where
  keeps _ _ _ run excused := keeps_repeats step (outcome_repeatWhile_iff.1 run) excused
  follows _ _ _ _ agree run := follows_repeats step (outcome_repeatWhile_iff.1 run) agree

end Follows

end Computation

end Resumable
