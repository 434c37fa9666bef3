import Resumable.Proofs.Bodies
import Resumable.Proofs.Plans
import Resumable.Proofs.Protocol

/-!
# What the names of a moved body mean

Lowering a function moves its body into a generator function inside it.  Names are resolved by
function scopes (`resolve`): the nearest function that binds a name decides what it means, and every
function binds its own `arguments`.  So a name of the body that meant a parameter of the function
means it still exactly if the body does not declare the name as well, and `arguments` never means
what it meant (`runStandard_rescopes`, `recaptured`).
-/

namespace Resumable

/-! ## Resolving names -/

/-- Counts the variables and classes of a name that a scope declares, and the functions of that
name. Methods are no declarations. -/
def Census.declaring (name : String) : Census where
  named form own :=
    if (form = .variableDeclaration ∨ form = .classDeclaration) ∧ own = name then 1 else 0
  yielding _ _ := 0
  function isMember f :=
    if isMember = false ∧ f.form = .functionDeclaration ∧ f.kind.ownName? = some name then 1 else 0

namespace Node

/-- The own scope of a body declares the name as a variable, a function or a class. Under
`loopsLowered` the declarations are left out that lowering its for-in loops drops: those in the
initializer of a loop beside and behind the loop variable. -/
def declares (body : Node) (loopsLowered : Bool) (name : String) : Prop :=
  0 < body.census (.declaring name) loopsLowered false

instance (body : Node) (loopsLowered : Bool) (name : String) :
    Decidable (body.declares loopsLowered name) :=
  inferInstanceAs (Decidable (0 < _))

/-- The parameters of a function scope. -/
def formals (scope : Node) : List Node :=
  match scope.kind with
  | .functionDeclaration _ _ parameters _ | .functionExpression _ parameters _ _ => parameters
  | .setAccessorDeclaration _ _ parameter _ => [parameter]
  | _ => []

/-- The name of a parameter, with or without a default value. -/
def formalName? (parameter : Node) : Option String :=
  match parameter.kind with
  | .identifier name | .variableDeclaration name _ => some name
  | _ => none

end Node

/-- How a function scope binds a name. -/
inductive Binding where
  | parameter
  | arguments
  | declared
  deriving Repr, DecidableEq

/-- What a name is bound to by a function scope. A declaration that repeats the name of a parameter
means that parameter. -/
def Node.binding? (scope : Node) (name : String) : Option Binding :=
  if name ∈ scope.formals.filterMap formalName? then some .parameter
  else if name = "arguments" then some .arguments
  else scope.body?.bind fun body => if body.declares false name then some .declared else none

/-- What a name means inside of function scopes, innermost first: the nearest one that binds it, and
how. -/
def resolve : List Node → String → Option (Node × Binding)
  | [], _ => none
  | scope :: outer, name =>
    match scope.binding? name with
    | some binding => some (scope, binding)
    | none => resolve outer name

theorem binding?_of_resolve {scopes : List Node} {name : String} {scope : Node} {binding : Binding}
    (resolved : resolve scopes name = some (scope, binding)) : scope.binding? name = some binding := by
  induction scopes with
  | nil => cases resolved
  | cons inner outer ih =>
    unfold resolve at resolved
    split at resolved
    · cases resolved
      assumption
    · exact ih resolved

theorem isParameter_of_binding {scope : Node} {name : String} {binding : Binding}
    (bound : scope.binding? name = some binding) (ofFunction : binding ≠ .declared)
    (other : name ≠ "arguments") : name ∈ scope.formals.filterMap Node.formalName? := by
  by_contra notFormal
  rw [Node.binding?, if_neg notFormal, if_neg other] at bound
  obtain ⟨body, -, bound⟩ := Option.bind_eq_some_iff.1 bound
  split at bound
  · cases bound
    exact ofFunction rfl
  · cases bound

theorem resolve_cons_some {scope : Node} {name : String} {binding : Binding}
    (bound : scope.binding? name = some binding) (outer : List Node) :
    resolve (scope :: outer) name = some (scope, binding) := by
  rw [resolve, bound]

theorem resolve_cons_none {scope : Node} {name : String} (free : scope.binding? name = none)
    (outer : List Node) : resolve (scope :: outer) name = resolve outer name := by
  rw [resolve, free]

/-! ## Moved bodies -/

open Build

theorem formals_withBody (function body : Node) : (function.withBody body).formals = function.formals := by
  obtain ⟨span, kind⟩ := function
  cases kind <;> rfl

theorem formals_subset_children (scope : Node) : scope.formals ⊆ scope.children := by
  obtain ⟨span, kind⟩ := scope
  cases kind <;> simp [Node.formals, Node.children, Node.kind, Kind.children]

theorem uses_of_isParameter {scope : Node} {name : String}
    (isParameter : name ∈ scope.formals.filterMap Node.formalName?) : scope.uses name := by
  obtain ⟨parameter, isFormal, named⟩ := List.mem_filterMap.1 isParameter
  refine ⟨parameter, Node.mem_subtree_iff.2 (.inr ⟨parameter,
    formals_subset_children scope isFormal, Node.self_mem_subtree parameter⟩), ?_⟩
  obtain ⟨span, kind⟩ := parameter
  cases kind
  case identifier | variableDeclaration => exact named
  all_goals cases named

/-- The generator function that a body was moved into binds what the body declares, and
`arguments`. -/
theorem binding?_generator (moved : Node) (name : String) :
    (functionExpression [] moved true).binding? name =
      if name = "arguments" then some .arguments
      else if moved.declares false name then some .declared else none := rfl

/-- A name that meant a parameter or the `arguments` of a function means the same from inside the
moved body exactly if the generator function does not bind it. -/
theorem resolve_moved_iff {function moved : Node} {name : String} {binding : Binding}
    (isFunction : function.isFunctionLike = true)
    (bound : function.binding? name = some binding) (ofFunction : binding ≠ .declared)
    (body : Node) (outer : List Node) :
    resolve (functionExpression [] moved true :: function.withBody body :: outer) name =
        some (function.withBody body, binding) ↔
      name ≠ "arguments" ∧ ¬ moved.declares false name := by
  have other : functionExpression [] moved true ≠ function.withBody body := by
    intro same
    have form := congrArg Node.isFunctionLike same
    rw [Node.isFunctionLike, Node.isFunctionLike, Lowering.form_withBody, ← Node.isFunctionLike,
      ← Node.isFunctionLike, isFunction] at form
    cases form
  by_cases isArguments : name = "arguments"
  · rw [resolve_cons_some (by rw [binding?_generator, if_pos isArguments])]
    simp [isArguments, other]
  · by_cases declares : moved.declares false name
    · rw [resolve_cons_some (by rw [binding?_generator, if_neg isArguments, if_pos declares])]
      simp [declares, other]
    · have isParameter := isParameter_of_binding bound ofFunction isArguments
      have still : (function.withBody body).binding? name = some .parameter := by
        rw [Node.binding?, formals_withBody, if_pos isParameter]
      have before : binding = .parameter := by
        rw [Node.binding?, if_pos isParameter] at bound
        exact (Option.some.inj bound).symm
      rw [resolve_cons_none (by rw [binding?_generator, if_neg isArguments, if_neg declares]),
        resolve_cons_some still, before]
      simp [isArguments, declares]

namespace Lowering

/-! ## Runs -/

/-- What became of the body of a function. If it suspends, it was moved into a generator function,
and a name that meant a parameter or the `arguments` of the function, wherever the function stood and
stands, means the same still exactly if it is not `arguments` and the body does not declare it. -/
def Rescopes {τ : Type} (function start : Node) (_ : List τ) (result : Node) : Prop :=
  if function.bodySuspends then
    ∃ body helper moved, function.body? = some body ∧ result = Delegation.delegate helper moved ∧
      ∀ name binding outer outer', binding ≠ .declared →
        resolve (function :: outer) name = some (function, binding) →
        (resolve (functionExpression [] moved true :: function.withBody result :: outer') name =
            some (function.withBody result, binding) ↔
          name ≠ "arguments" ∧ ¬ body.declares body.lowersLoops name)
  else result = start

/-- What is known of a moved body as long as the names that were taken are not known to be new. -/
def Moves (function start : Node) (taken : List String) (result : Node) : Prop :=
  if function.bodySuspends then
    ∃ body helper moved, function.body? = some body ∧ result = Delegation.delegate helper moved ∧
      ∀ name ∉ taken, moved.declares false name ↔ body.declares body.lowersLoops name
  else result = start

theorem moves_carryOut (limit : UInt32) (helpers : Helpers) {function body : Node}
    {nested : Option Node} {s : State Unit} (has : function.body? = some body)
    (lowered : ∃ before, (lowerNode limit (.standard helpers) body).run before = (nested, s)) :
    let out := (carryOut (.standard helpers) body nested (Plan.ofFacts (Facts.of body))).run s
    ∃ taken, s.names.Gives taken out.2.names ∧
      Moves function (nested.getD body) taken (out.1.getD body) := by
  intro out
  unfold Moves
  rw [bodySuspends_eq has]
  cases suspends : (Facts.of body).suspends with
  | false =>
    have outEq : out = (nested, s) := run_carryOut_calm _ body nested suspends s
    rw [outEq]
    exact ⟨[], NameSupply.isTrace_gives.nil _, rfl⟩
  | true =>
    let plan : Plan := ⟨(Facts.of body).hasForIn, (Facts.of body).isIteration,
      if (Facts.of body).hasSuspension then .generator else .async⟩
    have hasPlan : Plan.ofFacts (Facts.of body) = some plan := ofFacts_suspends suspends
    have loops : plan.lowerForIn = body.lowersLoops := by simp [plan, Node.lowersLoops, suspends]
    obtain ⟨result, names⟩ := carryOut_standard helpers plan body nested s
    obtain ⟨taken, gives, census⟩ := census_moved helpers plan (nested.getD body) s.names s.log
    simp only [out, hasPlan, if_true]
    refine ⟨taken, names ▸ gives, body, _, _, has, by rw [result]; rfl, fun name new => ?_⟩
    have ignores : ∀ other ∈ taken, (Census.declaring name).Ignores other := by
      intro other mem
      have ne : other ≠ name := fun same => new (same ▸ mem)
      simp [Census.Ignores, Census.declaring, ne]
    have nestedCensus : (nested.getD body).census (.declaring name) plan.lowerForIn false =
        body.census (.declaring name) plan.lowerForIn false := by
      obtain ⟨before, run⟩ := lowered
      have kept := census_lowerNode (c := .declaring name)
        (fun f f' isMember form own => by simp [Census.declaring, form, own]) limit
        (.standard helpers) plan.lowerForIn body before false
      rwa [run] at kept
    rw [Node.declares, Node.declares, ← loops,
      census _ ignores (by simp [Census.declaring]) (fun _ _ => rfl)
        (by funext own; simp [Census.declaring]), nestedCensus]

/-- What became of the bodies of a run, and what the names in them mean. -/
theorem runStandard_rescopes (options : Options) (names : NameSupply) (log : Log) (tree : Node) :
    ∃ taken : List String, Course Rescopes options.maxFunctionDepth.toNat 0 tree taken
      ((runStandard options names log tree).tree.getD tree) := by
  let start : State Unit := ⟨(), names.reserveAll tree.names.toList, log, 0, .zero⟩
  obtain ⟨-, taken, gives, course⟩ := course_lowerNode options.maxFunctionDepth
    (.standard options.helpers)
    (W := fun (s : State Unit) taken (later : State Unit) => s.names.Gives taken later.names)
    ⟨fun s => NameSupply.isTrace_gives.nil s.names, NameSupply.isTrace_gives.append⟩
    (fun s later _ same => by rw [same]; exact NameSupply.isTrace_gives.nil s.names) (Q := Moves)
    (fun function body nested s _ has lowered =>
      moves_carryOut options.maxFunctionDepth options.helpers has lowered) tree start
  refine ⟨taken, course.imp fun function inner own result entered inside moves => ?_⟩
  unfold Moves at moves
  unfold Rescopes
  by_cases suspends : function.bodySuspends = true
  · rw [if_pos suspends] at moves ⊢
    obtain ⟨body, helper, moved, has, rfl, same⟩ := moves
    refine ⟨body, helper, moved, has, rfl, fun name binding outer outer' ofFunction resolved => ?_⟩
    obtain ⟨mem, isFunction⟩ := List.mem_filter.1 ((Node.entered_subperm _ _ _).subset entered)
    have bound := binding?_of_resolve resolved
    rw [resolve_moved_iff isFunction bound ofFunction]
    by_cases isArguments : name = "arguments"
    · simp [isArguments]
    · have new : name ∉ own := fun isOwn => by
        have free := gives.not_isTaken (inside isOwn)
        have reserved : start.names.isTaken name = true := by
          obtain ⟨inner, inFunction, own⟩ :=
            uses_of_isParameter (isParameter_of_binding bound ofFunction isArguments)
          exact (Node.isTaken_reserveAll_names_iff tree names name).2
            (.inl ⟨inner, Node.subtree_subset mem inFunction, own⟩)
        rw [reserved] at free
        cases free
      rw [same name new]
  · rw [if_neg suspends] at moves ⊢
    exact moves

/-- The body `{ var p; yield p; yield arguments; }`. -/
def redeclaringBody : Node :=
  block [variableStatement "p" none, suspensionStatement (some (identifier "p")) false,
    suspensionStatement (some (identifier "arguments")) false]

/-- The function `function f(p) { var p; yield p; yield arguments; }`. -/
def redeclaring : Node :=
  Node.synthetic (.functionDeclaration (some "f") false [identifier "p"] redeclaringBody)

/-- Both `p` and `arguments` stand in the body and mean the parameter and the arguments of the
function. In the lowered function both mean something of the generator function inside. -/
theorem recaptured :
    let moved := functionExpression [] redeclaringBody true
    let lowered := redeclaring.withBody (Delegation.delegate "__generator" redeclaringBody)
    (runStandard .standard Options.standard.nameSupply #[] redeclaring).tree = some lowered ∧
      (identifier "p" ∈ redeclaringBody.ownScope ∧
        resolve [redeclaring] "p" = some (redeclaring, .parameter) ∧
        resolve [moved, lowered] "p" = some (moved, .declared) ∧
        resolve [moved, lowered] "p" ≠ some (lowered, .parameter)) ∧
      identifier "arguments" ∈ redeclaringBody.ownScope ∧
        resolve [redeclaring] "arguments" = some (redeclaring, .arguments) ∧
        resolve [moved, lowered] "arguments" = some (moved, .arguments) ∧
        resolve [moved, lowered] "arguments" ≠ some (lowered, .arguments) := by
  intro moved lowered
  have other : moved ≠ lowered := fun same => nomatch congrArg Node.form same
  have p : resolve [moved, lowered] "p" = some (moved, .declared) := rfl
  have arguments : resolve [moved, lowered] "arguments" = some (moved, .arguments) := rfl
  refine ⟨rfl, ⟨?_, rfl, p, ?_⟩, ?_, rfl, arguments, ?_⟩
  · exact .tail _ (.tail _ (.tail _ (.tail _ (.head _))))
  · rw [p]
    intro same
    exact other (congrArg Prod.fst (Option.some.inj same))
  · exact .tail _ (.tail _ (.tail _ (.tail _ (.tail _ (.tail _ (.head _))))))
  · rw [arguments]
    intro same
    exact other (congrArg Prod.fst (Option.some.inj same))

end Lowering

end Resumable
