import Mathlib.Logic.Basic
import Resumable.Proofs.Stability

/-!
# Suspensions that survive

A function declaration or accessor that still suspends by itself after a run (`Node.suspendsItself`)
was never lowered.  As long as no function is reported as too deep, every body that the run reaches
is lowered, so such a function can only come from where the run does not look: the parameters of a
function declaration or of a set accessor (`Node.hides`).  `exists_suspendsItself_iff` says that
these survivors are exactly what is left.
-/

namespace Resumable

namespace Node

/-! ## Functions that suspend -/

/-- A function declaration or accessor with a suspension in the own scope of its body. -/
def suspendsItself (node : Node) : Prop :=
  node.isFunctionLike = true ∧
    ∃ body, node.body? = some body ∧ ∃ inner ∈ body.ownScope, inner.isSuspension = true

theorem suspendsItself_iff {node body : Node} (isFunction : node.isFunctionLike = true)
    (has : node.body? = some body) :
    node.suspendsItself ↔ (Facts.of body).suspends = true := by
  rw [Facts.suspends_of_iff]
  constructor
  · rintro ⟨-, body', has', suspends⟩
    obtain rfl : body' = body := Option.some.inj (has'.symm.trans has)
    exact suspends
  · intro suspends
    exact ⟨isFunction, body, has, suspends⟩

/-- Somewhere in the tree is a function that suspends by itself. -/
def leaks (node : Node) : Prop := ∃ inner ∈ node.subtree, inner.suspendsItself

theorem leaks_iff (node : Node) :
    node.leaks ↔ node.suspendsItself ∨ ∃ child ∈ node.children, child.leaks := by
  unfold leaks
  constructor
  · rintro ⟨inner, mem, suspends⟩
    rcases mem_subtree_iff.1 mem with rfl | ⟨child, isChild, mem⟩
    · exact .inl suspends
    · exact .inr ⟨child, isChild, inner, mem, suspends⟩
  · rintro (suspends | ⟨child, isChild, inner, mem, suspends⟩)
    · exact ⟨node, self_mem_subtree node, suspends⟩
    · exact ⟨inner, mem_subtree_iff.2 (.inr ⟨child, isChild, mem⟩), suspends⟩

theorem not_suspendsItself {node : Node} (other : node.isFunctionLike = false) :
    ¬ node.suspendsItself := by
  rintro ⟨isFunction, -⟩
  rw [other] at isFunction
  cases isFunction

theorem isFunctionLike_of_not_scope {node : Node} (plain : node.isFunctionScope = false) :
    node.isFunctionLike = false := by
  cases isFunction : node.isFunctionLike with
  | false => rfl
  | true => rw [isFunctionScope_of_like isFunction] at plain; cases plain

/-- The functions in the scope that lowering its for-in loops keeps, or all of them, hold a function
that suspends by itself. -/
def leaksBelow (loopsLowered : Bool) (node : Node) : Prop :=
  ∃ inner ∈ node.functions loopsLowered, inner.leaks

theorem leaksBelow_scope {node : Node} (scope : node.isFunctionScope = true) (loopsLowered : Bool) :
    node.leaksBelow loopsLowered ↔ node.leaks := by
  simp [leaksBelow, functions_of_scope loopsLowered scope]

theorem leaksBelow_plain {node : Node} (plain : node.isFunctionScope = false)
    (loopsLowered : Bool) :
    node.leaksBelow loopsLowered ↔
      ∃ child ∈ node.keptChildren loopsLowered, child.leaksBelow loopsLowered := by
  simp only [leaksBelow, functions_of_not_scope loopsLowered plain, List.mem_flatMap]
  constructor
  · rintro ⟨inner, ⟨child, isChild, mem⟩, leaks⟩
    exact ⟨child, isChild, inner, mem, leaks⟩
  · rintro ⟨child, isChild, inner, mem, leaks⟩
    exact ⟨inner, ⟨child, isChild, mem⟩, leaks⟩

/-- Every function that suspends stands in one of the functions of the scope. -/
theorem leaksBelow_false_iff (node : Node) : node.leaksBelow false ↔ node.leaks := by
  induction node using inductionOn with
  | step node ih =>
    cases scope : node.isFunctionScope with
    | true => exact leaksBelow_scope scope false
    | false =>
      rw [leaksBelow_plain scope, keptChildren_false, leaks_iff]
      have notItself := not_suspendsItself (isFunctionLike_of_not_scope scope)
      simp only [notItself, false_or]
      exact exists_congr fun child => and_congr_right fun isChild => ih child isChild

/-! ## Where the lowering does not look -/

/-- The parameters of a function declaration or of a set accessor. -/
def parameters (node : Node) : List Node :=
  match node.kind with
  | .functionDeclaration _ _ parameters _ => parameters
  | .setAccessorDeclaration _ _ parameter _ => [parameter]
  | _ => []

/-- Lowering a body with these facts rewrites its for-in loops. -/
def lowersLoops (body : Node) : Bool := (Facts.of body).suspends && (Facts.of body).hasForIn

/-- Somewhere in the parameters of a function declaration or set accessor is a function that
suspends by itself. Functions in the initializer of a for-in loop that will be dropped do not
count. -/
def hides (node : Node) : Bool → Prop :=
  node.para fun node parts loopsLowered =>
    match parts with
    | .functionDeclaration _ _ _ body | .getAccessorDeclaration _ _ body
    | .setAccessorDeclaration _ _ _ body =>
      (∃ parameter ∈ node.parameters, parameter.leaks) ∨ body.2 body.1.lowersLoops
    | .functionExpression _ parameters body _ => ∃ part ∈ parameters ++ [body], part.2 false
    | parts =>
      ∃ part ∈ parts.kept fun part => dropsInitializer loopsLowered part.1, part.2 loopsLowered

theorem hides_function {node body : Node} (isFunction : node.isFunctionLike = true)
    (has : node.body? = some body) (loopsLowered : Bool) :
    node.hides loopsLowered ↔
      (∃ parameter ∈ node.parameters, parameter.leaks) ∨ body.hides body.lowersLoops := by
  rw [hides, para_eq]
  obtain ⟨span, kind⟩ := node
  cases kind
  case functionDeclaration | getAccessorDeclaration | setAccessorDeclaration =>
    cases has
    exact Iff.rfl
  all_goals cases isFunction

theorem hides_expression {node : Node} (isExpression : node.form = .functionExpression)
    (loopsLowered : Bool) :
    node.hides loopsLowered ↔ ∃ child ∈ node.children, child.hides false := by
  have parts : (∃ part ∈ (node.kind.map fun child => (child, child.hides)).children, part.2 false) ↔
      ∃ child ∈ node.children, child.hides false := by
    simp only [children, Kind.children_map, List.mem_map, exists_exists_and_eq_and]
  rw [← parts, hides, para_eq]
  obtain ⟨span, kind⟩ := node
  cases kind <;> try cases isExpression
  exact Iff.rfl

theorem hides_plain {node : Node} (plain : node.isFunctionScope = false) (loopsLowered : Bool) :
    node.hides loopsLowered ↔ ∃ child ∈ node.keptChildren loopsLowered, child.hides loopsLowered := by
  have parts : (∃ part ∈ (node.kind.map fun child => (child, child.hides)).kept
      fun part => dropsInitializer loopsLowered part.1, part.2 loopsLowered) ↔
      ∃ child ∈ node.keptChildren loopsLowered, child.hides loopsLowered := by
    simp only [keptChildren, Kind.kept_map, List.mem_map, exists_exists_and_eq_and]
  rw [← parts, hides, para_eq]
  obtain ⟨span, kind⟩ := node
  cases kind
  case functionDeclaration | functionExpression | getAccessorDeclaration | setAccessorDeclaration =>
    cases plain
  all_goals exact Iff.rfl

/-- A tree with nothing but harmless parameters hides nothing. -/
theorem not_hides_of_parameters {node : Node}
    (harmless : ∀ f ∈ node.subtree, ∀ parameter ∈ f.parameters, ¬ parameter.leaks)
    (loopsLowered : Bool) : ¬ node.hides loopsLowered := by
  induction node using inductionOn generalizing loopsLowered with
  | step node ih =>
    have child_harmless : ∀ child ∈ node.children, ∀ flag, ¬ child.hides flag := by
      intro child isChild
      refine ih child isChild fun f mem => harmless f ?_
      exact mem_subtree_iff.2 (.inr ⟨child, isChild, mem⟩)
    cases node using cases_scope with
    | function node body isFunction has mem =>
      rw [hides_function isFunction has]
      rintro (⟨parameter, isParameter, leaks⟩ | hides)
      · exact harmless node (self_mem_subtree node) parameter isParameter leaks
      · exact child_harmless body mem _ hides
    | expression node isExpression =>
      rw [hides_expression isExpression]
      rintro ⟨child, isChild, hides⟩
      exact child_harmless child isChild _ hides
    | plain node plain =>
      rw [hides_plain plain]
      rintro ⟨child, kept, hides⟩
      exact child_harmless child (keptChildren_subset _ _ kept) _ hides

end Node

namespace Lowering

variable {σ : Type}

/-! ## What a run keeps of a node -/

theorem form_assemble {node : Node} {results : Kind (Node × Option Node)}
    (same : results.map Prod.fst = node.kind) :
    ((node.assemble results).getD node).form = node.form := by
  rw [Node.assemble_getD same, Node.form, Node.kind, Kind.form_map, ← Kind.form_map Prod.fst, same]
  rfl

theorem form_withBody (node body : Node) : (node.withBody body).form = node.form := by
  obtain ⟨span, kind⟩ := node
  cases kind <;> rfl

/-- A run keeps the form of a node. -/
theorem form_lowerNode (limit : UInt32) (engines : Engines σ) (node : Node) (s : State σ) :
    (((lowerNode limit engines node).run s).1.getD node).form = node.form := by
  have rebuilt : ∀ start : State σ,
      (((node.rebuild (parts limit engines node)).run start).1.getD node).form = node.form := by
    intro start
    obtain ⟨results, same, answer, -⟩ := Node.rebuild_each (R := fun _ _ => True) node
      (fun child _ s => trivial) start
    rw [answer, form_assemble same]
  have refused : node.isFunctionScope = true → limit.toNat ≤ s.depth →
      (((lowerNode limit engines node).run s).1.getD node).form = node.form := by
    intro scope deep
    rw [run_lowerNode_refused limit _ scope deep]
    rfl
  cases node using Node.cases_scope with
  | function node body isFunction has mem =>
    by_cases deep : limit.toNat ≤ s.depth
    · exact refused (Node.isFunctionScope_of_like isFunction) deep
    · rw [run_lowerNode_function limit _ isFunction has (by omega), map_withBody_getD has]
      exact form_withBody node _
  | expression node isExpression =>
    by_cases deep : limit.toNat ≤ s.depth
    · exact refused (Node.isFunctionScope_of_expression isExpression) deep
    · rw [run_lowerNode_expression limit _ isExpression (by omega)]
      exact rebuilt s.deeper
  | plain node plain =>
    rw [lowerNode_plain limit _ plain]
    exact rebuilt s

theorem isFunctionScope_lowerNode (limit : UInt32) (engines : Engines σ) (node : Node)
    (s : State σ) :
    (((lowerNode limit engines node).run s).1.getD node).isFunctionScope = node.isFunctionScope :=
  congrArg Form.isFunctionScope (form_lowerNode limit engines node s)

/-- Lowering the functions in a scope does not change its facts. -/
theorem scan_lowerNode (limit : UInt32) (engines : Engines σ) (node : Node) (s : State σ) :
    Facts.scan (((lowerNode limit engines node).run s).1.getD node) = Facts.scan node := by
  induction node using Node.inductionOn generalizing s with
  | step node ih =>
    funext facts
    rw [Facts.scan_eq, Facts.scan_eq, isFunctionScope_lowerNode]
    cases scope : node.isFunctionScope with
    | true => rfl
    | false =>
      obtain ⟨results, same, answer, related⟩ := Node.rebuild_each
        (R := fun child result => Facts.scan (result.getD child) = Facts.scan child) node ih s
      have noted := Facts.note_map (fun result : Node × Option Node => result.2.getD result.1)
        Prod.fst node.span node.span results
      have children : ∀ (l : List (Node × Option Node)) (facts : Facts),
          (∀ result ∈ l, Facts.scan (result.2.getD result.1) = Facts.scan result.1) →
          (l.map fun result => result.2.getD result.1).foldl
            (fun facts child => Facts.scan child facts) facts =
          (l.map Prod.fst).foldl (fun facts child => Facts.scan child facts) facts := by
        intro l
        induction l with
        | nil => exact fun _ _ => rfl
        | cons result rest ihRest =>
          intro facts related
          simp only [List.map_cons, List.foldl_cons]
          rw [related result (by simp)]
          exact ihRest _ fun other mem => related other (by simp [mem])
      rw [lowerNode_plain limit _ scope, answer, Node.assemble_getD same, noted, same,
        Node.children_eq_of_map_fst same]
      simp only [Bool.false_eq_true, if_false, Node.children, Node.kind, Kind.children_map]
      exact children results.children _ related

theorem facts_lowerNode (limit : UInt32) (engines : Engines σ) (node : Node) (s : State σ) :
    Facts.of (((lowerNode limit engines node).run s).1.getD node) = Facts.of node := by
  rw [Facts.of_eq_scan, Facts.of_eq_scan, scan_lowerNode]

theorem variableName?_scope {node : Node} (scope : node.isFunctionScope = true) :
    variableName? node = none := by
  obtain ⟨span, kind⟩ := node
  cases kind <;> first | rfl | cases scope

theorem variableName?_lowerNode (limit : UInt32) (engines : Engines σ) (node : Node) (s : State σ) :
    variableName? (((lowerNode limit engines node).run s).1.getD node) = variableName? node := by
  have kept := isFunctionScope_lowerNode limit engines node s
  cases scope : node.isFunctionScope with
  | true => rw [variableName?_scope (kept.trans scope), variableName?_scope scope]
  | false =>
    obtain ⟨results, same, answer, -⟩ := Node.rebuild_each (R := fun _ _ => True) node
      (fun child _ s => trivial) s (f := lowerNode limit engines)
    rw [lowerNode_plain limit _ scope, answer, Node.assemble_getD same,
      variableName?_kind_map _ Prod.fst _ node.span, same]
    rfl

theorem declaredVariable?_scope {node : Node} (scope : node.isFunctionScope = true) :
    declaredVariable? node = none := by
  obtain ⟨span, kind⟩ := node
  cases kind <;> first | rfl | cases scope

theorem declaredVariable?_lowerNode (limit : UInt32) (engines : Engines σ) (node : Node)
    (s : State σ) :
    declaredVariable? (((lowerNode limit engines node).run s).1.getD node) =
      declaredVariable? node := by
  have kept := isFunctionScope_lowerNode limit engines node s
  cases scope : node.isFunctionScope with
  | true => rw [declaredVariable?_scope (kept.trans scope), declaredVariable?_scope scope]
  | false =>
    obtain ⟨results, same, answer, related⟩ := Node.rebuild_each
      (R := fun child result => variableName? (result.getD child) = variableName? child) node
      (fun child _ s => variableName?_lowerNode limit engines child s) s
    rw [lowerNode_plain limit _ scope, answer, Node.assemble_getD same,
      declaredVariable?_kind_map node.span node.span results related, same]
    rfl

/-! ## Reports -/

/-- Beyond the first diagnostics there is one about a function that stands too deep. -/
def reportsDepth (first : Nat) (log : Log) : Prop :=
  ∃ diagnostic ∈ log.toList.drop first, diagnostic.code = Template.nestingTooDeep.code

theorem reportsDepth_mono {first : Nat} {log later : Log} (grown : log.toList <+: later.toList)
    (reports : reportsDepth first log) : reportsDepth first later := by
  obtain ⟨diagnostic, mem, code⟩ := reports
  obtain ⟨more, together⟩ := grown
  refine ⟨diagnostic, ?_, code⟩
  rw [← together, List.drop_append]
  exact List.mem_append_left _ mem

theorem reportsDepth_refuse {first : Nat} {s : State σ} (le : first ≤ s.log.size) (limit : UInt32)
    (node : Node) : reportsDepth first (s.refuse limit node).log := by
  refine ⟨Template.nestingTooDeep.diagnose node.span [toString limit.toNat], ?_, rfl⟩
  have size : first ≤ s.log.toList.length := by simpa using le
  simp [State.refuse, List.drop_append_of_le_length size]

theorem size_le_of_grown {log later : Log} (grown : log.toList <+: later.toList) :
    log.size ≤ later.size := by
  simpa using grown.length_le

/-! ## What is left after a run -/

theorem leaks_delegate (helper : String) (body : Node) :
    (Delegation.delegate helper body).leaks ↔ body.leaks := by
  let expression := Build.functionExpression [] body true
  have notItself : ¬ expression.suspendsItself := Node.not_suspendsItself rfl
  have functions : (Delegation.delegate helper body).functions false = [expression] :=
    Delegation.functions_delegate helper body
  have child : expression.children = [body] := rfl
  rw [← Node.leaksBelow_false_iff, Node.leaksBelow, functions]
  simp [Node.leaks_iff expression, notItself, child]

/-- In the body that a run leaves behind are the functions that suspend which it did not reach. -/
theorem leaks_lowerBody {helpers : Helpers} {body : Node} {inner : Run Unit (Option Node)}
    {s : State Unit} (facts : Facts.of ((inner.run s).1.getD body) = Facts.of body)
    (nested : ∀ loopsLowered, ((inner.run s).1.getD body).leaksBelow loopsLowered ↔
      body.hides loopsLowered) :
    (((lowerBody (.standard helpers) body inner).run s).1.getD body).leaks ↔
      body.hides body.lowersLoops := by
  rw [← nested]
  cases found : Plan.ofFacts (Facts.of ((inner.run s).1.getD body)) with
  | none =>
    have calm : (Facts.of body).suspends = false := by
      rw [facts] at found
      simpa [Plan.ofFacts] using found
    have keepsLoops : body.lowersLoops = false := by simp [Node.lowersLoops, calm]
    rw [run_lowerBody_none found, keepsLoops, Node.leaksBelow_false_iff]
  | some plan =>
    have lowersLoops : body.lowersLoops = plan.lowerForIn := by
      rw [facts, Plan.ofFacts] at found
      split at found
      · rename_i suspends
        cases found
        simp [Node.lowersLoops, suspends]
      · cases found
    obtain ⟨helper, rewritten, answer, functions, -⟩ := lowerBody_standard helpers found
    rw [answer, lowersLoops, Option.getD_some, leaks_delegate, ← Node.leaksBelow_false_iff]
    exact exists_congr fun f => and_congr_left fun _ => functions f

/-- The parameters of a function are left alone, and its new body does not suspend. -/
theorem leaks_withBody {node body body' : Node} (isFunction : node.isFunctionLike = true)
    (has : node.body? = some body) (calm : (Facts.of body').suspends = false) :
    (node.withBody body').leaks ↔
    (∃ parameter ∈ node.parameters, parameter.leaks) ∨ body'.leaks := by
  obtain ⟨stillFunction, hasNow⟩ := isFunctionLike_withBody has body' isFunction
  have notItself : ¬ (node.withBody body').suspendsItself := by
    rw [Node.suspendsItself_iff stillFunction hasNow, calm]
    exact Bool.false_ne_true
  have children : (node.withBody body').children = node.parameters ++ [body'] := by
    obtain ⟨span, kind⟩ := node
    cases kind
    case functionDeclaration | getAccessorDeclaration | setAccessorDeclaration => rfl
    all_goals cases isFunction
  simp [Node.leaks_iff (node.withBody body'), notItself, children, or_and_right, exists_or]

/-- If nothing is reported as too deep, the functions that suspend after a run are those that the
input hides. -/
theorem leaksBelow_lowerNode (limit : UInt32) (helpers : Helpers) (node : Node) (s : State Unit)
    {first : Nat} (le : first ≤ s.log.size) (loopsLowered : Bool) :
    let out := (lowerNode limit (.standard helpers) node).run s
    reportsDepth first out.2.log ∨
      ((out.1.getD node).leaksBelow loopsLowered ↔ node.hides loopsLowered) := by
  induction node using Node.inductionOn generalizing s loopsLowered with
  | step node ih =>
    have rebuilt : ∀ (start : State Unit) (flag : Bool), first ≤ start.log.size →
        ∃ results : Kind (Node × Option Node), results.map Prod.fst = node.kind ∧
        ((node.rebuild (parts limit (.standard helpers) node)).run start).1 = node.assemble results ∧
        (reportsDepth first
            ((node.rebuild (parts limit (.standard helpers) node)).run start).2.log ∨
          ∀ result ∈ results.children,
            declaredVariable? (result.2.getD result.1) = declaredVariable? result.1 ∧
            ((result.2.getD result.1).leaksBelow flag ↔ result.1.hides flag)) := by
      intro start flag le
      obtain ⟨results, same, answer, -, related⟩ := Node.rebuild_rule
        (f := lowerNode limit (.standard helpers))
        (I := fun later : State Unit => first ≤ later.log.size)
        (R := fun child result later => reportsDepth first later.log ∨
          (declaredVariable? (result.getD child) = declaredVariable? child ∧
            ((result.getD child).leaksBelow flag ↔ child.hides flag))) node
        (fun child mem later le => by
          obtain ⟨-, grown⟩ := depth_log_lowerNode limit helpers child later
          refine ⟨Nat.le_trans le (size_le_of_grown grown), ?_⟩
          have declared := declaredVariable?_lowerNode limit (.standard helpers) child later
          exact (ih child mem later le flag).imp_right fun same => ⟨declared, same⟩)
        (fun child result other mem later le => by
          obtain ⟨-, grown⟩ := depth_log_lowerNode limit helpers other later
          exact Or.imp_left (reportsDepth_mono grown)) start le
      refine ⟨results, same, answer, ?_⟩
      by_cases reports : reportsDepth first
          ((node.rebuild (parts limit (.standard helpers) node)).run start).2.log
      · exact .inl reports
      · exact .inr fun result mem => (related result mem).resolve_left reports
    have refused : node.isFunctionScope = true → limit.toNat ≤ s.depth →
        reportsDepth first ((lowerNode limit (.standard helpers) node).run s).2.log := by
      intro scope deep
      rw [run_lowerNode_refused limit _ scope deep]
      split
      · exact reportsDepth_refuse (s := s.visit) le limit node
      · exact reportsDepth_refuse le limit node
    intro out
    have kept : (out.1.getD node).isFunctionScope = node.isFunctionScope :=
      isFunctionScope_lowerNode limit _ node s
    cases node using Node.cases_scope with
    | function node body isFunction has mem =>
      have scope := Node.isFunctionScope_of_like isFunction
      by_cases deep : limit.toNat ≤ s.depth
      · exact .inl (refused scope deep)
      · let inner := (lowerNode limit (.standard helpers) body).run s.visit.deeper
        let lowered := (lowerBody (.standard helpers) body
          (lowerNode limit (.standard helpers) body)).run s.visit.deeper
        have outEq : out = (lowered.1.map node.withBody, lowered.2.shallower) :=
          run_lowerNode_function limit _ isFunction has (by omega)
        by_cases reports : reportsDepth first out.2.log
        · exact .inl reports
        · apply Or.inr
          have grown : inner.2.log.toList <+: out.2.log.toList := by
            rw [outEq]
            exact prefix_lowerBody helpers body _ _
          have nested : ∀ flag, (inner.1.getD body).leaksBelow flag ↔ body.hides flag := fun flag =>
            (ih body mem s.visit.deeper le flag).resolve_left fun early =>
              reports (reportsDepth_mono grown early)
          rw [Node.leaksBelow_scope (kept.trans scope), Node.hides_function isFunction has, outEq,
            map_withBody_getD has,
            leaks_withBody isFunction has (suspends_lowerBody helpers body _ _)]
          exact or_congr Iff.rfl (leaks_lowerBody (facts_lowerNode limit _ body _) nested)
    | expression node isExpression =>
      have scope := Node.isFunctionScope_of_expression isExpression
      by_cases deep : limit.toNat ≤ s.depth
      · exact .inl (refused scope deep)
      · obtain ⟨results, same, answer, related⟩ := rebuilt s.deeper false le
        have outEq : out = _ := run_lowerNode_expression limit _ isExpression (by omega)
        refine Or.imp (fun reports => by rw [outEq]; exact reports) (fun related => ?_) related
        have notItself : ¬ (out.1.getD node).suspendsItself := by
          apply Node.not_suspendsItself
          rw [Node.isFunctionLike, form_lowerNode, isExpression]
          rfl
        rw [Node.leaksBelow_scope (kept.trans scope), Node.hides_expression isExpression,
          Node.leaks_iff, Node.children_eq_of_map_fst same]
        simp only [notItself, false_or]
        rw [outEq, answer, Node.assemble_getD same]
        simp only [Node.children, Node.kind, Kind.children_map, List.mem_map, exists_exists_and_eq_and]
        refine exists_congr fun result => and_congr_right fun mem => ?_
        rw [← Node.leaksBelow_false_iff]
        exact (related result mem).2
    | plain node plain =>
      obtain ⟨results, same, answer, related⟩ := rebuilt s loopsLowered le
      have outEq : out = (node.rebuild (parts limit (.standard helpers) node)).run s :=
        congrArg (StateT.run · s) (lowerNode_plain limit _ plain)
      refine Or.imp (fun reports => by rw [outEq]; exact reports) (fun related => ?_) related
      have drops : ∀ result ∈ results.children,
          Node.dropsInitializer loopsLowered (result.2.getD result.1) =
            Node.dropsInitializer loopsLowered result.1 := by
        intro result mem
        rw [Node.dropsInitializer, Node.dropsInitializer, (related result mem).1]
      rw [Node.leaksBelow_plain (kept.trans plain), Node.hides_plain plain]
      rw [outEq, answer, Node.assemble_getD same, Node.keptChildren, Node.keptChildren, ← same]
      simp only [Node.kind, Kind.kept_map, List.mem_map, exists_exists_and_eq_and]
      rw [Kind.kept_congr drops]
      exact exists_congr fun result => and_congr_right fun mem =>
        (related result (Kind.kept_subset _ _ mem)).2

/-- If a run reports no function as too deep, then no function declaration or accessor in the tree
it leaves behind suspends by itself, except where the input hides such a function in parameters. -/
theorem no_survivor_iff (options : Options) (names : NameSupply) (log : Log) (tree : Node)
    (shallow : ¬ reportsDepth log.size (runStandard options names log tree).log) :
    (∀ f ∈ ((runStandard options names log tree).tree.getD tree).subtree, ¬ f.suspendsItself) ↔
      ¬ tree.hides false := by
  have lowered := leaksBelow_lowerNode options.maxFunctionDepth options.helpers tree
    ⟨(), names.reserveAll tree.names.toList, log, 0, .zero⟩ (Nat.le_refl log.size) false
  have leaks := (Node.leaksBelow_false_iff _).symm.trans (lowered.resolve_left shallow)
  rw [← leaks]
  constructor
  · rintro none ⟨inner, mem, suspends⟩
    exact none inner mem suspends
  · intro none inner mem suspends
    exact none ⟨inner, mem, suspends⟩

/-- The getter `get x() { yield 1; }`. -/
def yieldingGetter : Node :=
  Node.synthetic (.getAccessorDeclaration "x" false
    (Build.block [Build.suspensionStatement (some (Build.number 1)) false]))

theorem suspendsItself_yieldingGetter : yieldingGetter.suspendsItself := by
  apply (Node.suspendsItself_iff rfl rfl).2
  decide

/-- A class with the getter as its member: the run lowers it. -/
theorem no_survivor_in_class :
    let tree := Node.synthetic (.classDeclaration "C" [yieldingGetter])
    let outcome := runStandard .standard Options.standard.nameSupply #[] tree
    ¬ reportsDepth 0 outcome.log ∧ ∀ f ∈ (outcome.tree.getD tree).subtree, ¬ f.suspendsItself := by
  intro tree outcome
  have shallow : ¬ reportsDepth 0 outcome.log := by
    rintro ⟨diagnostic, mem, -⟩
    cases mem
  have bare : ∀ f ∈ tree.subtree, f.parameters.length = 0 := by decide
  have hidesNone : ¬ tree.hides false := by
    refine Node.not_hides_of_parameters (fun f mem parameter isParameter => ?_) false
    rw [List.eq_nil_of_length_eq_zero (bare f mem)] at isParameter
    cases isParameter
  exact ⟨shallow, (no_survivor_iff .standard Options.standard.nameSupply #[] tree shallow).2 hidesNone⟩

/-- The function `function f(a = { get x() { yield 1; } }) {}`. -/
def getterInDefault : Node :=
  Node.synthetic (.functionDeclaration (some "f") false
    [Build.variableDeclaration "a" (some (Node.synthetic (.objectLiteral [yieldingGetter])))]
    (Build.block []))

/-- The run does not look at the default value of a parameter: the getter in it still suspends, and
nothing is reported. -/
theorem survivor_in_default :
    let outcome := runStandard .standard Options.standard.nameSupply #[] getterInDefault
    outcome.log = #[] ∧ ∃ f ∈ (outcome.tree.getD getterInDefault).subtree, f.suspendsItself := by
  refine ⟨rfl, yieldingGetter, ?_, suspendsItself_yieldingGetter⟩
  have kept : (runStandard .standard Options.standard.nameSupply #[] getterInDefault).tree = none :=
    rfl
  have inside : (runStandard .standard Options.standard.nameSupply #[] getterInDefault).tree.getD
      getterInDefault = getterInDefault := by rw [kept]; rfl
  rw [inside]
  exact .tail _ (.tail _ (.tail _ (.head _)))

end Lowering

end Resumable
