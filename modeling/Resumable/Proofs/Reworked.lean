import Resumable.Proofs.Allotments

/-!
# Where names stand after later edits

Once the for-in loops of a scope are lowered, its iterating suspensions are replaced and its awaits may
become yields.  `Reworked` is what both edits do to a tree (`reworked_desugar`,
`reworked_awaitStep`).  A reworked scope has a home for the names that it had one for before
(`Reworked.contained`), and contains the names that were taken for the statements that were replaced
(`Reworked.contains`).
-/

namespace Resumable

open Build

/-- Some iterating suspensions of a scope became loops that take steps of an iterator, with names
that were allotted to them, and some awaits became yields. -/
inductive Reworked (getIterator : String) : Node → List Allotment → Node → Prop
  | kept (node : Node) : Reworked getIterator node [] node
  | loop (span : Span) (operand : Node) (element iterator step : String) :
      Reworked getIterator ⟨span, .suspensionStatement true (some operand)⟩
        [⟨span, [element, iterator, step], none⟩]
        (ForEach.loop getIterator iterator step span (variableStatement element none) operand
          (block [suspensionStatement (some (identifier element)) false]))
  | await (span : Span) (binding : Option String) {operand result : Node} {given : List Allotment}
      (below : Reworked getIterator operand given result) :
      Reworked getIterator ⟨span, .asyncSuspensionStatement binding operand⟩ given
        ⟨span, .expressionStatement (Delegation.resume binding result)⟩
  | rebuilt {node : Node} (parts : Kind (Node × List Allotment × Node))
      (plain : node.isFunctionScope = false) (same : parts.map Prod.fst = node.kind)
      (each : ∀ part ∈ parts.children, Reworked getIterator part.1 part.2.1 part.2.2) :
      Reworked getIterator node (parts.children.flatMap fun part => part.2.1)
        ⟨node.span, parts.map fun part => part.2.2⟩

namespace Reworked

variable {getIterator : String} {node result : Node} {given : List Allotment}

/-! ## What stays -/

theorem variableName?_eq (reworked : Reworked getIterator node given result) :
    variableName? result = variableName? node := by
  cases reworked with
  | kept | loop | await => rfl
  | rebuilt parts plain same each =>
    rw [variableName?_kind_map _ Prod.fst _ node.span, Node.mk_of_map_fst same]

theorem declaredVariable?_eq (reworked : Reworked getIterator node given result) :
    declaredVariable? result = declaredVariable? node := by
  cases reworked with
  | kept | loop | await => rfl
  | rebuilt parts plain same each =>
    rw [declaredVariable?_kind_map node.span node.span parts
      (g := Prod.fst) fun part mem => (each part mem).variableName?_eq, Node.mk_of_map_fst same]

/-- A scope that does not suspend stays as it is. -/
theorem eq_of_calm (reworked : Reworked getIterator node given result)
    (calm : ∀ inner ∈ node.ownScope, inner.isSuspension = false) : result = node := by
  induction reworked with
  | kept node => rfl
  | loop span operand element iterator step => cases calm _ (.head _)
  | await span binding below ih => cases calm _ (.head _)
  | @rebuilt node parts plain same each ih =>
    have kept : parts.map (fun part => part.2.2) = parts.map Prod.fst := by
      refine Kind.map_congr _ fun part mem => ih part mem fun inner inside => calm inner ?_
      refine Node.ownScope_child_subset plain ?_ inside
      rw [Lowering.Course.children_eq same]
      exact List.mem_map_of_mem mem
    rw [kept, Node.mk_of_map_fst same]

theorem tally_awaited {w : Weight} {name : String} (about : w.IsAbout name) (span : Span)
    (binding : Option String) (operand : Node) :
    Node.tally w ⟨span, .expressionStatement (Delegation.resume binding operand)⟩ =
      (binding.map (w .asyncSuspensionStatement)).getD 0 + operand.tally w := by
  have counted := Delegation.census_resume (c := .throughout w (Node.tally w)) about.awaits span
    binding operand false
  simp only [Node.census_throughout] at counted
  exact counted

/-- Apart from the names that were given and the helper that gives an iterator, names count as
before. -/
theorem tally_eq (reworked : Reworked getIterator node given result) {w : Weight} {name : String}
    (about : w.IsAbout name) (notGiven : name ∉ given.flatMap Allotment.names)
    (notHelper : name ≠ getIterator) : result.tally w = node.tally w := by
  induction reworked with
  | kept node => rfl
  | loop span operand element iterator step =>
    have ignores : ∀ other ∈ [element, iterator, step],
        (Census.throughout w (Node.tally w)).Ignores other := by
      intro other mem
      refine Census.ignores_of_isAbout about (fun same => notGiven ?_) _
      simpa [same] using mem
    have counted := ForEach.census_loop ignores
      (about.other .identifier getIterator fun same => notHelper same.symm) (fun _ _ => rfl) span operand
      false
    simp only [Node.census_throughout] at counted
    rw [counted, Node.tally_mk]
    simp [Kind.ownName?, Kind.children]
  | await span binding below ih =>
    rw [tally_awaited about, Node.tally_mk, ih notGiven]
    simp [Kind.ownName?, Kind.children, Kind.form]
  | @rebuilt node parts plain same each ih =>
    rw [List.flatMap_assoc] at notGiven
    have each (part : Node × List Allotment × Node) (mem : part ∈ parts.children) :
        part.2.2.tally w = part.1.tally w :=
      ih part mem fun isGiven => notGiven (List.mem_flatMap.2 ⟨part, mem, isGiven⟩)
    rw [← Node.mk_of_map_fst same, Node.tally_map, Node.tally_map, Node.ownTally_map _ Prod.fst,
      List.map_congr_left each]
    rfl

/-! ## Homes -/

theorem skipDeleted_calm (names : ForIn.Names) :
    ∀ inner ∈ names.skipDeleted.ownScope, inner.isSuspension = false := by
  have all : names.skipDeleted.ownScope.all (fun inner => !inner.isSuspension) = true := rfl
  simpa using all

theorem children_rebuilt {parts : Kind (Node × List Allotment × Node)} (span : Span) :
    Node.children ⟨span, parts.map fun part => part.2.2⟩ =
      parts.children.map fun part => part.2.2 := by
  rw [Node.children, Node.kind, Kind.children_map]

theorem ownScope_operand_subset (span : Span) (operand : Node) (element iterator step : String) :
    operand.ownScope ⊆ (ForEach.loop getIterator iterator step span (variableStatement element none)
      operand (block [suspensionStatement (some (identifier element)) false])).ownScope := by
  let initial := call (identifier getIterator) [operand]
  let declaration := variableDeclaration iterator (some initial)
  have inCall : operand.ownScope ⊆ initial.ownScope :=
    Node.ownScope_child_subset rfl (.tail _ (.head _))
  have inDeclaration : initial.ownScope ⊆ declaration.ownScope :=
    Node.ownScope_child_subset rfl (.head _)
  have inStatement : declaration.ownScope ⊆ (variableStatement iterator (some initial)).ownScope :=
    Node.ownScope_child_subset rfl (.head _)
  exact List.Subset.trans inCall (List.Subset.trans inDeclaration (List.Subset.trans inStatement
    (Node.ownScope_child_subset rfl (.head _))))

theorem ownScope_awaited_subset (span : Span) (binding : Option String) (operand : Node) :
    operand.ownScope ⊆
      Node.ownScope ⟨span, .expressionStatement (Delegation.resume binding operand)⟩ := by
  have inYield : operand.ownScope ⊆ (yieldExpression (some operand)).ownScope :=
    Node.ownScope_child_subset rfl (.head _)
  have inResume : (yieldExpression (some operand)).ownScope ⊆
      (Delegation.resume binding operand).ownScope := by
    cases binding with
    | none => exact List.Subset.refl _
    | some name => exact Node.ownScope_child_subset rfl (.tail _ (.head _))
  exact List.Subset.trans inYield (List.Subset.trans inResume
    (Node.ownScope_child_subset rfl (.head _)))

/-- A home stands in a child, unless it is the node itself. -/
theorem mem_child_of_home {a : Allotment} {block : Node} (home : a.IsHome block)
    (mem : block ∈ node.ownScope) (other : node.form ≠ .block) :
    ∃ child ∈ node.children, block ∈ child.ownScope := by
  obtain ⟨-, rfl | below⟩ := Node.mem_ownScope_iff.1 mem
  · exact absurd home.isBlock other
  · exact below

theorem form_rebuilt {parts : Kind (Node × List Allotment × Node)}
    (same : parts.map Prod.fst = node.kind) :
    Node.form ⟨node.span, parts.map fun part => part.2.2⟩ = node.form := by
  rw [← Node.mk_of_map_fst same]
  simp [Node.form, Node.kind]

/-- A home whose statements are reworked remains one. -/
theorem isHome_rebuilt {parts : Kind (Node × List Allotment × Node)}
    (same : parts.map Prod.fst = node.kind)
    (each : ∀ part ∈ parts.children, Reworked getIterator part.1 part.2.1 part.2.2) {a : Allotment}
    (home : a.IsHome node) : a.IsHome ⟨node.span, parts.map fun part => part.2.2⟩ := by
  refine ⟨(form_rebuilt same).trans home.isBlock, home.replaces, fun outer isOuter => ?_, ?_⟩
  · have isChild := home.walks outer isOuter
    rw [Lowering.Course.children_eq same] at isChild
    obtain ⟨part, isPart, before⟩ := List.mem_map.1 isChild
    have calm : ∀ inner ∈ part.1.ownScope, inner.isSuspension = false :=
      before ▸ skipDeleted_calm outer.2
    have after : part.2.2 = outer.2.skipDeleted := ((each part isPart).eq_of_calm calm).trans before
    rw [children_rebuilt, ← after]
    exact List.mem_map_of_mem isPart
  · obtain ⟨name, isName, statement, isChild, declares⟩ := home.declares
    rw [Lowering.Course.children_eq same] at isChild
    obtain ⟨part, isPart, rfl⟩ := List.mem_map.1 isChild
    refine ⟨name, isName, part.2.2, ?_, (each part isPart).declaredVariable?_eq.trans declares⟩
    rw [children_rebuilt]
    exact List.mem_map_of_mem isPart

/-- Where a home of names stood, there stands one, if the names are none that were given. -/
theorem home (reworked : Reworked getIterator node given result) {a : Allotment}
    (apart : ∀ name ∈ a.names, name ∉ given.flatMap Allotment.names ∧ name ≠ getIterator) :
    ∀ block ∈ node.ownScope, a.IsHome block → ∃ block' ∈ result.ownScope, a.IsHome block' ∧
      ∀ name ∈ a.names, block'.occurrences name = block.occurrences name := by
  induction reworked with
  | kept node => exact fun block mem home => ⟨block, mem, home, fun _ _ => rfl⟩
  | loop span operand element iterator step =>
    intro block mem home
    obtain ⟨_, _ | ⟨_, ⟨⟩⟩, inside⟩ := mem_child_of_home home mem nofun
    exact ⟨block, ownScope_operand_subset span operand element iterator step inside, home,
      fun _ _ => rfl⟩
  | await span binding below ih =>
    intro block mem home
    obtain ⟨_, _ | ⟨_, ⟨⟩⟩, inside⟩ := mem_child_of_home home mem nofun
    obtain ⟨block', inside', home', same⟩ := ih apart block inside home
    exact ⟨block', ownScope_awaited_subset span binding _ inside', home', same⟩
  | @rebuilt node parts plain same each ih =>
    intro block mem home
    let result : Node := ⟨node.span, parts.map fun part => part.2.2⟩
    have open_ : result.isFunctionScope = false := by
      rwa [Node.isFunctionScope, form_rebuilt same]
    obtain ⟨-, rfl | ⟨child, isChild, inside⟩⟩ := Node.mem_ownScope_iff.1 mem
    · have reworked : Reworked getIterator block _ result := .rebuilt parts plain same each
      exact ⟨result, Node.mem_ownScope_iff.2 ⟨open_, .inl rfl⟩, isHome_rebuilt same each home,
        fun name isName => reworked.tally_eq (Weight.isAbout_bearing name) (apart name isName).1
          (apart name isName).2⟩
    · rw [Lowering.Course.children_eq same] at isChild
      obtain ⟨part, isPart, rfl⟩ := List.mem_map.1 isChild
      rw [List.flatMap_assoc] at apart
      have apartHere (name : String) (isName : name ∈ a.names) :
          name ∉ part.2.1.flatMap Allotment.names ∧ name ≠ getIterator :=
        ⟨fun isGiven => (apart name isName).1 (List.mem_flatMap.2 ⟨part, isPart, isGiven⟩),
          (apart name isName).2⟩
      obtain ⟨block', inside', home', same'⟩ := ih part isPart apartHere block inside home
      refine ⟨block', Node.ownScope_child_subset open_ ?_ inside', home', same'⟩
      rw [children_rebuilt]
      exact List.mem_map_of_mem isPart

/-- Names that a scope contained before it was reworked it contains afterwards. -/
theorem contained (reworked : Reworked getIterator node given result) {a : Allotment}
    (apart : ∀ name ∈ a.names, name ∉ given.flatMap Allotment.names ∧ name ≠ getIterator)
    (contained : a.IsContained node.ownScope node) : a.IsContained result.ownScope result :=
  contained.move (fun name isName _ about => reworked.tally_eq about (apart name isName).1
    (apart name isName).2) (reworked.home apart)

/-! ## The names that are given -/

theorem isHome_loop (getIterator element iterator step : String) (span : Span) (operand : Node) :
    (⟨span, [element, iterator, step], none⟩ : Allotment).IsHome
      (ForEach.loop getIterator iterator step span (variableStatement element none) operand
        (block [suspensionStatement (some (identifier element)) false])) :=
  ⟨rfl, fun _ => rfl, nofun, iterator, .tail _ (.head _), _, .head _, rfl⟩

theorem declarations_loop (getIterator element iterator step name : String) (span : Span)
    (operand : Node) :
    (ForEach.loop getIterator iterator step span (variableStatement element none) operand
        (block [suspensionStatement (some (identifier element)) false])).declarations name =
      [element, iterator, step].count name + operand.declarations name := by
  simp [ForEach.loop, ForEach.next, methodCall, call, property, identifier, variableStatement,
    variableDeclaration, forStatement, Build.not, unary, assignment, binary, block, bindVariable,
    declaredVariable?, Node.statements, suspensionStatement, Node.synthetic, Node.declarations,
    Node.tally_mk, Kind.form, Kind.children, Node.kind, Kind.ownName?, Weight.declaring,
    List.count_cons]
  omega

/-- A scope contains the names that were taken for the statements that were replaced, if they are new
to it. -/
theorem contains (reworked : Reworked getIterator node given result)
    (nodup : (given.flatMap Allotment.names).Nodup)
    (new : ∀ name ∈ given.flatMap Allotment.names, ¬ node.uses name ∧ name ≠ getIterator) :
    ∀ a ∈ given, a.IsContained result.ownScope result := by
  induction reworked with
  | kept node => nofun
  | loop span operand element iterator step =>
    rintro a (_ | ⟨_, ⟨⟩⟩)
    refine (isHome_loop ..).isContained fun name isName => ?_
    have notUsed : ¬ operand.uses name := fun used => by
      refine (new name (List.mem_flatMap.2 ⟨_, .head _, isName⟩)).1 ((Node.uses_iff _ _).2 (.inr ?_))
      exact ⟨operand, .head _, used⟩
    rw [declarations_loop, Node.declarations,
      Node.tally_of_not_uses (Weight.isAbout_declaring name) notUsed, Nat.add_zero]
    refine List.nodup_iff_count_le_one.1 ?_ name
    simpa using nodup
  | @await span binding operand result given below ih =>
    intro a mem
    have newBelow (name : String) (isName : name ∈ given.flatMap Allotment.names) :
        binding ≠ some name ∧ ¬ operand.uses name ∧ name ≠ getIterator := by
      obtain ⟨notUsed, notHelper⟩ := new name isName
      rw [Node.uses_iff] at notUsed
      simp only [Node.children, Node.kind, Kind.children, Kind.ownName?, not_or, List.mem_singleton,
        exists_eq_left] at notUsed
      exact ⟨notUsed.1, notUsed.2, notHelper⟩
    refine (ih nodup (fun name isName => (newBelow name isName).2) a mem).around
      (fun name isName w about => ?_) (ownScope_awaited_subset span binding result)
    rw [tally_awaited about]
    cases binding with
    | none => exact Nat.zero_add _
    | some bound =>
      have other := (newBelow name (List.mem_flatMap.2 ⟨a, mem, isName⟩)).1
      have none : w .asyncSuspensionStatement bound = 0 :=
        about.other _ _ fun same => other (congrArg some same)
      rw [Option.map_some, Option.getD_some, none, Nat.zero_add]
  | @rebuilt node parts plain same each ih =>
    refine Allotment.isContained_rebuilt Node.ownScope same nodup new
      (fun part mem name notHelper notGiven w about =>
        Nat.le_of_eq ((each part mem).tally_eq about notGiven notHelper))
      (fun part mem => Node.ownScope_child_subset ?_ ?_) ih
    · rwa [Node.isFunctionScope, form_rebuilt same]
    · rw [children_rebuilt]
      exact List.mem_map_of_mem mem

end Reworked

/-! ## The edits -/

/-- Replacing the iterating suspensions of a scope takes names for each of them. -/
theorem Iteration.reworked_desugar (helpers : Helpers) (body : Node) (s : Unit × NameSupply) :
    let out := (desugar (.standard helpers) body).run s
    ∃ given, s.2.Allots given out.2.2 ∧
      given.map Allotment.key = body.iterations.map (fun statement => (statement.span, none)) ∧
      Reworked helpers.getIterator body given (out.1.getD body) := by
  unfold desugar
  induction body using Node.inductionOn generalizing s with
  | step node ih =>
    rw [Node.editOwnScope_eq]
    cases scope : node.isFunctionScope with
    | true =>
      rw [Node.iterations_scope scope]
      exact ⟨[], NameSupply.isTrace_allots.nil s.2, rfl, .kept node⟩
    | false =>
      simp only [Bool.false_eq_true, if_false]
      by_cases iterates : ∃ operand, node.kind = .suspensionStatement true (some operand)
      · obtain ⟨operand, hk⟩ := iterates
        obtain ⟨span, kind⟩ := node
        obtain rfl : kind = .suspensionStatement true (some operand) := hk
        rw [Node.iterations_suspension rfl, show Node.kind ⟨span, .suspensionStatement true
          (some operand)⟩ = .suspensionStatement true (some operand) from rfl, run_step_suspension]
        exact ⟨[⟨span, NameSupply.nextNames 3 s.2, none⟩], NameSupply.gives_next 3 s.2, rfl,
          .loop span operand _ _ _⟩
      · have other := fun operand hk => iterates ⟨operand, hk⟩
        obtain ⟨-, parts, same, answer, allots, each⟩ := Node.rebuild_traced
          (W := fun (s : Unit × NameSupply) given (later : Unit × NameSupply) => s.2.Allots given later.2)
          ⟨fun s => NameSupply.isTrace_allots.nil s.2, NameSupply.isTrace_allots.append⟩
          (I := fun _ => True)
          (R := fun child given result =>
            given.map Allotment.key = child.iterations.map (fun statement => (statement.span, none)) ∧
              Reworked helpers.getIterator child given result) node
          (fun child mem s _ => ⟨trivial, ih child mem s⟩) s trivial
        rw [step_eq_rebuild _ _ other]
        refine ⟨_, allots, ?_, answer ▸ .rebuilt parts scope same fun part mem => (each part mem).2⟩
        rw [Node.iterations_other scope other, Lowering.Course.children_eq same, List.flatMap_map,
          List.map_flatMap, List.map_flatMap]
        exact List.flatMap_congr fun part mem => (each part mem).1

/-- Writing awaits as yields takes no names. -/
theorem Delegation.reworked_awaitStep (getIterator : String) (body : Node) (log : Log) :
    Reworked getIterator body [] (((body.editOwnScope awaitStep).run log).1.getD body) := by
  induction body using Node.inductionOn generalizing log with
  | step node ih =>
    rw [Node.editOwnScope_eq]
    cases scope : node.isFunctionScope with
    | true => exact .kept node
    | false =>
      have rebuilt (log : Log) : Reworked getIterator node [] (((node.rebuild (node.kind.map
          fun child => (child, child.editOwnScope awaitStep))).run log).1.getD node) := by
        obtain ⟨results, same, answer, related⟩ := Node.rebuild_each
          (R := fun child result => Reworked getIterator child [] (result.getD child)) node
          (fun child mem log => ih child mem log) log
        let parts : Kind (Node × List Allotment × Node) :=
          results.map fun result => (result.1, [], result.2.getD result.1)
        have before : parts.map Prod.fst = node.kind := by rw [← same, Kind.map_map]; rfl
        have reworked : Reworked getIterator node (parts.children.flatMap fun part => part.2.1)
            ⟨node.span, parts.map fun part => part.2.2⟩ := by
          refine .rebuilt parts scope before fun part mem => ?_
          rw [Kind.children_map] at mem
          obtain ⟨result, isResult, rfl⟩ := List.mem_map.1 mem
          exact related result isResult
        have noNames : (parts.children.flatMap fun part => part.2.1) = [] := by
          rw [Kind.children_map, List.flatMap_map]
          exact List.flatMap_eq_nil_iff.2 fun _ _ => rfl
        rw [noNames, Kind.map_map] at reworked
        rw [answer, Node.assemble_getD same]
        exact reworked
      obtain ⟨span, kind⟩ := node
      cases kind
      case asyncSuspensionStatement binding operand =>
        exact .await span binding (ih operand (.head _) log)
      case suspensionStatement => exact .kept _
      case yieldExpression expression => exact rebuilt _
      all_goals exact rebuilt log

end Resumable
