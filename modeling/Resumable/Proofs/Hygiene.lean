import Resumable.Proofs.Lodgings

/-!
# Hygiene of made-up names

The names that a run makes up are different names that were neither taken nor used before, and nothing
but them and the helpers comes into the tree.  Each of them is declared at most once and stands only
inside the statements that took the place of the one for which it was taken
(`runStandard_hygienic`).  These are a block of their own, except for a for-in loop that is the
body of another one: its block is dissolved in the block of the walk over the keys of that one
(`dissolved`).
-/

namespace Resumable

open Build

namespace Lowering

/-! ## A whole run -/

namespace Course

variable {helpers : Helpers} {limit depth : Nat} {node result : Node} {trace : List Allotment}

theorem tally_le (course : Course (fun _ => Lodges helpers) limit depth node trace result)
    {w : Weight} {name : String} (about : w.IsAbout name)
    (notGiven : name ∉ trace.flatMap Allotment.names) (notHelper : name ∉ helpers.names) :
    result.tally w ≤ node.tally w := by
  induction course with
  | refused => exact Nat.le_refl _
  | @function depth node body inner result trace own isFunction has room nested lodges ih =>
    rw [List.flatMap_append, List.mem_append, not_or] at notGiven
    have first := ih notGiven.1
    have second := lodges.tally_le w name about notGiven.2 notHelper
    have moved := Node.tally_withBody w has result
    omega
  | expression parts isExpression room same each ih => exact Node.tally_le_rebuilt same notGiven ih
  | plain parts plain same each ih => exact Node.tally_le_rebuilt same notGiven ih

theorem contains (course : Course (fun _ => Lodges helpers) limit depth node trace result)
    (nodup : (trace.flatMap Allotment.names).Nodup)
    (new : ∀ name ∈ trace.flatMap Allotment.names, ¬ node.uses name ∧ name ∉ helpers.names) :
    ∀ a ∈ trace, a.IsContained result.inFunctions result := by
  have rebuilt {parts : Kind (Node × List Allotment × Node)} {span : Span} :
      ∀ part ∈ parts.children, part.2.2.inFunctions ⊆
        Node.inFunctions ⟨span, parts.map fun part => part.2.2⟩ := by
    refine fun part mem => Node.inFunctions_child_subset ?_
    rw [Node.children, Node.kind, Kind.children_map]
    exact List.mem_map_of_mem mem
  induction course with
  | refused => exact List.forall_mem_nil _
  | @function depth node body inner result trace own isFunction has room nested lodges ih =>
    rw [List.flatMap_append] at nodup new
    obtain ⟨distinct, -, apart⟩ := List.nodup_append'.1 nodup
    have newToBody {name : String} (mem : name ∈ trace.flatMap Allotment.names ++
        own.flatMap Allotment.names) : ¬ body.uses name :=
      fun used => (new name mem).1 (Node.uses_of_child (Node.mem_children_of_body has) used)
    have newToInner {name : String} (mem : name ∈ own.flatMap Allotment.names) : ¬ inner.uses name :=
      Node.not_uses_of_occurrences_le (nested.tally_le (Weight.isAbout_bearing name)
        (fun before => apart before mem) (new name (List.mem_append_right _ mem)).2)
        (newToBody (List.mem_append_right _ mem))
    have around {a : Allotment} (mem : a ∈ trace ++ own)
        (contained : a.IsContained result.inFunctions result) :
        a.IsContained (node.withBody result).inFunctions (node.withBody result) := by
      refine contained.around (fun name isName w about => ?_) (Node.inFunctions_child_subset
        (Node.mem_children_of_body (Node.body?_withBody has result)))
      have given := List.mem_flatMap.2 ⟨a, mem, isName⟩
      rw [List.flatMap_append] at given
      exact Node.tally_withBody_of_not_uses about has (new name given).1 result
    intro a mem
    refine around mem ?_
    rcases List.mem_append.1 mem with before | isOwn
    · refine lodges.keeps a (fun name isName => ?_) (ih distinct
        (fun name mem => ⟨newToBody (List.mem_append_left _ mem),
          (new name (List.mem_append_left _ mem)).2⟩) a before)
      have given : name ∈ trace.flatMap Allotment.names := List.mem_flatMap.2 ⟨a, before, isName⟩
      exact ⟨apart given, (new name (List.mem_append_left _ given)).2⟩
    · exact lodges.contains (fun name isName =>
        ⟨newToInner isName, (new name (List.mem_append_right _ isName)).2⟩) a isOwn
  | expression parts isExpression room same each ih =>
    exact Allotment.isContained_rebuilt Node.inFunctions same nodup new
      (fun part mem name notHelper notGiven w about => (each part mem).tally_le about notGiven notHelper)
      rebuilt ih
  | plain parts plain same each ih =>
    exact Allotment.isContained_rebuilt Node.inFunctions same nodup new
      (fun part mem name notHelper notGiven w about => (each part mem).tally_le about notGiven notHelper)
      rebuilt ih

end Course

/-- Names that a run makes up are hygienic. They are different names, new to the tree and not taken
before; nothing but them and the names of the helpers comes in; and if they are none of the helpers,
then each of them is declared at most once and stands only in the home of the statement for which it
was taken. -/
theorem runStandard_hygienic (options : Options) (names : NameSupply) (log : Log) (tree : Node) :
    let outcome := runStandard options names log tree
    let out := outcome.tree.getD tree
    ∃ allotments : List Allotment,
      let given := allotments.flatMap Allotment.names
      (names.reserveAll tree.names.toList).Gives given outcome.names ∧
      Course (fun function inner own _ => Allotted function inner own)
        options.maxFunctionDepth.toNat 0 tree allotments out ∧
      given.Nodup ∧ (∀ name ∈ given, names.isTaken name = false ∧ ¬ tree.uses name) ∧
      (∀ name, out.uses name → tree.uses name ∨ name ∈ options.helpers.names ∨ name ∈ given) ∧
      ((∀ name ∈ given, name ∉ options.helpers.names) →
        ∀ a ∈ allotments, a.IsContained out.subtree out) := by
  intro outcome out
  let start : State Unit := ⟨(), names.reserveAll tree.names.toList, log, 0, .zero⟩
  obtain ⟨-, allotments, allots, course⟩ := course_lowerNode options.maxFunctionDepth
    (.standard options.helpers)
    (W := fun (s : State Unit) given (later : State Unit) => s.names.Allots given later.names)
    ⟨fun s => NameSupply.isTrace_allots.nil s.names, NameSupply.isTrace_allots.append⟩
    (fun s later _ same => by rw [same]; exact NameSupply.isTrace_allots.nil s.names)
    (Q := fun function inner own result =>
      Allotted function inner own ∧ Lodges options.helpers inner own result)
    (fun function body nested s _ has lowered =>
      lodges_carryOut options.maxFunctionDepth options.helpers has lowered) tree start
  have lodged : Course (fun _ => Lodges options.helpers) options.maxFunctionDepth.toNat 0 tree
      allotments out := course.imp fun _ _ _ _ _ _ both => both.2
  have new (name : String) (mem : name ∈ allotments.flatMap Allotment.names) :
      names.isTaken name = false ∧ ¬ tree.uses name := by
    have free := NameSupply.Gives.not_isTaken allots mem
    rw [Bool.eq_false_iff, Ne, Node.isTaken_reserveAll_names_iff, not_or] at free
    exact ⟨Bool.eq_false_iff.2 free.2, free.1⟩
  refine ⟨allotments, allots, course.imp fun _ _ _ _ _ _ both => both.1,
    NameSupply.Gives.nodup allots, new, fun name uses => ?_, fun apart a mem => ?_⟩
  · by_contra other
    simp only [not_or] at other
    obtain ⟨unused, notHelper, notGiven⟩ := other
    exact Node.not_uses_of_occurrences_le
      (lodged.tally_le (Weight.isAbout_bearing name) notGiven notHelper) unused uses
  · refine (lodged.contains (NameSupply.Gives.nodup allots)
      (fun name isName => ⟨(new name isName).2, apart name isName⟩) a mem).around
      (fun _ _ _ _ => rfl) (Node.inFunctions_subset_subtree out)

end Lowering

/-! ## Loops that are bodies of loops -/

/-- The spans of the blocks in a tree, in source order. -/
def Node.blocks (node : Node) : List Span :=
  (node.subtree.filter fun node => node.form == .block).map span

theorem Node.blocks_mk (span : Span) (kind : Kind Node) :
    blocks ⟨span, kind⟩ =
      (if kind.form = .block then [span] else []) ++ kind.children.flatMap blocks := by
  have below : ((kind.children.flatMap subtree).filter fun node => node.form == .block).map Node.span =
      kind.children.flatMap blocks := by
    rw [List.filter_flatMap, List.map_flatMap]
    rfl
  rw [blocks, subtree_eq, List.filter_cons]
  by_cases isBlock : Node.form ⟨span, kind⟩ = .block
  · rw [if_pos (beq_iff_eq.2 isBlock), if_pos (show kind.form = .block from isBlock), List.map_cons]
    exact congrArg (span :: ·) below
  · rw [if_neg fun same => isBlock (beq_iff_eq.1 same), if_neg (show ¬ kind.form = .block from isBlock)]
    exact below

theorem ForIn.blocks_loop (names : Names) (span : Span) {initializer : Node}
    (assigns : declaredVariable? initializer = none) (expression body : Node) :
    (loop names none span initializer expression body).blocks =
      span :: (expression.blocks ++ .synthetic :: (initializer.blocks ++
        body.statements.flatMap Node.blocks)) := by
  simp [loop, Names.walkKeys, Names.skipDeleted, Names.currentKey, Names.collectKeys, bindVariable,
    assigns, variableStatement, variableDeclaration, array, methodCall, call, property, identifier,
    element, forStatement, forInStatement, expressionStatement, assignmentStatement, assignment,
    number, binary, postfixIncrement, ifStatement, Build.not, unary, continueStatement, block,
    Node.synthetic, Node.blocks_mk, Kind.form, Kind.children]

namespace Lowering

/-- The loop `for (c in d) yield a;`. -/
def innerLoop : Node :=
  ⟨⟨30, 60⟩, .forInStatement (identifier "c") (identifier "d")
    (suspensionStatement (some (identifier "a")) false)⟩

/-- The body `{ for (a in b) for (c in d) yield a; }`. -/
def nestingBody : Node :=
  block [⟨⟨10, 60⟩, .forInStatement (identifier "a") (identifier "b") innerLoop⟩]

/-- The function `function f() { for (a in b) for (c in d) yield a; }`. -/
def nesting : Node := Node.synthetic (.functionDeclaration (some "f") false [] nestingBody)

/-- What becomes of the body, with the names of the two loops. -/
def nestingWalked (inner outer : ForIn.Names) : Node :=
  block [ForIn.loop outer none ⟨10, 60⟩ (identifier "a") (identifier "b")
    (ForIn.loop inner none ⟨30, 60⟩ (identifier "c") (identifier "d")
      (suspensionStatement (some (identifier "a")) false))]

/-- What becomes of the function. -/
def nestingLowered (inner outer : ForIn.Names) : Node :=
  nesting.withBody (Delegation.delegate "__generator" (nestingWalked inner outer))

theorem run_rebuild_block {σ : Type} (span : Span) (child : Node) (edit : StateM σ (Option Node))
    (s : σ) :
    (Node.rebuild ⟨span, .block [child]⟩ (.block [(child, edit)])).run s =
      ((edit.run s).1.map fun result => ⟨span, .block [result]⟩, (edit.run s).2) := by
  change (if ([(child, (edit.run s).1)].any fun result => result.2.isSome) = true then
      pure (some ⟨span, .block [(edit.run s).1.getD child]⟩) else pure none : StateM σ (Option Node)).run
    (edit.run s).2 = _
  cases (edit.run s).1 <;> rfl

theorem walked_nestingBody {plan : Plan} (lowers : plan.lowerForIn = true) (supply : NameSupply) :
    let inner := ForIn.Names.take.run supply
    let outer := ForIn.Names.take.run inner.2
    walked plan nestingBody supply = (nestingWalked inner.1 outer.1, outer.2) := by
  have identifier (name : String) (s : NameSupply) :
      (ForIn.lowerAt (identifier name) none).run s = (none, s) := rfl
  have yields (s : NameSupply) : (ForIn.lowerAt
      (suspensionStatement (some (Build.identifier "a")) false) none).run s = (none, s) := rfl
  have plain : ForIn.IsPlain nestingBody := ⟨rfl, nofun, nofun⟩
  have run := (congrArg (StateT.run · supply) (ForIn.lowerAt_plain plain none)).trans
    (run_rebuild_block _ _ _ supply)
  simp only [ForIn.run_lowerAt_forIn, innerLoop, identifier, yields, Option.getD_none,
    Option.getD_some, Option.map_some] at run
  rw [walked, if_pos lowers]
  change (((ForIn.lowerAt nestingBody none).run supply).1.getD _,
    ((ForIn.lowerAt nestingBody none).run supply).2) = _
  rw [run]
  rfl

theorem run_nesting {s : State Unit} (room : s.depth < Options.standard.maxFunctionDepth.toNat) :
    let inner := ForIn.Names.take.run s.names
    let outer := ForIn.Names.take.run inner.2
    let out := (lowerNode Options.standard.maxFunctionDepth (.standard Options.standard.helpers)
      nesting).run s
    out.1 = some (nestingLowered inner.1 outer.1) ∧ out.2.names = outer.2 := by
  intro inner outer out
  let plan : Plan := ⟨true, false, .generator⟩
  have facts : Plan.ofFacts (Facts.of nestingBody) = some plan := rfl
  have nested (s : State Unit) : (lowerNode Options.standard.maxFunctionDepth
      (.standard Options.standard.helpers) nestingBody).run s = (none, s) := rfl
  have run : out = _ := run_lowerNode_function Options.standard.maxFunctionDepth
    (.standard Options.standard.helpers) rfl (show nesting.body? = some nestingBody from rfl) room
  rw [lowerBody_eq, run_bind, nested, Option.getD_none, facts] at run
  obtain ⟨result, supplied⟩ :=
    carryOut_standard Options.standard.helpers plan nestingBody none s.visit.deeper
  have kept (tree : Node) (names : NameSupply) :
      desugared Options.standard.helpers plan tree names = (tree, names) := rfl
  rw [Option.getD_none, moved, kept, show s.visit.deeper.names = s.names from rfl,
    walked_nestingBody rfl] at result
  rw [Option.getD_none, kept, show s.visit.deeper.names = s.names from rfl,
    walked_nestingBody rfl] at supplied
  generalize (carryOut (.standard Options.standard.helpers) nestingBody none (some plan)).run
    s.visit.deeper = answer at *
  obtain ⟨tree, later⟩ := answer
  simp only at result supplied run
  rw [run, result, ← supplied]
  exact ⟨rfl, rfl⟩

theorem runStandard_nesting (names : NameSupply) (log : Log) :
    let inner := ForIn.Names.take.run (names.reserveAll nesting.names.toList)
    let outer := ForIn.Names.take.run inner.2
    let outcome := runStandard .standard names log nesting
    outcome.tree = some (nestingLowered inner.1 outer.1) ∧ outcome.names = outer.2 := by
  have ran (tree : Node) :
      let outcome := runStandard .standard names log tree
      let out := (lowerNode Options.standard.maxFunctionDepth (.standard Options.standard.helpers)
        tree).run ⟨(), names.reserveAll tree.names.toList, log, 0, .zero⟩
      outcome.tree = out.1 ∧ outcome.names = out.2.names := ⟨rfl, rfl⟩
  obtain ⟨tree, given⟩ := ran nesting
  have room : (⟨(), names.reserveAll nesting.names.toList, log, 0, .zero⟩ : State Unit).depth <
      Options.standard.maxFunctionDepth.toNat := by
    simp only
    decide
  obtain ⟨treeEq, givenEq⟩ := run_nesting room
  exact ⟨tree.trans treeEq, given.trans givenEq⟩

theorem blocks_nestingLowered (inner outer : ForIn.Names) :
    (nestingLowered inner outer).blocks =
      [.synthetic, .synthetic, ⟨10, 60⟩, .synthetic, .synthetic] := by
  have statements (names : ForIn.Names) (span : Span) (initializer expression body : Node) :
      (ForIn.loop names none span initializer expression body).statements.flatMap Node.blocks =
        (ForIn.loop names none span initializer expression body).blocks.tail := by
    rw [ForIn.loop, Node.blocks_mk]
    rfl
  have leaf (name : String) : (identifier name).blocks = [] := rfl
  have walked : (nestingWalked inner outer).blocks =
      [.synthetic, ⟨10, 60⟩, .synthetic, .synthetic] := by
    rw [nestingWalked, block, Node.synthetic, Node.blocks_mk]
    simp only [Kind.form, Kind.children, if_true, List.flatMap_singleton, statements, leaf,
      ForIn.blocks_loop _ _ (show declaredVariable? (identifier _) = none from rfl)]
    rfl
  have delegated : (Delegation.delegate "__generator" (nestingWalked inner outer)).blocks =
      (nestingWalked inner outer).span :: (nestingWalked inner outer).blocks := by
    simp [Delegation.delegate, returnStatement, call, identifier, this, functionExpression,
      Node.synthetic, Node.blocks_mk, Kind.form, Kind.children]
  have inFunction : (nestingLowered inner outer).blocks =
      (Delegation.delegate "__generator" (nestingWalked inner outer)).blocks :=
    (Node.blocks_mk _ _).trans (List.append_nil _)
  rw [inFunction, delegated, walked]
  rfl

theorem uses_keys (inner outer : ForIn.Names) : (nestingLowered inner outer).uses inner.keys := by
  -- The helper is called with the body, in which the keys are collected in the walk of the outer loop.
  refine Node.uses_of_child (.head _) (Node.uses_of_child (.head _) (Node.uses_of_child (.head _) ?_))
  refine Node.uses_of_child (.tail _ (.tail _ (.head _))) (Node.uses_of_child (.head _) ?_)
  refine Node.uses_of_child (.head _) (Node.uses_of_child (.tail _ (.tail _ (.tail _ (.head _)))) ?_)
  refine Node.uses_of_child (.tail _ (.tail _ (.tail _ (.head _)))) ?_
  refine Node.uses_of_child (.tail _ (.tail _ (.head _))) (Node.uses_of_child (.head _) ?_)
  exact (Node.uses_iff _ _).2 (.inl rfl)

/-- With the usual options, no name that is made up is one of a helper. -/
theorem not_helper_of_gives {reserved given : List String} {later : NameSupply}
    (gives : (Options.standard.nameSupply.reserveAll reserved).Gives given later) :
    ∀ name ∈ given, name ∉ Options.standard.helpers.names := by
  intro name mem isHelper
  obtain ⟨number, rfl⟩ := NameSupply.exists_candidate_of_mem (gives.1 ▸ mem)
  rw [NameSupply.stem_reserveAll] at isHelper
  have underscore : ∀ name ∈ Options.standard.helpers.names, name.toList.head? = some '_' := by
    decide
  have first := underscore _ isHelper
  rw [String.toList_append] at first
  cases first

theorem span_ne_of_block (inner outer : ForIn.Names) :
    ∀ node ∈ (nestingLowered inner outer).subtree, node.form = .block → node.span ≠ ⟨30, 60⟩ := by
  intro node mem isBlock same
  have isSpan : node.span ∈ (nestingLowered inner outer).blocks :=
    List.mem_map_of_mem (List.mem_filter.2 ⟨mem, beq_iff_eq.2 isBlock⟩)
  rw [blocks_nestingLowered, same] at isSpan
  revert isSpan
  decide

theorem not_isContained_inner (inner outer : ForIn.Names) :
    ¬ (⟨⟨30, 60⟩, inner.toList, none⟩ : Allotment).IsContained (nestingLowered inner outer).subtree
      (nestingLowered inner outer) := by
  intro contained
  rcases contained.inside with unused | ⟨block, place, home, -⟩
  · have uses := Node.uses_iff_occurrences.1 (uses_keys inner outer)
    rw [unused inner.keys (.head _)] at uses
    exact Nat.lt_irrefl 0 uses
  · exact span_ne_of_block inner outer block place home.isBlock (home.replaces rfl)

/-- The loop `for (c in d) yield a;` is the body of a loop. Its names are none of the helpers and come
into the tree, but no block of the tree has taken its place. -/
theorem dissolved :
    let names := Options.standard.nameSupply
    let inner := ForIn.Names.take.run (names.reserveAll nesting.names.toList)
    let outer := ForIn.Names.take.run inner.2
    let outcome := runStandard .standard names #[] nesting
    let out := nestingLowered inner.1 outer.1
    outcome.tree = some out ∧ outcome.names = outer.2 ∧
      (∀ name ∈ inner.1.toList ++ outer.1.toList, name ∉ Options.standard.helpers.names) ∧
      out.uses inner.1.keys ∧
      (∀ node ∈ out.subtree, node.form = .block → node.span ≠ ⟨30, 60⟩) ∧
      ¬ (⟨⟨30, 60⟩, inner.1.toList, none⟩ : Allotment).IsContained out.subtree out := by
  intro names inner outer outcome out
  obtain ⟨tree, given⟩ := runStandard_nesting names #[]
  have gives := NameSupply.isTrace_gives.append (ForIn.gives_take _) (ForIn.gives_take inner.2)
  exact ⟨tree, given, not_helper_of_gives gives, uses_keys _ _, span_ne_of_block _ _,
    not_isContained_inner _ _⟩

/-- The names of both loops are contained in that tree nevertheless. -/
theorem hygienic_nesting :
    let names := Options.standard.nameSupply
    let inner := ForIn.Names.take.run (names.reserveAll nesting.names.toList)
    let outer := ForIn.Names.take.run inner.2
    let out := nestingLowered inner.1 outer.1
    ∃ allotments : List Allotment,
      (∀ name ∈ inner.1.toList ++ outer.1.toList, name ∈ allotments.flatMap Allotment.names) ∧
      ∀ a ∈ allotments, a.IsContained out.subtree out := by
  intro names inner outer out
  obtain ⟨allotments, gives, -, -, -, -, contained⟩ :=
    runStandard_hygienic .standard names #[] nesting
  obtain ⟨tree, given⟩ := runStandard_nesting names #[]
  have taken := NameSupply.isTrace_gives.append (ForIn.gives_take _) (ForIn.gives_take inner.2)
  rw [given] at gives
  have lowered := contained (not_helper_of_gives gives)
  rw [tree] at lowered
  exact ⟨allotments, fun name mem => (taken.mem_iff_mem gives name).1 mem, lowered⟩

end Lowering

end Resumable
