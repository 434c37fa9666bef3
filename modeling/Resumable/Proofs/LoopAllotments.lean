import Resumable.Proofs.Allotments

/-!
# The names of lowered for-in loops

Lowering the for-in loops of a scope takes names for each of them, inner ones first (`Node.loops`), and
if the names are new to the scope, then what became of it contains them (`ForIn.houses_lowerAt`).  The
block that replaces a loop is the home of its names.  Only where the loop is the body of another one,
its statements are put into the walk over the keys of that one, and the home is there
(`contained_dissolved`).
-/

namespace Resumable

namespace Node

/-- The for-in loops of a scope that lowering it replaces, inner ones first and otherwise in source
order. Each comes with the loop of which it is the body, with a label or without, if it is one. -/
def loops (node : Node) : Option Span → List (Span × Option Span) :=
  node.para fun node parts outer =>
    if node.isFunctionScope then []
    else match parts with
      | .forInStatement initializer expression body =>
        initializer.2 none ++ expression.2 none ++ body.2 (some node.span) ++ [(node.span, outer)]
      | .labeledStatement _ statement =>
        statement.2 (if statement.1.form = .forInStatement then outer else none)
      | parts => parts.children.flatMap fun part => part.2 none

theorem loops_scope {node : Node} (scope : node.isFunctionScope = true) (outer : Option Span) :
    node.loops outer = [] := by
  rw [loops, para_eq, if_pos scope]

theorem loops_forIn (span : Span) (initializer expression body : Node) (outer : Option Span) :
    loops ⟨span, .forInStatement initializer expression body⟩ outer =
      initializer.loops none ++ expression.loops none ++ body.loops (some span) ++
        [(span, outer)] := by
  rw [loops, para_eq]
  rfl

theorem loops_labeled {statement : Node} (isLoop : statement.form = .forInStatement) (span : Span)
    (label : String) (outer : Option Span) :
    loops ⟨span, .labeledStatement label statement⟩ outer = statement.loops outer := by
  rw [loops, para_eq]
  change statement.loops (if statement.form = .forInStatement then outer else none) = _
  rw [if_pos isLoop]

theorem loops_plain {node : Node} (plain : ForIn.IsPlain node) (outer : Option Span) :
    node.loops outer = node.children.flatMap fun child => child.loops none := by
  obtain ⟨open_, notLoop, notLabel⟩ := plain
  have parts : ((node.kind.map fun child => (child, child.loops)).children.flatMap
      fun part => part.2 none) = node.children.flatMap fun child => child.loops none := by
    simp [children, List.flatMap_map]
  rw [← parts, loops, para_eq, if_neg (by simp [open_])]
  obtain ⟨span, kind⟩ := node
  cases kind
  case forInStatement => exact absurd rfl notLoop
  case labeledStatement label statement =>
    change statement.loops (if statement.form = .forInStatement then outer else none) =
      statement.loops none ++ []
    rw [if_neg (notLabel label statement rfl), List.append_nil]
  all_goals rfl

/-- The loops of a node that is built from parts are told by their forms and their loops. -/
theorem loops_map {α : Type} {parts : Kind α} (before after : α → Node) (span : Span)
    (each : ∀ part ∈ parts.children, (after part).form = (before part).form ∧
      (after part).loops = (before part).loops) :
    loops ⟨span, parts.map after⟩ = loops ⟨span, parts.map before⟩ := by
  have scopes := isFunctionScope_of_kind_map after before span span parts
  funext outer
  cases scope : isFunctionScope ⟨span, parts.map before⟩ with
  | true => rw [loops_scope (scopes.trans scope), loops_scope scope]
  | false =>
    by_cases isLoop : parts.form = .forInStatement
    · cases parts <;> try cases isLoop
      simp only [Kind.children, List.mem_cons, List.not_mem_nil, or_false, forall_eq_or_imp,
        forall_eq] at each
      obtain ⟨⟨-, first⟩, ⟨-, second⟩, -, third⟩ := each
      simp only [Kind.map, loops_forIn, first, second, third]
    · by_cases labels : ∃ label statement, parts = .labeledStatement label statement ∧
        (before statement).form = .forInStatement
      · obtain ⟨label, statement, rfl, labelsLoop⟩ := labels
        obtain ⟨form, same⟩ := each statement (.head _)
        simp only [Kind.map, loops_labeled (form.trans labelsLoop), loops_labeled labelsLoop, same]
      · have isPlain (f : α → Node)
            (forms : ∀ part ∈ parts.children, (f part).form = (before part).form)
            (scope : isFunctionScope ⟨span, parts.map f⟩ = false) :
            ForIn.IsPlain ⟨span, parts.map f⟩ := by
          refine ⟨scope, by rwa [form, Node.kind, Kind.form_map], fun label _ same loop => labels ?_⟩
          cases parts <;> cases same
          exact ⟨label, _, rfl, forms _ (.head _) ▸ loop⟩
        rw [loops_plain (isPlain after (fun part mem => (each part mem).1) (scopes.trans scope)),
          loops_plain (isPlain before (fun _ _ => rfl) scope)]
        simp only [children, Node.kind, Kind.children_map, List.flatMap_map]
        exact List.flatMap_congr fun part mem => by rw [(each part mem).2]

end Node

namespace ForIn

open Build

section Loop

variable {names : Names} {label : Option String} {span : Span} {initializer expression body : Node}
  {w : Weight} {name : String}

/-- The names of a loop in a list. -/
def Names.toList (names : Names) : List String :=
  [names.keys, names.collection, names.property, names.index]

theorem tally_loop (about : w.IsAbout name) (other : name ∉ names.toList) :
    (loop names label span initializer expression body).tally w =
      (label.map (w .labeledStatement)).getD 0 + expression.tally w +
        ((declaredVariable? initializer).map (w .variableDeclaration)).getD (initializer.tally w) +
        body.tally w := by
  have ignores : ∀ n ∈ names.toList, (Census.throughout w (Node.tally w)).Ignores n :=
    fun n mem => Census.ignores_of_isAbout about (fun same => other (same ▸ mem)) _
  have counted := census_loop ignores label span initializer expression body false
  simp only [Node.census_throughout] at counted
  exact counted

/-- A label counts only for its own name. -/
theorem labelCount_eq_zero (about : w.IsAbout name) (unlabeled : label ≠ some name) :
    (label.map (w .labeledStatement)).getD 0 = 0 := by
  cases label with
  | none => rfl
  | some inner => exact about.other _ _ fun same => unlabeled (congrArg some same)

/-- The block of the walk over the keys of a loop. -/
def walkBlock (names : Names) (initializer body : Node) : Node :=
  block (names.skipDeleted :: bindVariable initializer names.currentKey :: body.statements)

theorem tally_statements (w : Weight) (body : Node) :
    (body.statements.map (Node.tally w)).sum = body.tally w := by
  have counted := census_statements (c := .throughout w (Node.tally w)) body
  simpa only [Node.census_throughout] using counted

theorem tally_le_walkBlock : body.tally w ≤ (walkBlock names initializer body).tally w := by
  rw [← tally_statements w body, Node.tally_eq w (walkBlock names initializer body)]
  simp only [walkBlock, block, Node.synthetic, Node.children, Node.kind, Kind.children, List.map_cons,
    List.sum_cons]
  omega

/-- The walk over the keys stands in the scope of the loop. -/
theorem ownScope_walkBlock_subset :
    (walkBlock names initializer body).ownScope ⊆
      (loop names label span initializer expression body).ownScope.tail := by
  let walk := names.walkKeys initializer body.statements
  have inWalk : (walkBlock names initializer body).ownScope ⊆ walk.ownScope :=
    Node.ownScope_child_subset rfl (.tail _ (.tail _ (.tail _ (.head _))))
  refine List.Subset.trans inWalk ?_
  cases label with
  | none =>
    exact Node.ownScope_child_subset_tail rfl (.tail _ (.tail _ (.tail _ (.head _))))
  | some inner =>
    have labeled : walk.ownScope ⊆ (labeledStatement inner walk).ownScope :=
      Node.ownScope_child_subset rfl (.head _)
    exact List.Subset.trans labeled
      (Node.ownScope_child_subset_tail rfl (.tail _ (.tail _ (.tail _ (.head _)))))

theorem ownScope_expression_subset :
    expression.ownScope ⊆ (loop names label span initializer expression body).ownScope.tail := by
  let declaration := variableDeclaration names.collection (some expression)
  have inDeclaration : expression.ownScope ⊆ declaration.ownScope :=
    Node.ownScope_child_subset rfl (.head _)
  have inStatement : declaration.ownScope ⊆
      (variableStatement names.collection (some expression)).ownScope :=
    Node.ownScope_child_subset rfl (.head _)
  exact List.Subset.trans (List.Subset.trans inDeclaration inStatement)
    (Node.ownScope_child_subset_tail rfl (.tail _ (.head _)))

/-- An initializer that declares no variable is the target of an assignment in the walk. -/
theorem ownScope_initializer_subset (assigns : declaredVariable? initializer = none) :
    initializer.ownScope ⊆ (walkBlock names initializer body).ownScope := by
  have inAssignment : initializer.ownScope ⊆ (assignment initializer names.currentKey).ownScope :=
    Node.ownScope_child_subset rfl (.head _)
  have inStatement : (assignment initializer names.currentKey).ownScope ⊆
      (bindVariable initializer names.currentKey).ownScope := by
    rw [bindVariable, assigns]
    exact Node.ownScope_child_subset rfl (.head _)
  exact List.Subset.trans (List.Subset.trans inAssignment inStatement)
    (Node.ownScope_child_subset rfl (.tail _ (.head _)))

/-- What stands below the body of a loop stands below the block of the walk, in which the statements
of the body are. -/
theorem ownScope_body_subset :
    body.ownScope.tail ⊆ (walkBlock names initializer body).ownScope.tail := by
  intro inner mem
  obtain ⟨plain, child, isChild, inside⟩ := Node.mem_tail_ownScope mem
  have inStatement : ∃ statement ∈ body.statements, inner ∈ statement.ownScope := by
    obtain ⟨span, kind⟩ := body
    cases kind
    case block | program => exact ⟨child, isChild, inside⟩
    all_goals exact ⟨_, .head _, Node.ownScope_child_subset plain isChild inside⟩
  obtain ⟨statement, isStatement, inside⟩ := inStatement
  have inWalk : statement.ownScope ⊆ (walkBlock names initializer body).ownScope.tail :=
    Node.ownScope_child_subset_tail rfl (.tail _ (.tail _ isStatement))
  exact inWalk inside

/-- A loop declares each of its names once, and nothing else beside what its parts declare. -/
theorem declarations_loop (name : String) :
    (loop names label span initializer expression body).declarations name =
      names.toList.count name + expression.declarations name +
        (bindVariable initializer names.currentKey).declarations name + body.declarations name := by
  let c : Census := .throughout (.declaring name) (Node.tally (.declaring name))
  have counts (node : Node) : node.declarations name = node.census c false false :=
    (Node.census_throughout _ node false).symm
  have declared (own : String) : c.named .variableDeclaration own = if own = name then 1 else 0 := by
    simp [c, Census.throughout, Weight.declaring]
  have identified (own : String) : c.named .identifier own = 0 := by
    simp [c, Census.throughout, Weight.declaring]
  have labels (own : String) : c.named .labeledStatement own = 0 := by
    simp [c, Census.throughout, Weight.declaring]
  have currentKey : names.currentKey.census c false false = 0 := by
    simp [Names.currentKey, element, identifier, Node.synthetic, Node.census_mk, Kind.form,
      Form.isFunctionScope, Form.isFunctionLike, Kind.children, Census.here, Node.kind,
      Kind.ownName?, Node.isMemberList, identified]
  have walk : (names.walkKeys initializer body.statements).census c false false =
      (if names.index = name then 1 else 0) +
        (bindVariable initializer names.currentKey).census c false false +
        body.census c false false := by
    rw [← census_statements body]
    simp [Names.walkKeys, Names.skipDeleted, currentKey, forStatement, variableStatement,
      variableDeclaration, number, binary, identifier, Build.property, postfixIncrement, block,
      ifStatement, Build.not, unary, continueStatement, Node.synthetic, Node.census_mk, Kind.form,
      Form.isFunctionScope, Form.isFunctionLike, Kind.children, Census.here, Node.kind,
      Kind.ownName?, Node.isMemberList, declared, identified, Nat.add_assoc]
  simp only [counts]
  cases label <;>
    simp [loop, walk, Names.collectKeys, labeledStatement, forInStatement, expressionStatement,
      methodCall, call, array, variableStatement, variableDeclaration, identifier, Build.property,
      Node.synthetic, Node.census_mk, Kind.form, Form.isFunctionScope, Form.isFunctionLike,
      Kind.children, Census.here, Node.kind, Kind.ownName?, Node.isMemberList, declared, identified,
      labels, Names.toList, List.count_cons]
  all_goals omega

/-- A loop that declares its variable uses the name of it. -/
theorem uses_of_declaredVariable? (declares : declaredVariable? initializer = some name) :
    initializer.uses name := by
  rw [Node.uses_iff_occurrences, Node.occurrences, ← Node.census_throughout _ initializer false]
  refine Nat.lt_of_lt_of_le ?_ (Node.named_le_census declares false)
  simp [Census.throughout, Weight.bearing]

theorem declarations_bindVariable (unused : ¬ initializer.uses name) :
    (bindVariable initializer names.currentKey).declarations name = 0 := by
  have initial : initializer.declarations name = 0 :=
    Node.tally_of_not_uses (Weight.isAbout_declaring name) unused
  have declared (other : String) (declares : declaredVariable? initializer = some other) :
      other ≠ name := fun same => unused (same ▸ uses_of_declaredVariable? declares)
  unfold Node.declarations at initial ⊢
  unfold bindVariable
  cases declares : declaredVariable? initializer with
  | none =>
    simp [Names.currentKey, element, identifier, assignmentStatement, expressionStatement, assignment,
      binary, Node.synthetic, Node.tally_mk, Kind.children, Kind.ownName?, Kind.form,
      Weight.declaring, initial]
  | some other =>
    simp [Names.currentKey, element, identifier, variableStatement, variableDeclaration,
      Node.synthetic, Node.tally_mk, Kind.children, Kind.ownName?, Kind.form, Weight.declaring,
      declared other declares]

end Loop

/-- What lowering the for-in loops of a tree takes and leaves. The names of the tree itself, if it is
a loop with a label or without, have the result as their home, and those of the loops below it have
their home below that. -/
structure Houses (node : Node) (label : Option String) (below root : List Allotment)
    (result : Node) : Prop where
  keys : ∀ outer, below.map Allotment.key ++ root.map (fun a => (a.span, outer)) = node.loops outer
  nested : ∀ a ∈ below, ∀ outer ∈ a.outer,
    ∃ around ∈ below ++ root, around.span = outer.1 ∧ around.names = outer.2.toList
  home : ∀ a ∈ root, a.outer = none ∧ a.IsHome result
  tally_le : ∀ (w : Weight) name, w.IsAbout name →
    name ∉ (below ++ root).flatMap Allotment.names →
      result.tally w ≤ node.tally w + (label.map (w .labeledStatement)).getD 0
  contained : (∀ name ∈ (below ++ root).flatMap Allotment.names,
      ¬ node.uses name ∧ label ≠ some name) →
    (∀ a ∈ root, a.IsContained result.ownScope result) ∧
      ∀ a ∈ below, a.IsContained result.ownScope.tail result

/-- A name that was not taken counts no more than before. -/
theorem Houses.tally_le_unlabeled {node : Node} {below root : List Allotment} {result : Node}
    (houses : Houses node none below root result) {w : Weight} {name : String}
    (about : w.IsAbout name) (notGiven : name ∉ (below ++ root).flatMap Allotment.names) :
    result.tally w ≤ node.tally w :=
  houses.tally_le w name about notGiven

/-- A name that is new and was not taken does not stand in the result. -/
theorem Houses.tally_eq_zero {node : Node} {label : Option String} {below root : List Allotment}
    {result : Node} (houses : Houses node label below root result) {w : Weight} {name : String}
    (about : w.IsAbout name) (unlabeled : label ≠ some name)
    (notGiven : name ∉ (below ++ root).flatMap Allotment.names) (unused : ¬ node.uses name) :
    result.tally w = 0 := by
  have le := houses.tally_le w name about notGiven
  rw [labelCount_eq_zero about unlabeled, Node.tally_of_not_uses about unused] at le
  exact Nat.le_zero.1 le

/-- The loop around a loop is among those for which names were taken. -/
def AreNested (allotments : List Allotment) : Prop :=
  ∀ a ∈ allotments, ∀ outer ∈ a.outer,
    ∃ around ∈ allotments, around.span = outer.1 ∧ around.names = outer.2.toList

theorem Houses.areNested {node : Node} {label : Option String} {below root : List Allotment}
    {result : Node} (houses : Houses node label below root result) : AreNested (below ++ root) := by
  intro a mem outer isOuter
  rcases List.mem_append.1 mem with mem | mem
  · exact houses.nested a mem outer isOuter
  · rw [(houses.home a mem).1] at isOuter
    cases isOuter

/-- All names are contained in the scope of the result. -/
theorem Houses.all {node : Node} {label : Option String} {below root : List Allotment}
    {result : Node} (houses : Houses node label below root result)
    (new : ∀ name ∈ (below ++ root).flatMap Allotment.names, ¬ node.uses name ∧ label ≠ some name)
    {a : Allotment} (mem : a ∈ below ++ root) : a.IsContained result.ownScope result := by
  obtain ⟨ofRoot, ofBelow⟩ := houses.contained new
  rcases List.mem_append.1 mem with mem | mem
  · exact (ofBelow a mem).around (fun _ _ _ _ => rfl) (List.tail_subset _)
  · exact ofRoot a mem

/-- The names of a loop that is the body of another one have their home in the walk of that one. -/
theorem isHome_walkBlock {a : Allotment} {body : Node} (home : a.IsHome body) (span : Span)
    (names : Names) (initializer : Node) :
    (a.inBodyOf (span, names)).IsHome (walkBlock names initializer body) := by
  refine ⟨rfl, nofun, ?_, ?_⟩
  · rintro _ ⟨⟩
    exact .head _
  · obtain ⟨name, isName, statement, isChild, declares⟩ := home.declares
    rw [home.children_eq] at isChild
    exact ⟨name, isName, statement, .tail _ (.tail _ isChild), declares⟩

theorem isHome_loop (names : Names) (label : Option String) (span : Span)
    (initializer expression body : Node) :
    (⟨span, names.toList, none⟩ : Allotment).IsHome
      (loop names label span initializer expression body) :=
  ⟨rfl, fun _ => rfl, nofun, names.keys, .head _, _, .head _, rfl⟩

/-- What stands in the initializer of a loop is no less than what the walk binds of it. -/
theorem bound_le {w : Weight} {initializer initializer' : Node}
    (declares : declaredVariable? initializer' = declaredVariable? initializer)
    (le : initializer'.tally w ≤ initializer.tally w) :
    ((declaredVariable? initializer').map (w .variableDeclaration)).getD (initializer'.tally w) ≤
      initializer.tally w := by
  rw [declares]
  cases declared : declaredVariable? initializer with
  | none => exact le
  | some name =>
    rw [← Node.census_throughout w initializer false]
    exact Node.named_le_census (c := .throughout w (Node.tally w)) declared false

section Contained

variable {names : Names} {label : Option String} {span : Span} {initializer expression body : Node}
  {a : Allotment}

/-- Names that stand in one part of a loop alone are contained in the loop as they are in the part. -/
theorem contained_expression (contained : a.IsContained expression.ownScope expression)
    (other : ∀ name ∈ a.names, name ∉ names.toList ∧ label ≠ some name)
    (rest : ∀ name ∈ a.names, ∀ w : Weight, w.IsAbout name →
      ((declaredVariable? initializer).map (w .variableDeclaration)).getD (initializer.tally w) = 0 ∧
        body.tally w = 0) :
    a.IsContained (loop names label span initializer expression body).ownScope.tail
      (loop names label span initializer expression body) := by
  refine contained.around (fun name mem w about => ?_) ownScope_expression_subset
  obtain ⟨bound, inBody⟩ := rest name mem w about
  rw [tally_loop about (other name mem).1, labelCount_eq_zero about (other name mem).2, bound, inBody,
    Nat.zero_add]
  rfl

theorem contained_initializer (contained : a.IsContained initializer.ownScope initializer)
    (other : ∀ name ∈ a.names, name ∉ names.toList ∧ label ≠ some name ∧
      declaredVariable? initializer ≠ some name)
    (rest : ∀ name ∈ a.names, ∀ w : Weight, w.IsAbout name →
      expression.tally w = 0 ∧ body.tally w = 0) :
    a.IsContained (loop names label span initializer expression body).ownScope.tail
      (loop names label span initializer expression body) := by
  have counts (name : String) (mem : name ∈ a.names) (w : Weight) (about : w.IsAbout name) :
      (loop names label span initializer expression body).tally w =
        ((declaredVariable? initializer).map (w .variableDeclaration)).getD (initializer.tally w) := by
    obtain ⟨inExpression, inBody⟩ := rest name mem w about
    rw [tally_loop about (other name mem).1, labelCount_eq_zero about (other name mem).2.1,
      inExpression, inBody, Nat.zero_add, Nat.add_zero]
  cases declares : declaredVariable? initializer with
  | none =>
    refine contained.around (fun name mem w about => ?_) (List.Subset.trans
      (ownScope_initializer_subset declares) ownScope_walkBlock_subset)
    rw [counts name mem w about, declares]
    rfl
  | some variableName =>
    refine Allotment.isContained_of_unused fun name mem w about => ?_
    have ne : variableName ≠ name := fun same => (other name mem).2.2 (same ▸ declares)
    rw [counts name mem w about, declares]
    exact about.other _ _ ne

theorem tally_loop_body {w : Weight} {name : String} (about : w.IsAbout name)
    (other : name ∉ names.toList ∧ label ≠ some name) (inExpression : expression.tally w = 0)
    (bound : ((declaredVariable? initializer).map (w .variableDeclaration)).getD
      (initializer.tally w) = 0) :
    (loop names label span initializer expression body).tally w = body.tally w := by
  rw [tally_loop about other.1, labelCount_eq_zero about other.2, inExpression, bound, Nat.add_zero,
    Nat.zero_add]

theorem contained_body (contained : a.IsContained body.ownScope.tail body)
    (other : ∀ name ∈ a.names, name ∉ names.toList ∧ label ≠ some name)
    (rest : ∀ name ∈ a.names, ∀ w : Weight, w.IsAbout name → expression.tally w = 0 ∧
      ((declaredVariable? initializer).map (w .variableDeclaration)).getD (initializer.tally w) = 0) :
    a.IsContained (loop names label span initializer expression body).ownScope.tail
      (loop names label span initializer expression body) :=
  contained.around
    (fun name mem w about => tally_loop_body about (other name mem) (rest name mem w about).1
      (rest name mem w about).2)
    (List.Subset.trans (List.Subset.trans ownScope_body_subset (List.tail_subset _))
      ownScope_walkBlock_subset)

/-- The block that took the place of a loop is dissolved if the loop is the body of another one. The
names are then contained in the walk of that one. -/
theorem contained_dissolved (home : a.IsHome body)
    (once : ∀ name ∈ a.names, body.declarations name ≤ 1)
    (other : ∀ name ∈ a.names, name ∉ names.toList ∧ label ≠ some name)
    (rest : ∀ name ∈ a.names, ∀ w : Weight, w.IsAbout name → expression.tally w = 0 ∧
      ((declaredVariable? initializer).map (w .variableDeclaration)).getD (initializer.tally w) = 0) :
    (a.inBodyOf (span, names)).IsContained (loop names label span initializer expression body).ownScope.tail
      (loop names label span initializer expression body) := by
  have counts (name : String) (mem : name ∈ a.names) (w : Weight) (about : w.IsAbout name) :
      (loop names label span initializer expression body).tally w = body.tally w :=
    tally_loop_body about (other name mem) (rest name mem w about).1 (rest name mem w about).2
  have walk : walkBlock names initializer body ∈ (walkBlock names initializer body).ownScope :=
    Node.mem_ownScope_iff.2 ⟨rfl, .inl rfl⟩
  have inside : walkBlock names initializer body ∈
      (loop names label span initializer expression body).ownScope.tail :=
    ownScope_walkBlock_subset walk
  refine ⟨fun name mem => ?_, .inr ⟨_, inside, isHome_walkBlock home span names initializer,
    fun name mem => ?_⟩⟩
  · exact (counts name mem _ (Weight.isAbout_declaring name)).trans_le (once name mem)
  · have whole := counts name mem _ (Weight.isAbout_bearing name)
    refine Nat.le_antisymm (Node.tally_le_of_mem (Node.ownScope_subset_subtree _
      (List.mem_of_mem_tail inside))) ?_
    exact (Nat.le_of_eq whole).trans tally_le_walkBlock

end Contained

theorem Houses.map_key {node : Node} {label : Option String} {below root : List Allotment}
    {result : Node} (houses : Houses node label below root result) :
    (below ++ root).map Allotment.key = node.loops none := by
  rw [List.map_append, ← houses.keys none]
  congr 1
  refine List.map_congr_left fun a mem => ?_
  rw [Allotment.key, (houses.home a mem).1]
  rfl

section HousesLoop

variable {names : Names} {label : Option String} {span : Span}
  {initializer expression body initializer' expression' body' : Node}
  {below₁ root₁ below₂ root₂ below₃ root₃ : List Allotment}
  (first : Houses initializer none below₁ root₁ initializer')
  (second : Houses expression none below₂ root₂ expression')
  (third : Houses body none below₃ root₃ body')

/-- The allotments for the loops in the body of a loop. One that is the body itself, with a label or
without, has its home in the walk. -/
def inBody (span : Span) (names : Names) (below root : List Allotment) : List Allotment :=
  below ++ root.map (Allotment.inBodyOf (span, names))

theorem flatMap_names_inBody (span : Span) (names : Names) (below root : List Allotment) :
    (inBody span names below root).flatMap Allotment.names =
      (below ++ root).flatMap Allotment.names := by
  simp [inBody, List.flatMap_map]

include first second third

theorem keys_loop (outer : Option Span) :
    (below₁ ++ root₁ ++ (below₂ ++ root₂) ++ inBody span names below₃ root₃).map Allotment.key ++
        [(span, outer)] =
      Node.loops ⟨span, .forInStatement initializer expression body⟩ outer := by
  rw [Node.loops_forIn, ← first.map_key, ← second.map_key, ← third.keys (some span)]
  simp [inBody]

theorem nested_loop :
    ∀ a ∈ below₁ ++ root₁ ++ (below₂ ++ root₂) ++ inBody span names below₃ root₃, ∀ outer ∈ a.outer,
      ∃ around ∈ below₁ ++ root₁ ++ (below₂ ++ root₂) ++ inBody span names below₃ root₃ ++
          [⟨span, names.toList, none⟩],
        around.span = outer.1 ∧ around.names = outer.2.toList := by
  intro a mem outer isOuter
  rcases List.mem_append.1 mem with before | mem
  · rcases List.mem_append.1 before with mem | mem
    · obtain ⟨around, isGiven, same⟩ := first.areNested a mem outer isOuter
      exact ⟨around, by simp only [List.mem_append] at isGiven ⊢; tauto, same⟩
    · obtain ⟨around, isGiven, same⟩ := second.areNested a mem outer isOuter
      exact ⟨around, by simp only [List.mem_append] at isGiven ⊢; tauto, same⟩
  · rcases List.mem_append.1 mem with mem | mem
    · obtain ⟨around, isGiven, same⟩ := third.nested a mem outer isOuter
      rcases List.mem_append.1 isGiven with isGiven | isGiven
      · exact ⟨around, by simp only [inBody, List.mem_append]; tauto, same⟩
      · refine ⟨around.inBodyOf (span, names), ?_, same⟩
        have inBody := List.mem_map_of_mem (f := Allotment.inBodyOf (span, names)) isGiven
        exact List.mem_append_left _ (List.mem_append_right _ (List.mem_append_right _ inBody))
    · obtain ⟨b, -, rfl⟩ := List.mem_map.1 mem
      cases isOuter
      exact ⟨_, List.mem_append_right _ (.head _), rfl, rfl⟩

theorem tally_le_loop (declares : declaredVariable? initializer' = declaredVariable? initializer)
    {w : Weight} {name : String} (about : w.IsAbout name)
    (notGiven : name ∉ (below₁ ++ root₁).flatMap Allotment.names ∧
      name ∉ (below₂ ++ root₂).flatMap Allotment.names ∧
      name ∉ (below₃ ++ root₃).flatMap Allotment.names ∧ name ∉ names.toList) :
    (loop names label span initializer' expression' body').tally w ≤
      Node.tally w ⟨span, .forInStatement initializer expression body⟩ +
        (label.map (w .labeledStatement)).getD 0 := by
  obtain ⟨not₁, not₂, not₃, other⟩ := notGiven
  have le₁ := bound_le declares (first.tally_le_unlabeled about not₁)
  have le₂ := second.tally_le_unlabeled about not₂
  have le₃ := third.tally_le_unlabeled about not₃
  rw [tally_loop about other, Node.tally_mk]
  simp only [Kind.children, List.map_cons, List.map_nil, List.sum_cons, List.sum_nil]
  omega

omit second third in
/-- A name that is new and was not taken is not what the walk over the keys binds, nor in it. -/
theorem bound_eq_zero (declares : declaredVariable? initializer' = declaredVariable? initializer)
    {w : Weight} {name : String} (about : w.IsAbout name)
    (notGiven : name ∉ (below₁ ++ root₁).flatMap Allotment.names) (unused : ¬ initializer.uses name) :
    ((declaredVariable? initializer').map (w .variableDeclaration)).getD (initializer'.tally w) = 0 := by
  have le := bound_le declares (first.tally_le_unlabeled about notGiven)
  rw [Node.tally_of_not_uses about unused] at le
  exact Nat.le_zero.1 le

/-- The block that replaces a loop contains the names of the loop. -/
theorem contained_own (distinct : names.toList.Nodup)
    (new : ∀ name ∈ names.toList, ¬ initializer.uses name ∧ ¬ expression.uses name ∧ ¬ body.uses name)
    (apart : ∀ name ∈ names.toList, name ∉ (below₁ ++ root₁).flatMap Allotment.names ∧
      name ∉ (below₂ ++ root₂).flatMap Allotment.names ∧
      name ∉ (below₃ ++ root₃).flatMap Allotment.names) :
    (⟨span, names.toList, none⟩ : Allotment).IsContained
      (loop names label span initializer' expression' body').ownScope
      (loop names label span initializer' expression' body') := by
  refine (isHome_loop names label span initializer' expression' body').isContained fun name mem => ?_
  obtain ⟨un₁, un₂, un₃⟩ := new name mem
  obtain ⟨not₁, not₂, not₃⟩ := apart name mem
  have about := Weight.isAbout_declaring name
  have notUsed : ¬ initializer'.uses name := by
    rw [Node.uses_iff_occurrences, Node.occurrences,
      first.tally_eq_zero (Weight.isAbout_bearing name) nofun not₁ un₁]
    exact Nat.lt_irrefl 0
  have zero₂ : expression'.declarations name = 0 := second.tally_eq_zero about nofun not₂ un₂
  have zero₃ : body'.declarations name = 0 := third.tally_eq_zero about nofun not₃ un₃
  rw [declarations_loop, declarations_bindVariable notUsed, zero₂, zero₃]
  exact List.nodup_iff_count_le_one.1 distinct name

/-- The block that replaces a loop contains the names that were taken for the loops in the
initializer. -/
theorem contained_inInitializer
    (declares : declaredVariable? initializer' = declaredVariable? initializer)
    (new : ∀ name ∈ (below₁ ++ root₁).flatMap Allotment.names,
      ¬ initializer.uses name ∧ ¬ expression.uses name ∧ ¬ body.uses name ∧ label ≠ some name)
    (apart : ∀ name ∈ (below₁ ++ root₁).flatMap Allotment.names,
      name ∉ (below₂ ++ root₂).flatMap Allotment.names ∧
        name ∉ (below₃ ++ root₃).flatMap Allotment.names ∧ name ∉ names.toList) :
    ∀ a ∈ below₁ ++ root₁, a.IsContained
      (loop names label span initializer' expression' body').ownScope.tail
      (loop names label span initializer' expression' body') := by
  intro a mem
  have given {name : String} (isName : name ∈ a.names) :
      name ∈ (below₁ ++ root₁).flatMap Allotment.names := List.mem_flatMap.2 ⟨a, mem, isName⟩
  refine contained_initializer (first.all (fun name mem => ⟨(new name mem).1, nofun⟩) mem)
    (fun name isName => ?_) fun name isName w about => ?_
  · obtain ⟨un₁, -, -, unlabeled⟩ := new name (given isName)
    refine ⟨(apart name (given isName)).2.2, unlabeled, ?_⟩
    rw [declares]
    exact fun declared => un₁ (uses_of_declaredVariable? declared)
  · obtain ⟨-, un₂, un₃, -⟩ := new name (given isName)
    obtain ⟨not₂, not₃, -⟩ := apart name (given isName)
    exact ⟨second.tally_eq_zero about nofun not₂ un₂, third.tally_eq_zero about nofun not₃ un₃⟩

/-- The block that replaces a loop contains the names that were taken for the loops in the
expression. -/
theorem contained_inExpression
    (declares : declaredVariable? initializer' = declaredVariable? initializer)
    (new : ∀ name ∈ (below₂ ++ root₂).flatMap Allotment.names,
      ¬ initializer.uses name ∧ ¬ expression.uses name ∧ ¬ body.uses name ∧ label ≠ some name)
    (apart : ∀ name ∈ (below₂ ++ root₂).flatMap Allotment.names,
      name ∉ (below₁ ++ root₁).flatMap Allotment.names ∧
        name ∉ (below₃ ++ root₃).flatMap Allotment.names ∧ name ∉ names.toList) :
    ∀ a ∈ below₂ ++ root₂, a.IsContained
      (loop names label span initializer' expression' body').ownScope.tail
      (loop names label span initializer' expression' body') := by
  intro a mem
  have given {name : String} (isName : name ∈ a.names) :
      name ∈ (below₂ ++ root₂).flatMap Allotment.names := List.mem_flatMap.2 ⟨a, mem, isName⟩
  refine contained_expression (second.all (fun name mem => ⟨(new name mem).2.1, nofun⟩) mem)
    (fun name isName => ⟨(apart name (given isName)).2.2, (new name (given isName)).2.2.2⟩)
    fun name isName w about => ?_
  obtain ⟨un₁, -, un₃, -⟩ := new name (given isName)
  obtain ⟨not₁, not₃, -⟩ := apart name (given isName)
  exact ⟨bound_eq_zero first declares about not₁ un₁, third.tally_eq_zero about nofun not₃ un₃⟩

/-- The block that replaces a loop contains the names that were taken for the loops in the body. -/
theorem contained_inBody (declares : declaredVariable? initializer' = declaredVariable? initializer)
    (new : ∀ name ∈ (below₃ ++ root₃).flatMap Allotment.names,
      ¬ initializer.uses name ∧ ¬ expression.uses name ∧ ¬ body.uses name ∧ label ≠ some name)
    (apart : ∀ name ∈ (below₃ ++ root₃).flatMap Allotment.names,
      name ∉ (below₁ ++ root₁).flatMap Allotment.names ∧
        name ∉ (below₂ ++ root₂).flatMap Allotment.names ∧ name ∉ names.toList) :
    ∀ a ∈ inBody span names below₃ root₃, a.IsContained
      (loop names label span initializer' expression' body').ownScope.tail
      (loop names label span initializer' expression' body') := by
  have given {a : Allotment} (mem : a ∈ below₃ ++ root₃) {name : String} (isName : name ∈ a.names) :
      name ∈ (below₃ ++ root₃).flatMap Allotment.names := List.mem_flatMap.2 ⟨a, mem, isName⟩
  have other {name : String} (mem : name ∈ (below₃ ++ root₃).flatMap Allotment.names) :
      name ∉ names.toList ∧ label ≠ some name := ⟨(apart name mem).2.2, (new name mem).2.2.2⟩
  have rest {name : String} (mem : name ∈ (below₃ ++ root₃).flatMap Allotment.names) {w : Weight}
      (about : w.IsAbout name) : expression'.tally w = 0 ∧ ((declaredVariable? initializer').map
        (w .variableDeclaration)).getD (initializer'.tally w) = 0 := by
    obtain ⟨un₁, un₂, -, -⟩ := new name mem
    obtain ⟨not₁, not₂, -⟩ := apart name mem
    exact ⟨second.tally_eq_zero about nofun not₂ un₂, bound_eq_zero first declares about not₁ un₁⟩
  obtain ⟨ofRoot, ofBelow⟩ := third.contained fun name mem => ⟨(new name mem).2.2.1, nofun⟩
  intro a mem
  rcases List.mem_append.1 mem with isBelow | ofBody
  · have given {name : String} (isName : name ∈ a.names) :=
      given (List.mem_append_left _ isBelow) isName
    exact contained_body (ofBelow a isBelow) (fun _ isName => other (given isName))
      fun _ isName _ about => rest (given isName) about
  · obtain ⟨b, isRoot, rfl⟩ := List.mem_map.1 ofBody
    have given {name : String} (isName : name ∈ b.names) :=
      given (List.mem_append_right _ isRoot) isName
    exact contained_dissolved (third.home b isRoot).2 (ofRoot b isRoot).once
      (fun _ isName => other (given isName)) fun _ isName _ about => rest (given isName) about

theorem houses_loop (declares : declaredVariable? initializer' = declaredVariable? initializer)
    (nodup : ((below₁ ++ root₁).flatMap Allotment.names ++ ((below₂ ++ root₂).flatMap Allotment.names ++
      ((below₃ ++ root₃).flatMap Allotment.names ++ names.toList))).Nodup) :
    Houses ⟨span, .forInStatement initializer expression body⟩ label
      (below₁ ++ root₁ ++ (below₂ ++ root₂) ++ inBody span names below₃ root₃)
      [⟨span, names.toList, none⟩] (loop names label span initializer' expression' body') := by
  have given : (below₁ ++ root₁ ++ (below₂ ++ root₂) ++ inBody span names below₃ root₃ ++
        [(⟨span, names.toList, none⟩ : Allotment)]).flatMap Allotment.names =
      (below₁ ++ root₁).flatMap Allotment.names ++ ((below₂ ++ root₂).flatMap Allotment.names ++
        ((below₃ ++ root₃).flatMap Allotment.names ++ names.toList)) := by
    simp [flatMap_names_inBody]
  refine ⟨keys_loop first second third, nested_loop first second third, ?_,
    fun w name about notGiven => ?_, fun new => ?_⟩
  · rintro a (_ | ⟨_, ⟨⟩⟩)
    exact ⟨rfl, isHome_loop names label span initializer' expression' body'⟩
  · rw [given] at notGiven
    simp only [List.mem_append, not_or] at notGiven
    exact tally_le_loop first second third declares about (by simpa using notGiven)
  · rw [given] at new
    have newHere (name : String) (mem : name ∈ (below₁ ++ root₁).flatMap Allotment.names ++
        ((below₂ ++ root₂).flatMap Allotment.names ++
          ((below₃ ++ root₃).flatMap Allotment.names ++ names.toList))) :
        ¬ initializer.uses name ∧ ¬ expression.uses name ∧ ¬ body.uses name ∧ label ≠ some name := by
      obtain ⟨notUsed, unlabeled⟩ := new name mem
      rw [Node.uses_iff] at notUsed
      simp only [Node.children, Node.kind, Kind.children, Kind.ownName?, List.mem_cons,
        List.not_mem_nil, or_false, exists_eq_or_imp, exists_eq_left, not_or] at notUsed
      exact ⟨notUsed.2.1, notUsed.2.2.1, notUsed.2.2.2, unlabeled⟩
    simp only [List.nodup_append', List.disjoint_append_right] at nodup
    obtain ⟨-, ⟨-, ⟨-, distinct, apart₃₄⟩, apart₂₃, apart₂₄⟩, apart₁₂, apart₁₃, apart₁₄⟩ := nodup
    refine ⟨?_, fun a mem => ?_⟩
    · rintro a (_ | ⟨_, ⟨⟩⟩)
      refine contained_own first second third distinct (fun name mem => ?_) fun name mem =>
        ⟨fun mem₁ => apart₁₄ mem₁ mem, fun mem₂ => apart₂₄ mem₂ mem, fun mem₃ => apart₃₄ mem₃ mem⟩
      obtain ⟨un₁, un₂, un₃, -⟩ := newHere name (by simp only [List.mem_append, mem, or_true])
      exact ⟨un₁, un₂, un₃⟩
    · rcases List.mem_append.1 mem with before | mem
      · rcases List.mem_append.1 before with mem | mem
        · exact contained_inInitializer first second third declares
            (fun name isName => newHere name (List.mem_append_left _ isName))
            (fun name isName => ⟨apart₁₂ isName, apart₁₃ isName, apart₁₄ isName⟩) a mem
        · exact contained_inExpression first second third declares
            (fun name isName =>
              newHere name (List.mem_append_right _ (List.mem_append_left _ isName)))
            (fun name isName =>
              ⟨fun mem₁ => apart₁₂ mem₁ isName, apart₂₃ isName, apart₂₄ isName⟩) a mem
      · exact contained_inBody first second third declares
          (fun name isName => newHere name
            (List.mem_append_right _ (List.mem_append_right _ (List.mem_append_left _ isName))))
          (fun name isName =>
            ⟨fun mem₁ => apart₁₃ mem₁ isName, fun mem₂ => apart₂₃ mem₂ isName, apart₃₄ isName⟩) a mem

end HousesLoop

theorem houses_plain {node : Node} (plain : IsPlain node) (label : Option String)
    {parts : Kind (Node × List Allotment × Node)} (same : parts.map Prod.fst = node.kind)
    (each : ∀ part ∈ parts.children, ∃ below root, part.2.1 = below ++ root ∧
      Houses part.1 none below root part.2.2)
    (nodup : ((parts.children.flatMap fun part => part.2.1).flatMap Allotment.names).Nodup) :
    Houses node label (parts.children.flatMap fun part => part.2.1) []
      ⟨node.span, parts.map fun part => part.2.2⟩ := by
  have le (part : Node × List Allotment × Node) (mem : part ∈ parts.children) (name : String)
      (notGiven : name ∉ part.2.1.flatMap Allotment.names) (w : Weight) (about : w.IsAbout name) :
      part.2.2.tally w ≤ part.1.tally w := by
    obtain ⟨below, root, trace, houses⟩ := each part mem
    exact houses.tally_le_unlabeled about (trace ▸ notGiven)
  have open_ : Node.isFunctionScope ⟨node.span, parts.map fun part => part.2.2⟩ = false := by
    rw [Node.isFunctionScope_of_kind_map _ Prod.fst _ node.span, same]
    exact plain.1
  refine ⟨fun outer => ?_, ?_, List.forall_mem_nil _, fun w name about notGiven => ?_,
    fun new => ⟨List.forall_mem_nil _, ?_⟩⟩
  · rw [Node.loops_plain plain, Lowering.Course.children_eq same, List.flatMap_map, List.map_flatMap,
      List.map_nil, List.append_nil]
    refine List.flatMap_congr fun part mem => ?_
    obtain ⟨below, root, trace, houses⟩ := each part mem
    rw [trace, houses.map_key]
  · intro a mem outer isOuter
    rw [List.append_nil]
    obtain ⟨part, isPart, isGiven⟩ := List.mem_flatMap.1 mem
    obtain ⟨below, root, trace, houses⟩ := each part isPart
    obtain ⟨around, isAround, same⟩ := houses.areNested a (trace ▸ isGiven) outer isOuter
    exact ⟨around, List.mem_flatMap.2 ⟨part, isPart, trace ▸ isAround⟩, same⟩
  · rw [List.append_nil] at notGiven
    exact Nat.le_add_right_of_le (Node.tally_le_rebuilt same notGiven
      fun part mem notGiven => le part mem name notGiven w about)
  · rw [List.append_nil] at new
    refine Allotment.isContained_rebuilt (P := fun _ => True) Node.ownScope same nodup
      (fun name mem => ⟨(new name mem).1, trivial⟩)
      (fun part mem name _ notGiven w about => le part mem name notGiven w about)
      (fun part mem => Node.ownScope_child_subset_tail open_ ?_)
      fun part mem _ new a isGiven => ?_
    · rw [Node.children, Node.kind, Kind.children_map]
      exact List.mem_map_of_mem mem
    · obtain ⟨below, root, trace, houses⟩ := each part mem
      rw [trace] at new isGiven
      exact houses.all (fun name isName => ⟨(new name isName).1, (Option.some_ne_none _).symm⟩) isGiven

/-- Lowering the for-in loops of a tree takes names for each of them, and these are contained in what
became of the tree. -/
theorem houses_lowerAt (node : Node) (label : Option String) (s : NameSupply) :
    let out := (lowerAt node label).run s
    ∃ below root, s.Allots (below ++ root) out.2 ∧ Houses node label below root (out.1.getD node) := by
  induction node using Node.inductionOn generalizing label s with
  | step node ih =>
    cases node using cases_node with
    | scope node scope =>
      rw [lowerAt_scope scope]
      refine ⟨[], [], NameSupply.isTrace_allots.nil s, ?_⟩
      exact ⟨fun outer => (Node.loops_scope scope outer).symm, nofun, nofun,
        fun w name _ _ => Nat.le_add_right _ _, fun _ => ⟨nofun, nofun⟩⟩
    | loop span initializer expression body =>
      simp only [Node.children, Node.kind, Kind.children, List.mem_cons, List.not_mem_nil, or_false,
        forall_eq_or_imp, forall_eq] at ih
      obtain ⟨ofInitializer, ofExpression, ofBody⟩ := ih
      obtain ⟨below₁, root₁, allots₁, first⟩ := ofInitializer none s
      obtain ⟨below₂, root₂, allots₂, second⟩ := ofExpression none _
      obtain ⟨below₃, root₃, allots₃, third⟩ := ofBody none _
      have append {s t u : NameSupply} {a b : List String} (first : s.Gives a t) (rest : t.Gives b u) :=
        NameSupply.isTrace_gives.append first rest
      have gives := append allots₁ (append allots₂ (append allots₃ (gives_take _)))
      rw [run_lowerAt_forIn]
      refine ⟨_, _, ?_, houses_loop first second third (declaredVariable?_lowerAt _ _) gives.nodup⟩
      simp only [NameSupply.Allots, List.flatMap_append, flatMap_names_inBody, List.flatMap_singleton,
        List.append_assoc] at gives ⊢
      exact gives
    | labeled span inner statement isLoop =>
      obtain ⟨span', kind⟩ := statement
      cases kind <;> try cases isLoop
      rename_i initializer expression body
      let statement : Node := ⟨span', .forInStatement initializer expression body⟩
      obtain ⟨below, root, allots, houses⟩ := ih statement (.head _) (some inner) s
      rw [lowerAt_labeled rfl]
      rw [run_lowerAt_forIn] at allots houses ⊢
      refine ⟨below, root, allots, fun outer => ?_, houses.nested, houses.home, fun w name about notGiven => ?_,
        fun new => houses.contained fun name isName => ?_⟩
      · rw [Node.loops_labeled rfl]
        exact houses.keys outer
      · have le := houses.tally_le w name about notGiven
        have labeled : Node.tally w ⟨span, .labeledStatement inner statement⟩ =
            w .labeledStatement inner + statement.tally w := by
          rw [Node.tally_mk]
          simp [Kind.ownName?, Kind.form, Kind.children]
        refine Nat.le_add_right_of_le (Nat.le_trans le ?_)
        rw [labeled, Nat.add_comm]
        rfl
      · have notUsed := (new name isName).1
        rw [Node.uses_iff] at notUsed
        simpa [Node.children, Node.kind, Kind.children, Kind.ownName?, statement, and_comm] using notUsed
    | plain node plain =>
      obtain ⟨-, parts, same, answer, allots, each⟩ := Node.rebuild_traced
        NameSupply.isTrace_allots (I := fun _ => True) (f := fun child => lowerAt child none)
        (R := fun child allotments result => ∃ below root, allotments = below ++ root ∧
          Houses child none below root result) node
        (fun child mem s _ => by
          obtain ⟨below, root, allots, houses⟩ := ih child mem none s
          exact ⟨trivial, _, allots, below, root, rfl, houses⟩) s trivial
      have houses := houses_plain plain label same each (NameSupply.Gives.nodup allots)
      rw [← answer] at houses
      rw [lowerAt_plain plain]
      exact ⟨_, [], by rwa [List.append_nil], houses⟩

end ForIn

end Resumable
