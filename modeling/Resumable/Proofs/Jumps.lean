import Mathlib.Data.List.Perm.Basic
import Resumable.Proofs.ScopeEdits

/-!
# Where labelled jumps can aim

A `break` aims at a label of a statement in which it stands, and a `continue` at one that is on a loop,
directly or with other labels between.  `Node.jumps` lists the labelled jumps of a scope with the labels
around each.  Lowering the for-in loops of the scope keeps the jumps, but not the labels
(`jumps_lowerAt`): the label right before a loop goes to the walk over the keys, and any other label is
left on a block.  So a jump finds its label no more if the labels at which it aimed are all of that
sort, and exactly then (`lower_jumps_iff`).
-/

namespace Resumable

/-- A statement that repeats. -/
def Form.isLoop : Form → Bool
  | .whileStatement | .doWhileStatement | .forStatement | .forInStatement | .forEachStatement => true
  | _ => false

/-- What a label is on, directly or with other labels between. -/
inductive Anchor where
  /-- A statement that does not repeat. -/
  | statement
  /-- A loop, but not one over keys. -/
  | loop
  /-- A loop over the keys of an object. The label stands right before the loop or not, and the jump
  stands in the expression for the object or not. -/
  | keyLoop (isInnermost inObject : Bool)
  deriving DecidableEq

/-- The label is on a loop. -/
def Anchor.isLoop : Anchor → Bool
  | .statement => false
  | _ => true

/-- A label as it is seen from a jump inside. -/
structure Label where
  name : String
  anchor : Anchor
  deriving DecidableEq

/-- A `break` or a `continue` with a label. -/
structure Jump where
  isContinue : Bool
  target : String
  span : Span
  /-- The labels of the statements around it, inner ones first. -/
  labels : List Label
  deriving DecidableEq

/-- What the labels right before a statement are on. -/
def Form.anchor (form : Form) (isInnermost inObject : Bool) : Anchor :=
  if form = .forInStatement then .keyLoop isInnermost inObject
  else if form.isLoop then .loop
  else .statement

/-- The labels right before a statement, inner ones first. -/
def Form.labels (form : Form) (inObject : Bool) : List String → List Label
  | [] => []
  | innermost :: outer =>
    ⟨innermost, form.anchor true inObject⟩ :: outer.map fun name => ⟨name, form.anchor false inObject⟩

/-- The form is neither a function, nor a label, nor a loop over keys. -/
def Form.isOrdinary (form : Form) : Bool :=
  !form.isFunctionScope && form != .labeledStatement && form != .forInStatement

namespace Jump

/-- The label is one at which the jump can aim. -/
def aimsAt (jump : Jump) (label : Label) : Bool :=
  label.name == jump.target && (!jump.isContinue || label.anchor.isLoop)

/-- The jump stands in a statement with its label, which is on a loop if the jump is a `continue`. -/
def finds (jump : Jump) : Bool := jump.labels.any jump.aimsAt

/-- A `break` in a statement with its label. -/
def isBoundBreak (jump : Jump) : Bool := !jump.isContinue && jump.finds

/-- Where a jump stands and where it goes. -/
def place (jump : Jump) : Span × String := (jump.span, jump.target)

end Jump

namespace Node

/-- The node itself as a jump. -/
def jump? (labels : List Label) (node : Node) : Option Jump :=
  match node.kind with
  | .breakStatement (some target) => some ⟨false, target, node.span, labels⟩
  | .continueStatement (some target) => some ⟨true, target, node.span, labels⟩
  | _ => none

/-- The labelled jumps of a function's own scope, where some labels stand right before the node and
others around them. Under `loopsLowered` those are left out that lowering its for-in loops drops. -/
def jumps (loopsLowered : Bool) (node : Node) : List String → List Label → List Jump :=
  node.para fun node parts before around =>
    if node.isFunctionScope then []
    else match parts with
      | .labeledStatement name statement => statement.2 (name :: before) around
      | .forInStatement initializer expression body =>
        let inLoop := Form.forInStatement.labels false before ++ around
        let inObject := Form.forInStatement.labels true before ++ around
        (if dropsInitializer loopsLowered initializer.1 then [] else initializer.2 [] inLoop) ++
          (expression.2 [] inObject ++ body.2 [] inLoop)
      | parts =>
        let inside := node.form.labels false before ++ around
        (node.jump? inside).toList ++ parts.children.flatMap fun part => part.2 [] inside

variable {node : Node} {loopsLowered : Bool} {before : List String} {around : List Label}

theorem jumps_scope (scope : node.isFunctionScope = true) :
    node.jumps loopsLowered before around = [] := by
  rw [jumps, para_eq, if_pos scope]

theorem jumps_labeled (span : Span) (name : String) (statement : Node) :
    jumps loopsLowered ⟨span, .labeledStatement name statement⟩ before around =
      statement.jumps loopsLowered (name :: before) around := by
  rw [jumps, para_eq]
  rfl

theorem jumps_forIn (span : Span) (initializer expression body : Node) :
    jumps loopsLowered ⟨span, .forInStatement initializer expression body⟩ before around =
      (if dropsInitializer loopsLowered initializer then []
        else initializer.jumps loopsLowered [] (Form.forInStatement.labels false before ++ around)) ++
      (expression.jumps loopsLowered [] (Form.forInStatement.labels true before ++ around) ++
        body.jumps loopsLowered [] (Form.forInStatement.labels false before ++ around)) := by
  rw [jumps, para_eq]
  rfl

theorem jumps_mk (span : Span) {kind : Kind Node} (ordinary : kind.form.isOrdinary = true) :
    jumps loopsLowered ⟨span, kind⟩ before around =
      (jump? (kind.form.labels false before ++ around) ⟨span, kind⟩).toList ++
        kind.children.flatMap fun child =>
          child.jumps loopsLowered [] (kind.form.labels false before ++ around) := by
  let inside := kind.form.labels false before ++ around
  have below : ((kind.map fun child => (child, child.jumps loopsLowered)).children.flatMap
      fun part => part.2 [] inside) =
      kind.children.flatMap fun child => child.jumps loopsLowered [] inside := by
    rw [Kind.children_map, List.flatMap_map]
  rw [jumps, para_eq]
  cases kind
  case labeledStatement | forInStatement => cases ordinary
  case functionDeclaration | functionExpression | getAccessorDeclaration | setAccessorDeclaration =>
    cases ordinary
  all_goals exact congrArg (_ ++ ·) below

/-- A node is a function scope, a label, a loop over keys, or none of these. -/
theorem cases_label {motive : Node → Prop} (node : Node)
    (scope : ∀ node : Node, node.isFunctionScope = true → motive node)
    (labeled : ∀ span name statement, motive ⟨span, .labeledStatement name statement⟩)
    (keyLoop : ∀ span initializer expression body,
      motive ⟨span, .forInStatement initializer expression body⟩)
    (ordinary : ∀ span kind, kind.form.isOrdinary = true → motive ⟨span, kind⟩) : motive node := by
  obtain ⟨span, kind⟩ := node
  cases kind
  case labeledStatement => exact labeled _ _ _
  case forInStatement => exact keyLoop _ _ _ _
  case functionDeclaration | functionExpression | getAccessorDeclaration | setAccessorDeclaration =>
    exact scope _ rfl
  all_goals exact ordinary _ _ rfl

theorem jumps_subset (node : Node) (before : List String) (around : List Label) :
    node.jumps true before around ⊆ node.jumps false before around := by
  induction node using inductionOn generalizing before around with
  | step node ih =>
    cases node using cases_label with
    | scope node scope => rw [jumps_scope scope]; exact List.nil_subset _
    | labeled span name statement =>
      rw [jumps_labeled, jumps_labeled]
      exact ih statement (.head _) _ _
    | keyLoop span initializer expression body =>
      have ofInitializer := ih initializer (.head _)
      have ofExpression := ih expression (.tail _ (.head _))
      have ofBody := ih body (.tail _ (.tail _ (.head _)))
      have kept : dropsInitializer false initializer = false := rfl
      rw [jumps_forIn, jumps_forIn, kept]
      intro jump mem
      simp only [List.mem_append, Bool.false_eq_true, if_false] at mem ⊢
      rcases mem with inInitializer | inExpression | inBody
      · refine .inl (ofInitializer _ _ ?_)
        split at inInitializer
        · cases inInitializer
        · exact inInitializer
      · exact .inr (.inl (ofExpression _ _ inExpression))
      · exact .inr (.inr (ofBody _ _ inBody))
    | ordinary span kind ordinary =>
      rw [jumps_mk span ordinary, jumps_mk span ordinary]
      intro jump mem
      rcases List.mem_append.1 mem with itself | below
      · exact List.mem_append_left _ itself
      · obtain ⟨child, isChild, mem⟩ := List.mem_flatMap.1 below
        exact List.mem_append_right _ (List.mem_flatMap.2 ⟨child, isChild, ih child isChild _ _ mem⟩)

end Node

/-! ## What lowering does to labels -/

/-- What is left of a label for a jump inside, once the loops over keys are lowered. The label right
before such a loop goes to the walk, and the object is evaluated before that. Any other label of the
loop is left on the block. -/
def Label.lowered : Label → Option Label
  | ⟨_, .keyLoop true true⟩ => none
  | ⟨name, .keyLoop true false⟩ => some ⟨name, .loop⟩
  | ⟨name, .keyLoop false _⟩ => some ⟨name, .statement⟩
  | label => some label

/-- The jump as it stands in the lowered scope. -/
def Jump.lowered (jump : Jump) : Jump :=
  { jump with labels := jump.labels.filterMap Label.lowered }

/-- The label still serves jumps of that sort: a `continue` needs the walk over the keys, and a `break`
the walk or the block. -/
def Label.stays (isContinue : Bool) (label : Label) : Bool :=
  match label.anchor with
  | .keyLoop isInnermost inObject =>
    if isContinue then isInnermost && !inObject else !isInnermost || !inObject
  | _ => true

/-- The jump finds its label, but none of the labels at which it can aim still serves it once the loops
over keys are lowered. -/
def Jump.isStranded (jump : Jump) : Bool :=
  jump.finds && !jump.labels.any fun label => jump.aimsAt label && label.stays jump.isContinue

namespace Jump

/-- What a lowered jump finds is a label that still serves it. -/
theorem finds_lowered (jump : Jump) :
    jump.lowered.finds =
      jump.labels.any fun label => jump.aimsAt label && label.stays jump.isContinue := by
  rw [finds, lowered, List.any_filterMap]
  congr 1
  funext label
  obtain ⟨name, anchor⟩ := label
  obtain ⟨isContinue, target, span, labels⟩ := jump
  cases isContinue <;> cases anchor
  case false.keyLoop isInnermost inObject | true.keyLoop isInnermost inObject =>
    cases isInnermost <;> cases inObject <;> simp [Label.lowered, Label.stays, aimsAt, Anchor.isLoop]
  all_goals simp [Label.lowered, Label.stays, aimsAt]

theorem finds_of_lowered (jump : Jump) (found : jump.lowered.finds = true) : jump.finds = true := by
  rw [finds_lowered] at found
  obtain ⟨label, mem, aims⟩ := List.any_eq_true.1 found
  exact List.any_eq_true.2 ⟨label, mem, (Bool.and_eq_true_iff.1 aims).1⟩

theorem isBoundBreak_of_lowered (jump : Jump) (bound : jump.lowered.isBoundBreak = true) :
    jump.isBoundBreak = true := by
  obtain ⟨isBreak, found⟩ := Bool.and_eq_true_iff.1 bound
  exact Bool.and_eq_true_iff.2 ⟨isBreak, jump.finds_of_lowered found⟩

theorem isStranded_eq_false_iff (jump : Jump) :
    jump.isStranded = false ↔ (jump.finds = true → jump.lowered.finds = true) := by
  rw [isStranded, ← finds_lowered]
  cases jump.finds <;> simp

end Jump

theorem Node.jump?_lowered (labels : List Label) (node : Node) :
    (node.jump? labels).map Jump.lowered = node.jump? (labels.filterMap Label.lowered) := by
  unfold jump?
  split <;> rfl

theorem Node.jump?_kind_map {α : Type} (f g : α → Node) (labels : List Label) (span : Span)
    (kind : Kind α) : jump? labels ⟨span, kind.map f⟩ = jump? labels ⟨span, kind.map g⟩ := by
  cases kind <;> rfl

/-- The labels of other statements are kept. -/
theorem Form.filterMap_lowered_labels {form : Form} (other : form ≠ .forInStatement) (inObject : Bool)
    (before : List String) :
    (form.labels inObject before).filterMap Label.lowered = form.labels inObject before := by
  have kept (name : String) (isInnermost : Bool) :
      Label.lowered ⟨name, form.anchor isInnermost inObject⟩ =
        some ⟨name, form.anchor isInnermost inObject⟩ := by
    rw [Form.anchor, if_neg other]
    split <;> rfl
  cases before with
  | nil => rfl
  | cons innermost outer => simp [labels, kept]

/-- Of the labels of a loop over keys, the innermost goes to the walk and the others to the block. -/
theorem Form.filterMap_lowered_keyLoop (label : Option String) {before : List String}
    (unlabeled : label = none → before = []) (inObject : Bool) :
    (Form.forInStatement.labels inObject (label.toList ++ before)).filterMap Label.lowered =
      (if inObject then [] else Form.forStatement.labels false label.toList) ++
        Form.block.labels false before := by
  have onBlock : Form.block.labels false before = before.map fun name => ⟨name, .statement⟩ := by
    cases before <;> rfl
  have outer : (before.map fun name => (⟨name, .keyLoop false inObject⟩ : Label)).filterMap
      Label.lowered = before.map fun name => ⟨name, .statement⟩ := by
    rw [List.filterMap_map, ← List.filterMap_eq_map]
    rfl
  cases label with
  | none =>
    rw [unlabeled rfl]
    cases inObject <;> rfl
  | some innermost =>
    rw [onBlock, ← outer]
    cases inObject <;> rfl

/-- A stronger condition selects the same of a list only if all that the weaker one selects meets
it. -/
theorem perm_map_filter_iff {α β : Type} {p q : α → Bool} (weaker : ∀ a, p a = true → q a = true)
    (f : α → β) (l : List α) :
    ((l.filter p).map f).Perm ((l.filter q).map f) ↔ ∀ a ∈ l, q a = true → p a = true := by
  constructor
  · intro same a mem meets
    have lengths := same.length_eq
    rw [List.length_map, List.length_map] at lengths
    have all := (List.monotone_filter_right l weaker).eq_of_length lengths
    exact (List.mem_filter.1 (all ▸ List.mem_filter.2 ⟨mem, meets⟩)).2
  · intro all
    rw [List.filter_congr fun a mem => Bool.eq_iff_iff.2 ⟨weaker a, all a mem⟩]

namespace ForIn

open Build

theorem jumps_statements (body : Node) (around : List Label) :
    (body.statements.flatMap fun statement => statement.jumps false [] around) =
      body.jumps false [] around := by
  obtain ⟨span, kind⟩ := body
  cases kind
  case block | program =>
    simp [Node.statements, Node.kind, Node.jumps_mk, Kind.form, Form.isFunctionScope,
      Form.isFunctionLike, Kind.children, Node.jump?, Form.labels, Form.isOrdinary]
  all_goals exact List.append_nil _

theorem jumps_loop (names : Names) (label : Option String) (span : Span)
    (initializer expression body : Node) (before : List String) (around : List Label) :
    (loop names label span initializer expression body).jumps false before around =
      expression.jumps false [] (Form.block.labels false before ++ around) ++
        ((if (declaredVariable? initializer).isSome then []
          else initializer.jumps false [] (Form.forStatement.labels false label.toList ++
            (Form.block.labels false before ++ around))) ++
          body.jumps false [] (Form.forStatement.labels false label.toList ++
            (Form.block.labels false before ++ around))) := by
  rw [← jumps_statements body]
  cases label <;> cases declares : declaredVariable? initializer <;>
    simp [declares, loop, Names.collectKeys, Names.walkKeys, Names.skipDeleted, Names.currentKey,
      labeledStatement, forInStatement, forStatement, ifStatement, continueStatement, block,
      expressionStatement, assignmentStatement, variableStatement, variableDeclaration, bindVariable,
      methodCall, call, array, number, identifier, element, Build.property, Build.not, unary, binary,
      assignment, postfixIncrement, Node.synthetic, Node.jumps_mk, Node.jumps_labeled,
      Node.jumps_forIn, Node.jump?, Node.kind, Node.dropsInitializer, Kind.form, Kind.children,
      Form.labels, Form.isOrdinary, Form.isFunctionScope, Form.isFunctionLike]

/-- A rebuilt node keeps its jumps if its children do. -/
theorem jumps_rebuilt {node : Node} (plain : IsPlain node) {results : Kind (Node × Option Node)}
    (same : results.map Prod.fst = node.kind)
    (each : ∀ result ∈ results.children, ∀ before around,
      (result.1.form = .forInStatement → before = []) →
      ((result.2.getD result.1).jumps false before (around.filterMap Label.lowered)).Perm
        ((result.1.jumps true before around).map Jump.lowered))
    (before : List String) (around : List Label) :
    (Node.jumps false ⟨node.span, results.map fun result => result.2.getD result.1⟩ before
        (around.filterMap Label.lowered)).Perm
      ((node.jumps true before around).map Jump.lowered) := by
  cases node using Node.cases_label with
  | scope node scope => exact absurd scope (Bool.eq_false_iff.1 plain.1)
  | keyLoop => exact absurd rfl plain.2.1
  | labeled span name statement =>
    -- The label is one more before its statement, which is no loop over keys.
    cases results <;> try cases same
    rename_i result
    have notLoop : result.1.form ≠ .forInStatement := plain.2.2 name result.1 rfl
    rw [Node.jumps_labeled]
    exact (Node.jumps_labeled _ _ _).symm ▸
      each result (.head _) (name :: before) around fun isLoop => absurd isLoop notLoop
  | ordinary span kind ordinary =>
    obtain rfl : results.map Prod.fst = kind := same
    have notLoop : results.form ≠ .forInStatement := by
      rintro isLoop
      rw [Kind.form_map, isLoop] at ordinary
      cases ordinary
    let inside := results.form.labels false before ++ around
    have labels : results.form.labels false before ++ around.filterMap Label.lowered =
        inside.filterMap Label.lowered := by
      rw [List.filterMap_append, Form.filterMap_lowered_labels notLoop]
    have ordinary' : (results.map fun result => result.2.getD result.1).form.isOrdinary = true := by
      rwa [Kind.form_map] at ordinary ⊢
    have itself : (Node.jump? (inside.filterMap Label.lowered)
        ⟨span, results.map fun result => result.2.getD result.1⟩).toList =
        (Node.jump? inside ⟨span, results.map Prod.fst⟩).toList.map Jump.lowered := by
      rw [Node.jump?_kind_map _ Prod.fst, ← Node.jump?_lowered, Option.toList_map]
    rw [Node.jumps_mk span ordinary, Node.jumps_mk _ ordinary']
    simp only [Kind.form_map, Kind.children_map, List.flatMap_map, labels, List.map_append,
      List.map_flatMap]
    exact .append (.of_eq itself)
      (.flatMap_left _ fun result mem => each result mem [] inside fun _ => rfl)

/-- The parts of a loop over keys keep their jumps, though not in their order. -/
theorem jumps_lowerAt_forIn {initializer expression body : Node} (span : Span) (label : Option String)
    (before : List String) (around : List Label) (unlabeled : label = none → before = [])
    (s : NameSupply)
    (part : ∀ child ∈ Node.children ⟨span, .forInStatement initializer expression body⟩, ∀ around s,
      ((((lowerAt child none).run s).1.getD child).jumps false []
        (around.filterMap Label.lowered)).Perm ((child.jumps true [] around).map Jump.lowered)) :
    ((((lowerAt ⟨span, .forInStatement initializer expression body⟩ label).run s).1.getD
        ⟨span, .forInStatement initializer expression body⟩).jumps false before
        (around.filterMap Label.lowered)).Perm
      ((Node.jumps true ⟨span, .forInStatement initializer expression body⟩
        (label.toList ++ before) around).map Jump.lowered) := by
  let outside := Form.block.labels false before ++ around.filterMap Label.lowered
  let inLoop := Form.forInStatement.labels false (label.toList ++ before) ++ around
  let inObject := Form.forInStatement.labels true (label.toList ++ before) ++ around
  have inLoopLowered :
      inLoop.filterMap Label.lowered = Form.forStatement.labels false label.toList ++ outside := by
    rw [List.filterMap_append, Form.filterMap_lowered_keyLoop label unlabeled, List.append_assoc]
    rfl
  have inObjectLowered : inObject.filterMap Label.lowered = outside := by
    rw [List.filterMap_append, Form.filterMap_lowered_keyLoop label unlabeled]
    rfl
  let first := (lowerAt initializer none).run s
  let second := (lowerAt expression none).run first.2
  have keepsInitializer := part initializer (.head _) inLoop s
  have keepsExpression := part expression (.tail _ (.head _)) inObject first.2
  have keepsBody := part body (.tail _ (.tail _ (.head _))) inLoop second.2
  rw [inLoopLowered] at keepsInitializer keepsBody
  rw [inObjectLowered] at keepsExpression
  rw [run_lowerAt_forIn, Option.getD_some, jumps_loop, declaredVariable?_lowerAt, Node.jumps_forIn]
  cases declares : declaredVariable? initializer with
  | some name =>
    simpa [Node.dropsInitializer, declares] using keepsExpression.append keepsBody
  | none =>
    -- The initializer is assigned in the walk, after the object was evaluated.
    have all := (keepsExpression.append (keepsInitializer.append keepsBody)).trans
      (List.perm_append_comm_assoc _ _ _)
    simpa [Node.dropsInitializer, declares] using all

/-- Lowering the for-in loops of a scope keeps the jumps, apart from those in an initializer that
declares the loop variable, and leaves each the labels that it still has. -/
theorem jumps_lowerAt (node : Node) (label : Option String) (before : List String)
    (around : List Label) (onLoop : label ≠ none → node.form = .forInStatement)
    (unlabeled : node.form = .forInStatement → label = none → before = []) (s : NameSupply) :
    ((((lowerAt node label).run s).1.getD node).jumps false before
        (around.filterMap Label.lowered)).Perm
      ((node.jumps true (label.toList ++ before) around).map Jump.lowered) := by
  induction node using Node.inductionOn generalizing label before around s with
  | step node ih =>
    cases node using cases_node with
    | scope node scope =>
      rw [lowerAt_scope scope, Node.jumps_scope scope]
      exact .of_eq (Node.jumps_scope scope)
    | loop span initializer expression body =>
      exact jumps_lowerAt_forIn span label before around (unlabeled rfl) s fun child mem around s =>
        ih child mem none [] around (fun has => absurd rfl has) (fun _ _ => rfl) s
    | labeled span inner statement isLoop =>
      obtain rfl : label = none := by
        by_contra has
        cases onLoop has
      -- The label goes with the loop, as the innermost of the labels before it.
      have lowered := ih statement (.head _) (some inner) before around (fun _ => isLoop)
        (fun _ isNone => absurd isNone (Option.some_ne_none inner)) s
      obtain ⟨span', kind⟩ := statement
      cases kind <;> try cases isLoop
      rw [run_lowerAt_forIn, Option.getD_some] at lowered
      rw [lowerAt_labeled rfl, run_lowerAt_forIn, Option.getD_some, Node.jumps_labeled]
      exact lowered
    | plain node plain =>
      obtain rfl : label = none := by
        by_contra has
        exact plain.2.1 (onLoop has)
      obtain ⟨results, same, answer, related⟩ := Node.rebuild_each
        (f := fun child => lowerAt child none)
        (R := fun child result => ∀ before around, (child.form = .forInStatement → before = []) →
          ((result.getD child).jumps false before (around.filterMap Label.lowered)).Perm
            ((child.jumps true before around).map Jump.lowered)) node
        (fun child mem s before around unlabeled =>
          ih child mem none before around (fun has => absurd rfl has)
            (fun isLoop _ => unlabeled isLoop) s) s
      rw [lowerAt_plain plain, answer, Node.assemble_getD same]
      exact jumps_rebuilt plain same related before around

/-- Labelled jumps stay valid, unless a loop over keys has taken their label.  In a scope in which every
`continue` stands in a loop with its label, this is so again after lowering the for-in loops, and every
`break` that stood in a statement with its label still does, exactly if no jump is stranded. -/
theorem lower_jumps_iff (tree : Node) (names : NameSupply)
    (bound : ∀ jump ∈ tree.jumps false [] [], jump.isContinue = true → jump.finds = true) :
    let lowered := ((lower tree).run names).1.getD tree
    ((∀ jump ∈ lowered.jumps false [] [], jump.isContinue = true → jump.finds = true) ∧
      (((lowered.jumps false [] []).filter Jump.isBoundBreak).map Jump.place).Perm
        (((tree.jumps true [] []).filter Jump.isBoundBreak).map Jump.place)) ↔
      ∀ jump ∈ tree.jumps true [] [], jump.isStranded = false := by
  intro lowered
  have same : (lowered.jumps false [] []).Perm ((tree.jumps true [] []).map Jump.lowered) :=
    jumps_lowerAt tree none [] [] (fun has => absurd rfl has) (fun _ _ => rfl) names
  let kept := tree.jumps true [] []
  have continues : (∀ jump ∈ lowered.jumps false [] [], jump.isContinue = true → jump.finds = true) ↔
      ∀ jump ∈ kept, jump.isContinue = true → jump.lowered.finds = true := by
    simp only [same.mem_iff, List.forall_mem_map]
    rfl
  have found : (((lowered.jumps false [] []).filter Jump.isBoundBreak).map Jump.place).Perm
      ((kept.filter fun jump => jump.lowered.isBoundBreak).map Jump.place) := by
    have placed := (same.filter Jump.isBoundBreak).map Jump.place
    rwa [List.filter_map, List.map_map] at placed
  have breaks := (List.Perm.congr_left found ((kept.filter Jump.isBoundBreak).map Jump.place)).trans
    (perm_map_filter_iff Jump.isBoundBreak_of_lowered Jump.place kept)
  rw [continues, breaks]
  constructor
  · rintro ⟨continuesFind, breaksFind⟩ jump mem
    refine jump.isStranded_eq_false_iff.2 fun finds => ?_
    cases isContinue : jump.isContinue with
    | true => exact continuesFind jump mem isContinue
    | false =>
      have isBreak : jump.isBoundBreak = true := by simp [Jump.isBoundBreak, isContinue, finds]
      exact (Bool.and_eq_true_iff.1 (breaksFind jump mem isBreak)).2
  · intro calm
    have stays (jump : Jump) (mem : jump ∈ kept) := jump.isStranded_eq_false_iff.1 (calm jump mem)
    refine ⟨fun jump mem isContinue => ?_, fun jump mem isBreak => ?_⟩
    · exact stays jump mem (bound jump (Node.jumps_subset tree [] [] mem) isContinue)
    · obtain ⟨isBreak, finds⟩ := Bool.and_eq_true_iff.1 isBreak
      exact Bool.and_eq_true_iff.2 ⟨isBreak, stays jump mem finds⟩

/-- The statement `a: while (c) b: for (k in o) { continue a; break b; }`. -/
def labeledLoops : Node :=
  let jumps := block [Node.synthetic (.continueStatement (some "a")),
    Node.synthetic (.breakStatement (some "b"))]
  let inner := labeledStatement "b" (forInStatement (identifier "k") (identifier "o") jumps)
  labeledStatement "a" (Node.synthetic (.whileStatement (identifier "c") inner))

theorem labeledLoops_valid :
    let names := Options.standard.nameSupply
    let lowered := ((lower labeledLoops).run names).1.getD labeledLoops
    (∀ jump ∈ labeledLoops.jumps false [] [], jump.isContinue = true → jump.finds = true) ∧
      (∀ jump ∈ lowered.jumps false [] [], jump.isContinue = true → jump.finds = true) ∧
      (((lowered.jumps false [] []).filter Jump.isBoundBreak).map Jump.place).Perm
        [(.synthetic, "b")] := by
  intro names lowered
  have bound : ∀ jump ∈ labeledLoops.jumps false [] [],
      jump.isContinue = true → jump.finds = true := by decide
  have calm : ∀ jump ∈ labeledLoops.jumps true [] [], jump.isStranded = false := by decide
  have valid := (lower_jumps_iff labeledLoops names bound).2 calm
  exact ⟨bound, valid.1, valid.2⟩

/-- The statement `a: b: for (k in o) { continue a; }`. -/
def twiceLabeled : Node :=
  labeledStatement "a" (labeledStatement "b" (forInStatement (identifier "k") (identifier "o")
    (block [Node.synthetic (.continueStatement (some "a"))])))

/-- Its outer label is left on the block, which is no loop. -/
theorem twiceLabeled_stranded :
    let names := Options.standard.nameSupply
    let lowered := ((lower twiceLabeled).run names).1.getD twiceLabeled
    (∀ jump ∈ twiceLabeled.jumps false [] [], jump.isContinue = true → jump.finds = true) ∧
      lowered.jumps false [] [] =
        [⟨true, "a", .synthetic, [⟨"b", .loop⟩, ⟨"a", .statement⟩]⟩] ∧
      ¬ ∀ jump ∈ lowered.jumps false [] [], jump.isContinue = true → jump.finds = true := by
  intro names lowered
  have bound : ∀ jump ∈ twiceLabeled.jumps false [] [],
      jump.isContinue = true → jump.finds = true := by decide
  have after : lowered.jumps false [] [] =
      [⟨true, "a", .synthetic, [⟨"b", .loop⟩, ⟨"a", .statement⟩]⟩] :=
    List.perm_singleton.1 (jumps_lowerAt twiceLabeled none [] [] (fun has => absurd rfl has)
      (fun _ _ => rfl) names)
  refine ⟨bound, after, ?_⟩
  rw [after]
  decide

end ForIn

end Resumable
