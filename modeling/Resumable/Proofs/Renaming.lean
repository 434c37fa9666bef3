import Resumable.Proofs.FreshNames
import Resumable.Proofs.ScopeEdits

/-!
# Renaming

`Node.rename` gives new names to all that a tree uses or binds, and nothing else changes: the new
tree has the forms and the spans of the old one, suspends where that suspends (`of_rename`), and what
the lowering builds from renamed parts is what it builds from the parts, renamed (`rename_loop`).
Only the names that a tree uses matter (`rename_congr`).
-/

namespace Resumable

variable {α β : Type} {f g : String → String}

namespace Kind

/-- The kind with another name, where it has one of its own. -/
def rename (f : String → String) : Kind α → Kind α
  | .identifier name => .identifier (f name)
  | .variableDeclaration name initializer => .variableDeclaration (f name) initializer
  | .classDeclaration name members => .classDeclaration (f name) members
  | .catchClause binding body => .catchClause (f binding) body
  | .labeledStatement label statement => .labeledStatement (f label) statement
  | .functionDeclaration name? isStatic parameters body =>
    .functionDeclaration (name?.map f) isStatic parameters body
  | .functionExpression name? parameters body isGenerator =>
    .functionExpression (name?.map f) parameters body isGenerator
  | .asyncSuspensionStatement binding? expression =>
    .asyncSuspensionStatement (binding?.map f) expression
  | kind => kind

@[simp] theorem form_rename (kind : Kind α) : (kind.rename f).form = kind.form := by
  cases kind <;> rfl

@[simp] theorem children_rename (kind : Kind α) : (kind.rename f).children = kind.children := by
  cases kind <;> rfl

theorem rename_map (h : α → β) (kind : Kind α) : (kind.map h).rename f = (kind.rename f).map h := by
  cases kind <;> rfl

theorem rename_rename (kind : Kind α) : (kind.rename f).rename g = kind.rename (g ∘ f) := by
  cases kind <;> simp [rename]

theorem rename_congr {kind : Kind α} (same : ∀ name ∈ kind.ownName?, f name = g name) :
    kind.rename f = kind.rename g := by
  have option {name? : Option String} (same : ∀ name ∈ name?, f name = g name) :
      name?.map f = name?.map g := Option.map_congr same
  cases kind <;> simp_all [rename, ownName?]

theorem rename_id (kind : Kind α) : kind.rename id = kind := by
  cases kind <;> simp [rename]

theorem traverse_rename {m : Type → Type} [Monad m] [LawfulMonad m] (act : α → m β) (kind : Kind α) :
    (kind.rename f).traverse act = rename f <$> kind.traverse act := by
  cases kind <;> simp [rename, traverse]

end Kind

namespace Node

/-- The tree with other names. -/
def rename (f : String → String) (node : Node) : Node :=
  node.para fun node parts => ⟨node.span, (parts.map (·.2)).rename f⟩

theorem rename_eq (node : Node) :
    node.rename f = ⟨node.span, (node.kind.map (rename f)).rename f⟩ := by
  rw [rename, para_eq, Kind.map_map]
  rfl

theorem rename_mk (span : Span) (kind : Kind Node) :
    rename f ⟨span, kind⟩ = ⟨span, (kind.map (rename f)).rename f⟩ := rename_eq _

/-! ## What is kept -/

@[simp] theorem span_rename (node : Node) : (node.rename f).span = node.span := by
  rw [rename_eq]
  rfl

@[simp] theorem form_rename (node : Node) : (node.rename f).form = node.form := by
  rw [rename_eq]
  simp [form, kind]

theorem kind_rename (node : Node) : (node.rename f).kind = (node.kind.map (rename f)).rename f := by
  rw [rename_eq]
  rfl

@[simp] theorem children_rename (node : Node) : (node.rename f).children = node.children.map (rename f) := by
  simp [children, kind_rename]

@[simp] theorem isFunctionLike_rename (node : Node) :
    (node.rename f).isFunctionLike = node.isFunctionLike := by
  simp [isFunctionLike]

@[simp] theorem isFunctionScope_rename (node : Node) :
    (node.rename f).isFunctionScope = node.isFunctionScope := by
  simp [isFunctionScope]

theorem ownScope_rename (node : Node) : (node.rename f).ownScope = node.ownScope.map (rename f) := by
  induction node using inductionOn with
  | step node ih =>
    rw [ownScope_eq, ownScope_eq node, isFunctionScope_rename]
    split
    · rfl
    · rw [children_rename, List.map_cons, List.flatMap_map, List.map_flatMap]
      exact congrArg _ (List.flatMap_congr ih)

theorem body?_rename (node : Node) : (node.rename f).body? = node.body?.map (rename f) := by
  obtain ⟨span, kind⟩ := node
  cases kind <;> rfl

theorem rename_withBody (node body : Node) :
    (node.withBody body).rename f = (node.rename f).withBody (body.rename f) := by
  obtain ⟨span, kind⟩ := node
  cases kind <;> rfl

theorem statements_rename (node : Node) :
    (node.rename f).statements = node.statements.map (rename f) := by
  obtain ⟨span, kind⟩ := node
  rw [rename_mk]
  cases kind
  case block | program => rfl
  all_goals simp [statements, Node.kind, Kind.map, Kind.rename, rename_mk]

/-! ## Which names matter -/

theorem rename_congr {node : Node} (same : ∀ name, node.uses name → f name = g name) :
    node.rename f = node.rename g := by
  induction node using inductionOn with
  | step node ih =>
    have own : ∀ name ∈ node.kind.ownName?, f name = g name := fun name isOwn =>
      same name ((uses_iff node name).2 (.inl isOwn))
    have below : node.kind.map (rename f) = node.kind.map (rename g) :=
      Kind.map_congr _ fun child mem => ih child mem fun name used => same name (uses_of_child mem used)
    rw [rename_eq, rename_eq node, below]
    congr 1
    exact Kind.rename_congr (by rwa [Kind.ownName?_map])

theorem rename_id (node : Node) : node.rename id = node := by
  induction node using inductionOn with
  | step node ih =>
    have below : node.kind.map (rename id) = node.kind :=
      (Kind.map_congr _ ih).trans (Kind.map_id' _)
    rw [rename_eq, Kind.rename_id, below]
    cases node
    rfl

/-- A tree that uses none of the names that are changed stays as it is. -/
theorem rename_of_fixed {node : Node} (fixed : ∀ name, node.uses name → f name = name) :
    node.rename f = node :=
  (rename_congr fixed).trans node.rename_id

theorem rename_rename (node : Node) : (node.rename f).rename g = node.rename (g ∘ f) := by
  induction node using inductionOn with
  | step node ih =>
    have below : (node.kind.map (rename f)).map (rename g) = node.kind.map (rename (g ∘ f)) := by
      rw [Kind.map_map]
      exact Kind.map_congr _ ih
    rw [rename_eq node, rename_mk, ← Kind.rename_map, Kind.rename_rename, below, ← rename_eq]

end Node

/-! ## Facts -/

namespace Facts

theorem note_rename (node : Node) (facts : Facts) : note (node.rename f) facts = note node facts := by
  obtain ⟨span, kind⟩ := node
  rw [Node.rename_mk]
  cases kind <;> rfl

theorem of_rename (body : Node) : Facts.of (body.rename f) = Facts.of body := by
  rw [of_eq_scan, of_eq_scan, scan, scan, Node.ownScope_rename, List.foldl_map]
  simp only [note_rename]

end Facts

/-! ## What is built -/

open Build

theorem variableName?_rename (node : Node) : variableName? (node.rename f) = (variableName? node).map f := by
  obtain ⟨span, kind⟩ := node
  rw [Node.rename_mk]
  cases kind <;> rfl

theorem declaredVariable?_rename (node : Node) :
    declaredVariable? (node.rename f) = (declaredVariable? node).map f := by
  obtain ⟨span, kind⟩ := node
  rw [Node.rename_mk]
  cases kind
  case variableStatement declarations =>
    cases declarations with
    | nil => rfl
    | cons first rest =>
      rw [declaredVariable?_cons, ← variableName?_rename]
      exact declaredVariable?_cons _ _ _
  all_goals rfl

theorem rename_bindVariable (initializer value : Node) :
    (bindVariable initializer value).rename f = bindVariable (initializer.rename f) (value.rename f) := by
  unfold bindVariable
  rw [declaredVariable?_rename]
  cases declaredVariable? initializer <;>
    simp [variableStatement, variableDeclaration, assignmentStatement, expressionStatement,
      assignment, binary, Node.synthetic, Node.rename_mk, Kind.map, Kind.rename]

namespace ForEach

theorem rename_loop (getIterator iterator step : String) (span : Span)
    (initializer expression body : Node) :
    (loop getIterator iterator step span initializer expression body).rename f =
      loop (f getIterator) (f iterator) (f step) span (initializer.rename f) (expression.rename f)
        (body.rename f) := by
  simp [loop, next, methodCall, call, property, identifier, variableStatement, variableDeclaration,
    forStatement, Build.not, unary, assignment, binary, block, Node.synthetic, Node.rename_mk,
    Kind.map, Kind.rename, Node.statements_rename, rename_bindVariable]

end ForEach

theorem Iteration.rename_loop (element : String) (span : Span) (operand : Node) :
    (loop element span operand).rename f = loop (f element) span (operand.rename f) := by
  simp [loop, variableStatement, variableDeclaration, block, suspensionStatement, identifier,
    Node.synthetic, Node.rename_mk, Kind.map, Kind.rename]

namespace ForIn

/-- Other names for a loop. -/
def Names.map (f : String → String) (names : Names) : Names :=
  ⟨f names.keys, f names.collection, f names.property, f names.index⟩

theorem rename_loop (names : Names) (label : Option String) (span : Span)
    (initializer expression body : Node) :
    (loop names label span initializer expression body).rename f =
      loop (names.map f) (label.map f) span (initializer.rename f) (expression.rename f)
        (body.rename f) := by
  have current : names.currentKey.rename f = (names.map f).currentKey := by
    simp [Names.currentKey, Names.map, element, identifier, Node.synthetic, Node.rename_mk, Kind.map,
      Kind.rename]
  have walk : (names.walkKeys initializer body.statements).rename f =
      (names.map f).walkKeys (initializer.rename f) (body.rename f).statements := by
    simp [Names.walkKeys, Names.skipDeleted, forStatement, variableStatement, variableDeclaration,
      number, binary, identifier, Build.property, postfixIncrement, block, ifStatement, Build.not,
      unary, continueStatement, Node.synthetic, Node.rename_mk, Kind.map, Kind.rename, current,
      Node.statements_rename, rename_bindVariable]
    simp [Names.map]
  cases label <;>
    simp [loop, Names.collectKeys, labeledStatement, forInStatement, expressionStatement, methodCall,
      call, array, variableStatement, variableDeclaration, identifier, Build.property,
      Node.synthetic, Node.rename_mk, Kind.map, Kind.rename, walk] <;>
    simp [Names.map]

end ForIn

namespace Delegation

theorem rename_delegate (helper : String) (body : Node) :
    (delegate helper body).rename f = delegate (f helper) (body.rename f) := by
  simp [delegate, returnStatement, call, identifier, this, functionExpression, Node.synthetic,
    Node.rename_mk, Kind.map, Kind.rename]

theorem rename_resume (binding : Option String) (operand : Node) :
    (resume binding operand).rename f = resume (binding.map f) (operand.rename f) := by
  cases binding <;>
    simp [resume, yieldExpression, assignment, binary, identifier, Node.synthetic, Node.rename_mk,
      Kind.map, Kind.rename]

end Delegation

end Resumable
