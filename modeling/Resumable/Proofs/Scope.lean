import Resumable.Loop.Binding
import Resumable.Suspension.Facts
import Resumable.Proofs.Traversal

/-!
# Scopes

The nodes of a tree (`Node.subtree`), those of one function's own scope (`Node.ownScope`), and the
functions that stand directly in a scope (`Node.functions`).  The facts of a body are what
`Facts.note` says of the own scope in source order (`Facts.of_eq_scan`), so a body suspends exactly
if its own scope holds a suspension (`suspends_of_iff`).
-/

namespace Resumable

namespace Kind

variable {α β : Type}

/-- The children, without the initializer of a for-in loop if that is one to drop. -/
def kept (drops : α → Bool) : Kind α → List α
  | .forInStatement initializer expression body =>
    if drops initializer then [expression, body] else [initializer, expression, body]
  | kind => kind.children

theorem kept_eq_children (drops : α → Bool) {kind : Kind α} (other : kind.form ≠ .forInStatement) :
    kind.kept drops = kind.children := by
  cases kind
  case forInStatement => exact absurd rfl other
  all_goals rfl

theorem kept_map (drops : β → Bool) (f : α → β) (kind : Kind α) :
    (kind.map f).kept drops = (kind.kept fun a => drops (f a)).map f := by
  by_cases loop : kind.form = .forInStatement
  · cases kind
    case forInStatement =>
      simp only [map, kept]
      split <;> rfl
    all_goals cases loop
  · have loop' : (kind.map f).form ≠ .forInStatement := by rwa [form_map]
    rw [kept_eq_children _ loop, kept_eq_children _ loop', children_map]

theorem kept_congr {drops drops' : α → Bool} {kind : Kind α}
    (same : ∀ a ∈ kind.children, drops a = drops' a) : kind.kept drops = kind.kept drops' := by
  by_cases loop : kind.form = .forInStatement
  · cases kind
    case forInStatement initializer expression body =>
      simp only [kept, same initializer (by simp [children])]
    all_goals cases loop
  · rw [kept_eq_children _ loop, kept_eq_children _ loop]

theorem kept_subset (drops : α → Bool) (kind : Kind α) : kind.kept drops ⊆ kind.children := by
  by_cases loop : kind.form = .forInStatement
  · cases kind
    case forInStatement =>
      simp only [kept, children]
      split <;> simp
    all_goals cases loop
  · rw [kept_eq_children _ loop]
    exact List.Subset.refl _

end Kind

namespace Node

/-! ## The nodes of a tree -/

/-- The nodes of a tree in source order, outer ones first. -/
def subtree (node : Node) : List Node :=
  node.para fun node parts => node :: parts.children.flatMap (·.2)

theorem subtree_eq (node : Node) : node.subtree = node :: node.children.flatMap subtree := by
  rw [subtree, para_eq]
  simp only [Kind.children_map, List.flatMap_map]
  rfl

theorem mem_subtree_iff {node inner : Node} :
    inner ∈ node.subtree ↔ inner = node ∨ ∃ child ∈ node.children, inner ∈ child.subtree := by
  rw [subtree_eq]
  simp

theorem self_mem_subtree (node : Node) : node ∈ node.subtree :=
  mem_subtree_iff.2 (.inl rfl)

theorem subtree_subset {node inner : Node} (mem : inner ∈ node.subtree) :
    inner.subtree ⊆ node.subtree := by
  induction node using inductionOn with
  | step node ih =>
    rcases mem_subtree_iff.1 mem with rfl | ⟨child, isChild, mem⟩
    · exact List.Subset.refl _
    · exact fun innermost inside => mem_subtree_iff.2 (.inr ⟨child, isChild, ih child isChild mem inside⟩)

/-- The nodes of one function's own scope in source order. A function scope inside is passed over
with all it holds, and a function scope has no node in its own place. -/
def ownScope (node : Node) : List Node :=
  node.para fun node parts =>
    if node.isFunctionScope then [] else node :: parts.children.flatMap (·.2)

theorem ownScope_eq (node : Node) :
    node.ownScope =
      if node.isFunctionScope then [] else node :: node.children.flatMap ownScope := by
  rw [ownScope, para_eq]
  simp only [Kind.children_map, List.flatMap_map]
  rfl

theorem mem_ownScope_iff {node inner : Node} :
    inner ∈ node.ownScope ↔ node.isFunctionScope = false ∧
      (inner = node ∨ ∃ child ∈ node.children, inner ∈ child.ownScope) := by
  rw [ownScope_eq]
  cases node.isFunctionScope <;> simp

/-- What holds of a node's own scope holds of the node, and of the own scopes of its children. -/
theorem forall_ownScope_iff {P : Node → Prop} {node : Node} (plain : node.isFunctionScope = false) :
    (∀ inner ∈ node.ownScope, P inner) ↔
      P node ∧ ∀ child ∈ node.children, ∀ inner ∈ child.ownScope, P inner := by
  constructor
  · intro all
    refine ⟨all node (mem_ownScope_iff.2 ⟨plain, .inl rfl⟩), fun child isChild inner mem => ?_⟩
    exact all inner (mem_ownScope_iff.2 ⟨plain, .inr ⟨child, isChild, mem⟩⟩)
  · rintro ⟨self, below⟩ inner mem
    obtain ⟨-, rfl | ⟨child, isChild, mem⟩⟩ := mem_ownScope_iff.1 mem
    · exact self
    · exact below child isChild inner mem

/-- What stands in the scope of a child stands below the node. -/
theorem ownScope_child_subset_tail {node child : Node} (plain : node.isFunctionScope = false)
    (isChild : child ∈ node.children) : child.ownScope ⊆ node.ownScope.tail := by
  intro inner mem
  rw [ownScope_eq, plain]
  exact List.mem_flatMap.2 ⟨child, isChild, mem⟩

theorem ownScope_child_subset {node child : Node} (plain : node.isFunctionScope = false)
    (isChild : child ∈ node.children) : child.ownScope ⊆ node.ownScope :=
  fun _ mem => List.mem_of_mem_tail (ownScope_child_subset_tail plain isChild mem)

theorem mem_tail_ownScope {node inner : Node} (mem : inner ∈ node.ownScope.tail) :
    node.isFunctionScope = false ∧ ∃ child ∈ node.children, inner ∈ child.ownScope := by
  rw [ownScope_eq] at mem
  cases scope : node.isFunctionScope with
  | true => simp [scope] at mem
  | false => exact ⟨rfl, by simpa [scope] using mem⟩

theorem ownScope_subset_subtree (node : Node) : node.ownScope ⊆ node.subtree := by
  induction node using inductionOn with
  | step node ih =>
    intro inner mem
    obtain ⟨-, rfl | ⟨child, inside, mem⟩⟩ := mem_ownScope_iff.1 mem
    · exact self_mem_subtree _
    · exact mem_subtree_iff.2 (.inr ⟨child, inside, ih child inside mem⟩)

/-- A walk of the own scope visits its nodes one after the other. -/
theorem walkOwnScope_eq {m : Type → Type} [Monad m] [LawfulMonad m] (visit : Node → m Unit)
    (node : Node) : node.walkOwnScope visit = node.ownScope.forM visit := by
  induction node using inductionOn with
  | step node ih =>
    rw [walkOwnScope, walk_eq, ownScope_eq]
    cases node.isFunctionScope with
    | true => simp
    | false =>
      have rest := forM_flatMap node.children ih
      simp only [Bool.false_eq_true, if_false, bind_assoc, pure_bind, if_true]
      rw [List.forM_eq_forM, List.forM_cons, ← List.forM_eq_forM, ← rest]
      rfl

/-! ## The functions in a scope -/

theorem isFunctionScope_of_like {node : Node} (isFunction : node.isFunctionLike = true) :
    node.isFunctionScope = true := by
  unfold isFunctionLike at isFunction
  unfold isFunctionScope
  cases form : node.form <;> simp_all [Form.isFunctionLike, Form.isFunctionScope]

theorem isFunctionScope_of_expression {node : Node}
    (isExpression : node.form = .functionExpression) :
    node.isFunctionScope = true := by
  rw [isFunctionScope, isExpression]
  rfl

theorem isFunctionLike_of_expression {node : Node} (isExpression : node.form = .functionExpression) :
    node.isFunctionLike = false := by
  rw [isFunctionLike, isExpression]
  rfl

/-- A node is a function with a body, a function expression, or opens no function scope. -/
theorem cases_scope {motive : Node → Prop} (node : Node)
    (function : ∀ node body : Node, node.isFunctionLike = true → node.body? = some body →
      body ∈ node.children → motive node)
    (expression : ∀ node : Node, node.form = .functionExpression → motive node)
    (plain : ∀ node : Node, node.isFunctionScope = false → motive node) : motive node := by
  obtain ⟨span, kind⟩ := node
  cases kind
  case functionDeclaration | getAccessorDeclaration | setAccessorDeclaration =>
    exact function _ _ rfl rfl (by simp [Node.children, Node.kind, Kind.children])
  case functionExpression => exact expression _ rfl
  all_goals exact plain _ rfl

/-- Lowering the for-in loops of a scope drops what the initializer of a loop holds if it declares
the loop variable: only the name is left of it. -/
def dropsInitializer (loopsLowered : Bool) (initializer : Node) : Bool :=
  loopsLowered && (declaredVariable? initializer).isSome

/-- The children of a node, or under `loopsLowered` those that lowering its for-in loops keeps. -/
def keptChildren (loopsLowered : Bool) (node : Node) : List Node :=
  node.kind.kept (dropsInitializer loopsLowered)

theorem keptChildren_subset (loopsLowered : Bool) (node : Node) :
    node.keptChildren loopsLowered ⊆ node.children :=
  Kind.kept_subset _ _

theorem keptChildren_false (node : Node) : node.keptChildren false = node.children := by
  unfold keptChildren children
  cases node.kind <;> rfl

/-- A node with other children keeps the same of them, if lowering its for-in loops would not drop
another initializer. -/
theorem keptChildren_rebuilt {α : Type} {node : Node} {parts : Kind α} {before after : α → Node}
    {flag flag' : Bool} (same : parts.map before = node.kind)
    (flags : flag = flag' ∨ node.form ≠ .forInStatement)
    (declares : ∀ part ∈ parts.children,
      flag = false ∨ declaredVariable? (after part) = declaredVariable? (before part)) (span : Span) :
    ∃ kept ⊆ parts.children, keptChildren flag ⟨span, parts.map after⟩ = kept.map after ∧
      node.keptChildren flag' = kept.map before := by
  refine ⟨parts.kept fun part => dropsInitializer flag' (before part), Kind.kept_subset _ _, ?_, ?_⟩
  · rw [keptChildren, kind, Kind.kept_map]
    congr 1
    rcases flags with rfl | other
    · refine Kind.kept_congr fun part mem => ?_
      rcases declares part mem with rfl | declares
      · rfl
      · rw [dropsInitializer, dropsInitializer, declares]
    · have notLoop : parts.form ≠ .forInStatement := by rwa [form, ← same, Kind.form_map] at other
      rw [Kind.kept_eq_children _ notLoop, Kind.kept_eq_children _ notLoop]
  · rw [keptChildren, ← same, Kind.kept_map]

/-- The functions that stand in a scope, in source order; those inside them are left out. Under
`loopsLowered` they are the ones that are left when the for-in loops of the scope are lowered. -/
def functions (loopsLowered : Bool) (node : Node) : List Node :=
  node.para fun node parts =>
    if node.isFunctionScope then [node]
    else (parts.kept fun part => dropsInitializer loopsLowered part.1).flatMap (·.2)

theorem functions_eq (loopsLowered : Bool) (node : Node) :
    node.functions loopsLowered =
      if node.isFunctionScope then [node]
      else (node.keptChildren loopsLowered).flatMap (functions loopsLowered) := by
  rw [functions, para_eq]
  simp only [Kind.kept_map, List.flatMap_map]
  rfl

theorem functions_of_scope {node : Node} (loopsLowered : Bool)
    (scope : node.isFunctionScope = true) : node.functions loopsLowered = [node] := by
  rw [functions_eq, if_pos scope]

theorem functions_of_not_scope {node : Node} (loopsLowered : Bool)
    (plain : node.isFunctionScope = false) :
    node.functions loopsLowered =
      (node.keptChildren loopsLowered).flatMap (functions loopsLowered) := by
  rw [functions_eq, plain]
  rfl

/-- The node suspends the function to which it belongs. -/
def isSuspension (node : Node) : Bool :=
  match node.kind with
  | .suspensionStatement .. | .yieldExpression .. | .asyncSuspensionStatement .. => true
  | _ => false

end Node

namespace Facts

/-! ## Facts as a scan of the own scope -/

/-- Notes what the own scope of a node adds to the nodes before it. -/
def scan (node : Node) (facts : Facts) : Facts :=
  node.ownScope.foldl (fun facts n => note n facts) facts

theorem scan_eq (node : Node) (facts : Facts) :
    scan node facts = if node.isFunctionScope then facts
      else node.children.foldl (fun facts child => scan child facts) (note node facts) := by
  unfold scan
  rw [Node.ownScope_eq]
  split
  · rfl
  · rw [List.foldl_cons, List.foldl_flatMap]

theorem of_eq_scan (body : Node) : Facts.of body = scan body none := by
  have walked : ∀ (nodes : List Node) (facts : Facts),
      (StateT.run (m := Id) (nodes.forM fun node => modify (note node)) facts).2 =
        nodes.foldl (fun facts n => note n facts) facts := by
    intro nodes
    induction nodes with
    | nil => exact fun _ => rfl
    | cons node rest ih =>
      intro facts
      simp only [List.forM_eq_forM] at ih ⊢
      rw [List.forM_cons]
      exact ih (note node facts)
  rw [Facts.of, Node.walkOwnScope_eq]
  exact walked body.ownScope none

/-- A flag that some nodes set and the others keep is set by a scan if a node of the own scope sets
it. -/
theorem flag_scan {flag : Facts → Bool} {sets : Node → Bool}
    (noted : ∀ node facts, flag (note node facts) = (flag facts || sets node)) (node : Node)
    (facts : Facts) : flag (scan node facts) = (flag facts || node.ownScope.any sets) := by
  unfold scan
  induction node.ownScope generalizing facts with
  | nil => simp
  | cons node rest ih => rw [List.foldl_cons, ih, noted, List.any_cons, Bool.or_assoc]

theorem suspends_note (node : Node) (facts : Facts) :
    (note node facts).suspends = (facts.suspends || node.isSuspension) := by
  unfold note Node.isSuspension suspends
  split <;> simp_all

theorem suspends_scan (node : Node) (facts : Facts) :
    (scan node facts).suspends = (facts.suspends || node.ownScope.any Node.isSuspension) :=
  flag_scan suspends_note node facts

/-- A body suspends exactly if a suspension stands in its own scope. -/
theorem suspends_of_iff (body : Node) :
    (Facts.of body).suspends = true ↔ ∃ inner ∈ body.ownScope, inner.isSuspension = true := by
  rw [of_eq_scan, suspends_scan]
  simp [none, suspends]

/-- What a node adds is decided by its kind apart from the children. -/
theorem note_map {α : Type} (f g : α → Node) (span span' : Span) (kind : Kind α) :
    note ⟨span, kind.map f⟩ = note ⟨span', kind.map g⟩ := by
  cases kind <;> rfl

end Facts

end Resumable
