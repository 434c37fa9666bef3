import Resumable.Syntax.Names
import Resumable.Proofs.Scope

/-!
# Searching a tree for its names

The names of a tree are collected by a search that keeps the trees which it still has to look at.  A step may
take any of them: it notes the name of that node and leaves the children of the node to be looked at instead.  So
what was found and what stands in the pending trees are the same names as before (`Step.holds_iff`), while
there is one node less to look at, though there may be more trees (`Step.size_eq`).  Hence every search of a
tree ends after as many steps as the tree has nodes, with the union of the names of these (`search_names`).
-/

namespace Resumable

/-- The name of a node by itself. Accessors and properties have none, nor has a jump to a label. -/
inductive Kind.Bears {α : Type} : Kind α → String → Prop
  | identifier (name : String) : Bears (.identifier name) name
  | variableDeclaration (name : String) (initializer : Option α) :
      Bears (.variableDeclaration name initializer) name
  | classDeclaration (name : String) (members : List α) : Bears (.classDeclaration name members) name
  | catchClause (binding : String) (body : α) : Bears (.catchClause binding body) binding
  | labeledStatement (label : String) (statement : α) : Bears (.labeledStatement label statement) label
  | functionDeclaration (name : String) (isStatic : Bool) (parameters : List α) (body : α) :
      Bears (.functionDeclaration (some name) isStatic parameters body) name
  | functionExpression (name : String) (parameters : List α) (body : α) (isGenerator : Bool) :
      Bears (.functionExpression (some name) parameters body isGenerator) name
  | asyncSuspensionStatement (binding : String) (expression : α) :
      Bears (.asyncSuspensionStatement (some binding) expression) binding

theorem Kind.ownName?_map {α β : Type} (f : α → β) (kind : Kind α) :
    (kind.map f).ownName? = kind.ownName? := by
  cases kind <;> rfl

theorem Kind.ownName?_eq_some_iff {α : Type} {kind : Kind α} {name : String} :
    kind.ownName? = some name ↔ kind.Bears name := by
  constructor
  · intro own
    cases kind <;> cases own <;> constructor
  · intro bears
    cases bears <;> rfl

namespace Node

/-! ## The names of a tree -/

/-- Whether a name stands at a node of a tree. -/
def uses (node : Node) (name : String) : Prop :=
  ∃ inner ∈ node.subtree, inner.kind.ownName? = some name

theorem uses_iff (node : Node) (name : String) :
    node.uses name ↔ node.kind.ownName? = some name ∨ ∃ child ∈ node.children, child.uses name := by
  unfold uses
  constructor
  · rintro ⟨inner, mem, own⟩
    rcases mem_subtree_iff.1 mem with rfl | ⟨child, isChild, mem⟩
    · exact .inl own
    · exact .inr ⟨child, isChild, inner, mem, own⟩
  · rintro (own | ⟨child, isChild, inner, mem, own⟩)
    · exact ⟨node, self_mem_subtree node, own⟩
    · exact ⟨inner, mem_subtree_iff.2 (.inr ⟨child, isChild, mem⟩), own⟩

theorem uses_of_child {node child : Node} {name : String} (isChild : child ∈ node.children)
    (used : child.uses name) : node.uses name :=
  (uses_iff node name).2 (.inr ⟨child, isChild, used⟩)

/-- Adds the name of a node to a set. -/
def noteName (node : Node) (names : NameSet) : NameSet :=
  match node.kind.ownName? with
  | some name => names.insert name
  | none => names

theorem mem_noteName_iff (node : Node) (names : NameSet) (name : String) :
    name ∈ node.noteName names ↔ name ∈ names ∨ node.kind.ownName? = some name := by
  unfold noteName
  cases node.kind.ownName? with
  | none => simp
  | some own =>
    simp only [Std.TreeSet.mem_insert, Std.compare_eq_iff_eq, Option.some.injEq]
    exact or_comm

/-- The names of a tree as a union: the name of the node by itself, and the names of its children. -/
def unitedNames (node : Node) : NameSet :=
  node.para fun node parts => parts.children.foldr (fun part names => part.2 ∪ names) (node.noteName ∅)

theorem unitedNames_eq (node : Node) :
    node.unitedNames =
      node.children.foldr (fun child names => child.unitedNames ∪ names) (node.noteName ∅) := by
  rw [unitedNames, para_eq, Kind.children_map, List.foldr_map]
  rfl

theorem mem_unitedNames_iff (node : Node) (name : String) : name ∈ node.unitedNames ↔ node.uses name := by
  induction node using inductionOn with
  | step node ih =>
    have united : ∀ nodes ⊆ node.children,
        name ∈ nodes.foldr (fun child names => child.unitedNames ∪ names) (node.noteName ∅) ↔
          node.kind.ownName? = some name ∨ ∃ child ∈ nodes, child.uses name := by
      intro nodes inside
      induction nodes with
      | nil => simp [mem_noteName_iff]
      | cons child rest ihRest =>
        rw [List.cons_subset] at inside
        rw [List.foldr_cons, Std.TreeSet.mem_union_iff, ih child inside.1, ihRest inside.2, or_left_comm]
        simp only [List.mem_cons, or_and_right, exists_or, exists_eq_left]
    rw [unitedNames_eq, united _ (List.Subset.refl _), uses_iff]

end Node

/-! ## Searches -/

/-- A search for names: what was found so far, and the trees that are still to be looked at. -/
structure NameSearch where
  found : NameSet
  pending : List Node

namespace NameSearch

/-- The search of a tree before its first step. -/
def start (tree : Node) : NameSearch := ⟨∅, [tree]⟩

/-- A step takes any of the pending trees, notes the name of its root and puts its children anywhere among the
others. -/
inductive Step : NameSearch → NameSearch → Prop
  | look {found : NameSet} {node : Node} {pending others later : List Node}
      (takes : pending.Perm (node :: others)) (leaves : later.Perm (node.children ++ others)) :
      Step ⟨found, pending⟩ ⟨node.noteName found, later⟩

/-- A number of steps, one after the other. -/
inductive Steps : Nat → NameSearch → NameSearch → Prop
  | done (search : NameSearch) : Steps 0 search search
  | next {n : Nat} {search next last : NameSearch} (step : Step search next) (steps : Steps n next last) :
      Steps (n + 1) search last

/-- The number of nodes that are still to be looked at. -/
def size (search : NameSearch) : Nat := Node.totalSize (search.pending.map Node.size)

/-- The name was found, or stands in a tree that is still to be looked at. -/
def Holds (search : NameSearch) (name : String) : Prop :=
  name ∈ search.found ∨ ∃ node ∈ search.pending, node.uses name

variable {search next last : NameSearch}

/-! ### Steps -/

theorem totalSize_perm {sizes more : List Nat} (perm : sizes.Perm more) :
    Node.totalSize sizes = Node.totalSize more :=
  perm.sum_nat

theorem Step.size_eq (step : Step search next) : next.size + 1 = search.size := by
  cases step with
  | @look found node pending others later takes leaves =>
  calc
    Node.totalSize (later.map Node.size) + 1
      = Node.totalSize ((node.children ++ others).map Node.size) + 1 := by
        rw [totalSize_perm (leaves.map Node.size)]
    _ = node.size + Node.totalSize (others.map Node.size) := by
        rw [List.map_append, Node.totalSize_append, Node.size_eq node]
        omega
    _ = Node.totalSize (pending.map Node.size) := (totalSize_perm (takes.map Node.size)).symm

theorem Step.holds_iff (step : Step search next) (name : String) : next.Holds name ↔ search.Holds name := by
  cases step with
  | @look found node pending others later takes leaves =>
  simp only [Holds, Node.mem_noteName_iff, takes.mem_iff, leaves.mem_iff, List.mem_append, List.mem_cons,
    or_and_right, exists_or, exists_eq_left, Node.uses_iff node, or_assoc]

/-- As long as there is a tree to look at, there is a step to take. -/
theorem exists_step (search : NameSearch) (pending : search.pending ≠ []) : ∃ next, Step search next := by
  obtain ⟨found, _ | ⟨node, others⟩⟩ := search
  · cases pending rfl
  · exact ⟨_, .look (.refl _) (.refl _)⟩

theorem size_eq_zero_iff (search : NameSearch) : search.size = 0 ↔ search.pending = [] := by
  obtain ⟨found, _ | ⟨node, others⟩⟩ := search
  · exact iff_of_true rfl rfl
  · have positive : 0 < node.size := by rw [Node.size_eq]; omega
    have split : size ⟨found, node :: others⟩ = node.size + Node.totalSize (others.map Node.size) := rfl
    simp only [split, reduceCtorEq, iff_false]
    omega

/-! ### Whole searches -/

theorem Steps.size_eq {n : Nat} (steps : Steps n search last) : n + last.size = search.size := by
  induction steps with
  | done => exact Nat.zero_add _
  | next step _ ih =>
    have first := step.size_eq
    omega

theorem size_start (tree : Node) : (start tree).size = tree.size := Nat.add_zero _

/-- The steps of a search and the nodes that are left are as many as the nodes of the tree. -/
theorem Steps.size_start {n : Nat} {tree : Node} (steps : Steps n (start tree) last) :
    n + last.size = tree.size :=
  steps.size_eq.trans (NameSearch.size_start tree)

theorem Steps.holds_iff {n : Nat} (steps : Steps n search last) (name : String) :
    last.Holds name ↔ search.Holds name := by
  induction steps with
  | done => exact Iff.rfl
  | next step _ ih => exact ih.trans (step.holds_iff name)

theorem holds_start_iff (tree : Node) (name : String) : (start tree).Holds name ↔ tree.uses name := by
  simp [Holds, start]

theorem holds_done_iff (found : NameSet) (name : String) : Holds ⟨found, []⟩ name ↔ name ∈ found := by
  simp [Holds]

/-- The collection of names is a search that goes on with the first of the pending trees. -/
theorem steps_namesFrom (names : NameSet) (pending : List Node) :
    Steps (size ⟨names, pending⟩) ⟨names, pending⟩ ⟨Node.namesFrom names pending, []⟩ := by
  induction names, pending using Node.namesFrom.induct with
  | case1 names =>
    rw [Node.namesFrom]
    exact .done _
  | case2 names node pending noted ih =>
    have step : Step ⟨names, node :: pending⟩ ⟨noted, node.children ++ pending⟩ := .look (.refl _) (.refl _)
    rw [Node.namesFrom, ← step.size_eq]
    exact .next step ih

end NameSearch

theorem Node.mem_names_iff (node : Node) (name : String) : name ∈ node.names ↔ node.uses name := by
  have steps := NameSearch.steps_namesFrom ∅ [node]
  exact (NameSearch.holds_done_iff _ name).symm.trans
    ((steps.holds_iff name).trans (NameSearch.holds_start_iff node name))

/-- The names of a tree are found by a search, and they are those that a node of the tree bears, at whatever
depth.  Whichever pending tree each step takes, a search of the tree can go on as long as there is one, and it
has none left exactly after as many steps as the tree has nodes.  Then it has found the union of the names, node by
node. -/
theorem search_names (tree : Node) :
    NameSearch.Steps tree.size (.start tree) ⟨tree.names, []⟩ ∧
      (∀ name, name ∈ tree.names ↔ ∃ inner ∈ tree.subtree, inner.kind.Bears name) ∧
      ∀ steps search, NameSearch.Steps steps (.start tree) search →
        steps ≤ tree.size ∧ (search.pending = [] ↔ steps = tree.size) ∧
          (search.pending ≠ [] → ∃ next, search.Step next) ∧
          (search.pending = [] → search.found.Equiv tree.unitedNames) := by
  refine ⟨?_, fun name => ?_, fun steps search run => ⟨?_, ?_, search.exists_step, fun done => ?_⟩⟩
  · rw [← NameSearch.size_start tree]
    exact NameSearch.steps_namesFrom ∅ [tree]
  · rw [tree.mem_names_iff, Node.uses]
    simp only [Kind.ownName?_eq_some_iff]
  · have sizes := run.size_start
    omega
  · have sizes := run.size_start
    rw [← search.size_eq_zero_iff]
    omega
  · obtain ⟨found, pending⟩ := search
    obtain rfl : pending = [] := done
    refine .of_forall_mem_iff fun name => ?_
    rw [tree.mem_unitedNames_iff, ← NameSearch.holds_start_iff, ← run.holds_iff, NameSearch.holds_done_iff]

end Resumable
