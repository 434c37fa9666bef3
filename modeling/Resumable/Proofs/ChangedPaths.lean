import Resumable.Proofs.Scope
import Resumable.Syntax.Build

/-!
# Renaming rebuilds changed paths only

A path leads from a tree to one of its subtrees, by the place of a child at each step (`Node.at?`).  Since an
edit answers `none` for what it keeps and builds a node anew from what became of its children, the answers on
the way down a path tell whether the subtree at its end is still the one that stood there (`Node.answerAt`).
Renaming identifiers replaces these and nothing else, and it keeps a subtree, at whatever depth, exactly if
there is no identifier to rename in it (`renameIdentifiers_at`).
-/

namespace Resumable

namespace Kind

variable {α β : Type}

/-- Without effects, a traversal applies a function to every child. -/
theorem traverse_pure (f : α → β) (kind : Kind α) :
    kind.traverse (fun child => (pure (f child) : Id β)) = pure (kind.map f) := by
  have option (o : Option α) : (o.mapM fun child => (pure (f child) : Id β)) = pure (o.map f) := by
    cases o <;> rfl
  cases kind <;> simp [traverse, map, option]

end Kind

namespace Node

/-! ## Paths -/

/-- The subtree at the end of a path. -/
def at? (node : Node) : List Nat → Option Node
  | [] => some node
  | i :: path => node.children[i]?.bind fun child => child.at? path

/-- What an edit answers for the subtree at the end of a path: `none` if that subtree is kept, by itself or as
a part of one that is kept. -/
def answerAt (edit : Node → Option Node) (node : Node) : List Nat → Option Node
  | [] => edit node
  | i :: path =>
    if (edit node).isNone then none else node.children[i]?.bind fun child => child.answerAt edit path

theorem at?_cons_eq_some_iff {node sub : Node} {i : Nat} {path : List Nat} :
    node.at? (i :: path) = some sub ↔ ∃ child, node.children[i]? = some child ∧ child.at? path = some sub :=
  Option.bind_eq_some_iff

theorem mem_subtree_of_at? {node sub : Node} {path : List Nat} (isAt : node.at? path = some sub) :
    sub ∈ node.subtree := by
  induction path generalizing node with
  | nil =>
    cases isAt
    exact self_mem_subtree _
  | cons i path ih =>
    obtain ⟨child, isChild, isAt⟩ := at?_cons_eq_some_iff.1 isAt
    exact mem_subtree_iff.2 (.inr ⟨child, List.mem_of_getElem? isChild, ih isAt⟩)

/-! ## Renaming -/

/-- Without effects, a node is rebuilt from the answers for its children. -/
theorem rebuild_pure (node : Node) (edit : Node → Option Node) :
    node.rebuild (node.kind.map fun child => (child, (pure (edit child) : Id (Option Node)))) =
      pure (node.assemble (node.kind.map fun child => (child, edit child))) := by
  rw [rebuild_eq]
  exact congrArg (node.assemble <$> ·) (Kind.traverse_pure (fun child => (child, edit child)) node.kind)

variable (newName? : String → Option String)

/-- The new name of a node, if it is an identifier that gets one. -/
def newIdentifier? (node : Node) : Option String := node.identifierName?.bind newName?

/-- Renaming replaces an identifier that has a new name. It keeps any other node if all children are kept,
and else it builds the node anew from what became of them. -/
theorem renameIdentifiers_eq (node : Node) : node.renameIdentifiers newName? =
    match node.newIdentifier? newName? with
    | some new => some (.synthetic (.identifier new))
    | none => node.assemble (node.kind.map fun child => (child, child.renameIdentifiers newName?)) := by
  have rebuilt := node.rebuild_pure fun child => child.renameIdentifiers newName?
  rw [renameIdentifiers, edit, para_eq, newIdentifier?, identifierName?]
  obtain ⟨span, kind⟩ := node
  cases kind with
  | identifier name =>
    simp only [Node.kind, Option.bind_some]
    cases newName? name with
    | none => exact rebuilt
    | some new => rfl
  | _ => exact rebuilt

/-- A tree is kept exactly if there is no identifier in it to rename. -/
theorem renameIdentifiers_eq_none_iff (node : Node) :
    node.renameIdentifiers newName? = none ↔
      ∀ inner ∈ node.subtree, inner.newIdentifier? newName? = none := by
  induction node using inductionOn with
  | step node ih =>
    rw [renameIdentifiers_eq]
    cases isNew : node.newIdentifier? newName? with
    | some new =>
      refine iff_of_false (Option.some_ne_none _) fun calm => ?_
      cases isNew.symm.trans (calm node node.self_mem_subtree)
    | none =>
      rw [assemble_eq_none_iff, Kind.children_map, List.forall_mem_map, subtree_eq, List.forall_mem_cons,
        List.forall_mem_flatMap]
      exact ⟨fun kept => ⟨isNew, fun child mem => (ih child mem).1 (kept child mem)⟩,
        fun calm child mem => (ih child mem).2 (calm.2 child mem)⟩

/-- What became of a node that is no identifier to rename: itself, with what became of its children. -/
theorem renameIdentifiers_getD {node : Node} (isKept : node.newIdentifier? newName? = none) :
    (node.renameIdentifiers newName?).getD node =
      ⟨node.span, node.kind.map fun child => (child.renameIdentifiers newName?).getD child⟩ := by
  rw [renameIdentifiers_eq, isKept]
  refine (assemble_getD ?_).trans ?_
  · rw [Kind.map_map]
    exact Kind.map_id' _
  · rw [Kind.map_map]
    rfl

/-- Below a node that is no identifier to rename stands what became of its children. -/
theorem children_renameIdentifiers {node : Node} (isKept : node.newIdentifier? newName? = none) :
    ((node.renameIdentifiers newName?).getD node).children =
      node.children.map fun child => (child.renameIdentifiers newName?).getD child := by
  rw [renameIdentifiers_getD newName? isKept]
  exact Kind.children_map _ _

theorem newIdentifier?_of_child {node child : Node} (isChild : child ∈ node.children) :
    node.newIdentifier? newName? = none := by
  obtain ⟨span, kind⟩ := node
  cases kind with
  | identifier name => cases isChild
  | _ => rfl

/-- A path leads to what became of the subtree at its end. -/
theorem at?_renameIdentifiers {tree sub : Node} {path : List Nat} (isAt : tree.at? path = some sub) :
    ((tree.renameIdentifiers newName?).getD tree).at? path =
      some ((sub.renameIdentifiers newName?).getD sub) := by
  induction path generalizing tree with
  | nil =>
    cases isAt
    rfl
  | cons i path ih =>
    obtain ⟨child, isChild, isAt⟩ := at?_cons_eq_some_iff.1 isAt
    have notNew := newIdentifier?_of_child newName? (List.mem_of_getElem? isChild)
    refine at?_cons_eq_some_iff.2 ⟨_, ?_, ih isAt⟩
    rw [children_renameIdentifiers newName? notNew, List.getElem?_map, isChild]
    rfl

/-- The answer for a subtree is the one that the edit gives for it alone. -/
theorem answerAt_renameIdentifiers {tree sub : Node} {path : List Nat} (isAt : tree.at? path = some sub) :
    tree.answerAt (renameIdentifiers newName?) path = sub.renameIdentifiers newName? := by
  induction path generalizing tree with
  | nil =>
    cases isAt
    rfl
  | cons i path ih =>
    rw [answerAt]
    split
    · next kept =>
      -- A part of what is kept has no identifier to rename either.
      have calm := (renameIdentifiers_eq_none_iff newName? tree).1 (Option.isNone_iff_eq_none.1 kept)
      refine ((renameIdentifiers_eq_none_iff newName? sub).2 fun inner mem => calm inner ?_).symm
      exact subtree_subset (mem_subtree_of_at? isAt) mem
    · obtain ⟨child, isChild, isAt⟩ := at?_cons_eq_some_iff.1 isAt
      rw [isChild]
      exact ih isAt

/-- Renaming leaves every node of a tree in its place: an identifier that has a new name is replaced by one of
that name without a source, and any other node has the span, the form and the fields that it had.  The subtree
at the end of a path is still the one that stood there exactly if it has no identifier to rename in it. -/
theorem renameIdentifiers_at {tree sub : Node} {path : List Nat} (isAt : tree.at? path = some sub) :
    let result := (tree.renameIdentifiers newName?).getD tree
    let answer := tree.answerAt (renameIdentifiers newName?) path
    ∃ after, result.at? path = some after ∧ after = answer.getD sub ∧
      (∀ new, sub.newIdentifier? newName? = some new → after = .synthetic (.identifier new)) ∧
      (sub.newIdentifier? newName? = none →
        after.span = sub.span ∧ after.kind.map (fun _ => ()) = sub.kind.map fun _ => ()) ∧
      (answer = none ↔ ∀ inner ∈ sub.subtree, inner.newIdentifier? newName? = none) := by
  intro result answer
  have isAnswer : answer = sub.renameIdentifiers newName? := answerAt_renameIdentifiers newName? isAt
  refine ⟨_, at?_renameIdentifiers newName? isAt, by rw [isAnswer], fun new isNew => ?_, fun notNew => ?_, ?_⟩
  · rw [renameIdentifiers_eq, isNew]
    rfl
  · rw [renameIdentifiers_getD newName? notNew]
    exact ⟨rfl, Kind.map_map _ _ _⟩
  · rw [isAnswer]
    exact renameIdentifiers_eq_none_iff newName? sub

/-- The statements `{ f(); x: x; }`. -/
def labeledName : Node :=
  Build.block [Build.expressionStatement (Build.call (Build.identifier "f") []),
    .synthetic (.labeledStatement "x" (Build.expressionStatement (Build.identifier "x")))]

/-- With `y` for `x`, the last identifier is replaced, its label is not, and the call is kept. -/
theorem renameIdentifiers_at_labeledName :
    let newName? (name : String) := if name = "x" then some "y" else none
    let result := (labeledName.renameIdentifiers newName?).getD labeledName
    labeledName.at? [1, 0, 0] = some (Build.identifier "x") ∧
      result.at? [1, 0, 0] = some (Build.identifier "y") ∧
      (∃ after, result.at? [1] = some after ∧
        after.kind.map (fun _ => ()) = .labeledStatement "x" ()) ∧
      labeledName.answerAt (renameIdentifiers newName?) [0] = none := by
  intro newName? result
  obtain ⟨name, isName, -, replaced, -, -⟩ :=
    renameIdentifiers_at newName? (show labeledName.at? [1, 0, 0] = some _ from rfl)
  obtain ⟨label, isLabel, -, -, kept, -⟩ :=
    renameIdentifiers_at newName? (show labeledName.at? [1] = some _ from rfl)
  obtain ⟨-, -, -, -, -, shared⟩ :=
    renameIdentifiers_at newName? (show labeledName.at? [0] = some _ from rfl)
  refine ⟨rfl, by rw [isName, replaced "y" rfl]; rfl, ⟨label, isLabel, (kept rfl).2⟩, shared.2 ?_⟩
  decide

end Node

end Resumable
