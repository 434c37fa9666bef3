import Mathlib.Data.List.Basic
import Resumable.Proofs.ScopeEdits

/-!
# What an edit of a scope replaces and what it leaves

A `Revision` says which nodes of a scope an edit replaces, and what takes the place of such a node.
`Revision.Revised` is the course of the edit: it replaces those nodes, builds the nodes around them
anew with all but their children as they were, and keeps everything else, above all the functions in
the scope.  What is noted of the nodes that are replaced stands in their order (`Revised.map_notes`),
and decides what the scope holds afterwards (`Revised.filter_ownScope`).
-/

namespace Resumable

variable {σ τ : Type}

namespace Node

theorem ownScope_mk (span : Span) (kind : Kind Node) :
    ownScope ⟨span, kind⟩ =
      if kind.form.isFunctionScope then [] else ⟨span, kind⟩ :: kind.children.flatMap ownScope :=
  ownScope_eq _

/-- The own scope of a node that was built anew is the node and the own scopes of its new children. -/
theorem ownScope_rebuilt {α : Type} {node : Node} {parts : Kind α} {before after : α → Node}
    (plain : node.isFunctionScope = false) (same : parts.map before = node.kind) :
    ownScope ⟨node.span, parts.map after⟩ =
      ⟨node.span, parts.map after⟩ :: parts.children.flatMap fun part => (after part).ownScope := by
  have open_ : isFunctionScope ⟨node.span, parts.map after⟩ = false := by
    rw [isFunctionScope_of_kind_map after before _ node.span, same]
    exact plain
  rw [ownScope_eq, open_]
  simp only [Bool.false_eq_true, if_false, children, Node.kind, Kind.children_map, List.flatMap_map]

end Node

/-- What an edit of a scope does of its own. -/
structure Revision (τ : Type) where
  /-- The node is one of those that the edit replaces. -/
  replaces : Node → Bool
  /-- What becomes of such a node: `becomes node parts notes result` says that `result` takes its
  place with these notes, where `parts` are its children, each with what was noted for it and what it
  was replaced with. -/
  becomes : Node → Kind (Node × List τ × Option Node) → List τ → Node → Prop

namespace Revision

/-- The course of an edit of a scope: what it notes for a node, and the node in its place, if there is
a new one. -/
inductive Revised (r : Revision τ) : Node → List τ → Option Node → Prop
  /-- What holds no node to replace is kept as it is, and so is a function with all that it holds. -/
  | kept (node : Node) (calm : ∀ inner ∈ node.ownScope, r.replaces inner = false) :
      Revised r node [] none
  | replaced {node result : Node} {notes : List τ} (parts : Kind (Node × List τ × Option Node))
      (plain : node.isFunctionScope = false) (isReplaced : r.replaces node = true)
      (same : parts.map Prod.fst = node.kind)
      (each : ∀ part ∈ parts.children, Revised r part.1 part.2.1 part.2.2)
      (becomes : r.becomes node parts notes result) : Revised r node notes (some result)
  /-- A node around one that is replaced keeps its span, its form and its fields. -/
  | rebuilt {node : Node} (parts : Kind (Node × List τ × Option Node))
      (plain : node.isFunctionScope = false) (notReplaced : r.replaces node = false)
      (same : parts.map Prod.fst = node.kind)
      (each : ∀ part ∈ parts.children, Revised r part.1 part.2.1 part.2.2)
      (busy : ∃ inner ∈ node.ownScope, r.replaces inner = true) :
      Revised r node (parts.children.flatMap fun part => part.2.1)
        (some ⟨node.span, parts.map fun part => part.2.2.getD part.1⟩)

variable {r : Revision τ}

namespace Revised

variable {node : Node} {notes : List τ} {answer : Option Node}

/-- A node is kept exactly if its own scope holds no node to replace. -/
theorem eq_none_iff (revised : r.Revised node notes answer) :
    answer = none ↔ ∀ inner ∈ node.ownScope, r.replaces inner = false := by
  cases revised with
  | kept node calm => exact iff_of_true rfl calm
  | replaced parts plain isReplaced same each becomes =>
    refine iff_of_false (Option.some_ne_none _) fun calm => ?_
    rw [calm node (Node.mem_ownScope_iff.2 ⟨plain, .inl rfl⟩)] at isReplaced
    cases isReplaced
  | rebuilt parts plain notReplaced same each busy =>
    obtain ⟨inner, mem, isReplaced⟩ := busy
    refine iff_of_false (Option.some_ne_none _) fun calm => ?_
    rw [calm inner mem] at isReplaced
    cases isReplaced

theorem notes_of_none (revised : r.Revised node notes none) : notes = [] := by
  cases revised
  rfl

theorem span_getD
    (own : ∀ {node parts notes result}, r.becomes node parts notes result → result.span = node.span)
    (revised : r.Revised node notes answer) : (answer.getD node).span = node.span := by
  cases revised with
  | kept => rfl
  | replaced parts plain isReplaced same each becomes => exact own becomes
  | rebuilt => rfl

/-- The notes are about the nodes that are replaced, one after the other. -/
theorem map_notes {key : τ → Node}
    (own : ∀ {node parts notes result}, r.becomes node parts notes result →
      notes.map key = node :: (parts.children.flatMap fun part => part.2.1).map key)
    (revised : r.Revised node notes answer) : notes.map key = node.ownScope.filter r.replaces := by
  have below {node : Node} {parts : Kind (Node × List τ × Option Node)}
      (same : parts.map Prod.fst = node.kind)
      (ih : ∀ part ∈ parts.children, part.2.1.map key = part.1.ownScope.filter r.replaces) :
      (parts.children.flatMap fun part => part.2.1).map key =
        (node.children.flatMap Node.ownScope).filter r.replaces := by
    rw [Node.children_eq_of_map_fst same, List.map_flatMap, List.filter_flatMap, List.flatMap_map]
    exact List.flatMap_congr ih
  induction revised with
  | kept node calm =>
    rw [List.map_nil, List.filter_eq_nil_iff.2 fun inner mem => by simp [calm inner mem]]
  | @replaced node result notes parts plain isReplaced same each becomes ih =>
    rw [own becomes, below same ih, Node.ownScope_eq, plain]
    simp [isReplaced]
  | @rebuilt node parts plain notReplaced same each busy ih =>
    rw [below same ih, Node.ownScope_eq, plain]
    simp [notReplaced]

/-- What the scope holds of some kind afterwards is what the notes say, if all that it held before of
that kind was in the nodes that are replaced. -/
theorem filter_ownScope {p : Node → Bool} {h : τ → List Node}
    (own : ∀ {node parts notes result}, r.becomes node parts notes result →
      (∀ part ∈ parts.children, (part.2.2.getD part.1).ownScope.filter p = part.2.1.flatMap h) →
      result.ownScope.filter p = notes.flatMap h)
    (shape : ∀ (parts : Kind (Node × List τ × Option Node)) (span : Span),
      p ⟨span, parts.map fun part => part.2.2.getD part.1⟩ = p ⟨span, parts.map Prod.fst⟩)
    (revised : r.Revised node notes answer)
    (others : ∀ inner ∈ node.ownScope, r.replaces inner = false → p inner = false) :
    (answer.getD node).ownScope.filter p = notes.flatMap h := by
  have below {node : Node} {parts : Kind (Node × List τ × Option Node)}
      (plain : node.isFunctionScope = false) (same : parts.map Prod.fst = node.kind)
      (others : ∀ inner ∈ node.ownScope, r.replaces inner = false → p inner = false) :
      ∀ part ∈ parts.children, ∀ inner ∈ part.1.ownScope, r.replaces inner = false → p inner = false := by
    intro part mem inner inside
    refine others inner (Node.ownScope_child_subset plain ?_ inside)
    rw [Node.children_eq_of_map_fst same]
    exact List.mem_map_of_mem mem
  induction revised with
  | kept node calm =>
    exact List.filter_eq_nil_iff.2 fun inner mem => by simp [others inner mem (calm inner mem)]
  | @replaced node result notes parts plain isReplaced same each becomes ih =>
    exact own becomes fun part mem => ih part mem (below plain same others part mem)
  | @rebuilt node parts plain notReplaced same each busy ih =>
    have itself : p ⟨node.span, parts.map fun part => part.2.2.getD part.1⟩ = false := by
      rw [shape, Node.mk_of_map_fst same]
      exact others node (Node.mem_ownScope_iff.2 ⟨plain, .inl rfl⟩) notReplaced
    rw [Option.getD_some, Node.ownScope_rebuilt plain same, List.filter_cons, itself,
      List.filter_flatMap, List.flatMap_assoc]
    exact List.flatMap_congr fun part mem => ih part mem (below plain same others part mem)

/-- The scope holds as many nodes of some kind as before, if that is so of each node that is replaced,
as far as it is so of its children. -/
theorem countP_ownScope {p : Node → Bool}
    (own : ∀ {node parts notes result}, r.becomes node parts notes result →
      (∀ part ∈ parts.children,
        (part.2.2.getD part.1).ownScope.countP p = part.1.ownScope.countP p) →
      result.ownScope.countP p = node.ownScope.countP p)
    (shape : ∀ (parts : Kind (Node × List τ × Option Node)) (span : Span),
      p ⟨span, parts.map fun part => part.2.2.getD part.1⟩ = p ⟨span, parts.map Prod.fst⟩)
    (revised : r.Revised node notes answer) :
    (answer.getD node).ownScope.countP p = node.ownScope.countP p := by
  induction revised with
  | kept => rfl
  | replaced parts plain isReplaced same each becomes ih => exact own becomes ih
  | @rebuilt node parts plain notReplaced same each busy ih =>
    have itself : p ⟨node.span, parts.map fun part => part.2.2.getD part.1⟩ = p node := by
      rw [shape, Node.mk_of_map_fst same]
    have below : (parts.children.map (List.countP p ∘ fun part => (part.2.2.getD part.1).ownScope)) =
        parts.children.map (List.countP p ∘ fun part => part.1.ownScope) := List.map_congr_left ih
    rw [Option.getD_some, Node.ownScope_rebuilt plain same, Node.ownScope_eq node, plain,
      Node.children_eq_of_map_fst same, List.flatMap_map]
    simp only [Bool.false_eq_true, if_false, List.countP_cons, itself, List.countP_flatMap, below]

end Revised

/-! ## Edits -/

/-- An edit of a scope takes the course of a revision if it does so at the nodes that are replaced and
only rebuilds the others. -/
theorem revised_editOwnScope {W : σ → List τ → σ → Prop} (isTrace : IsTrace W) {P : Node → Prop}
    {step : Node → Kind (Node × StateM σ (Option Node)) → StateM σ (Option Node)}
    (own : ∀ node : Node, P node → r.replaces node = true →
      (∀ child ∈ node.children, ∀ s, ∃ notes, W s notes ((child.editOwnScope step).run s).2 ∧
        r.Revised child notes ((child.editOwnScope step).run s).1) → ∀ s,
      let out := (step node (node.kind.map fun child => (child, child.editOwnScope step))).run s
      ∃ notes, W s notes out.2 ∧ r.Revised node notes out.1)
    (other : ∀ node : Node, P node → r.replaces node = false →
      step node (node.kind.map fun child => (child, child.editOwnScope step)) =
        node.rebuild (node.kind.map fun child => (child, child.editOwnScope step)))
    {node : Node} (allowed : ∀ inner ∈ node.ownScope, P inner) (s : σ) :
    let out := (node.editOwnScope step).run s
    ∃ notes, W s notes out.2 ∧ r.Revised node notes out.1 := by
  induction node using Node.inductionOn generalizing s with
  | step node ih =>
    rw [Node.editOwnScope_eq]
    cases scope : node.isFunctionScope with
    | true =>
      refine ⟨[], isTrace.nil s, .kept node ?_⟩
      rw [Node.ownScope_eq, if_pos scope]
      exact List.forall_mem_nil _
    | false =>
      obtain ⟨itself, below⟩ := (Node.forall_ownScope_iff scope).1 allowed
      simp only [Bool.false_eq_true, if_false]
      cases isReplaced : r.replaces node with
      | true =>
        exact own node itself isReplaced (fun child mem => ih child mem (below child mem)) s
      | false =>
        obtain ⟨-, parts, same, answer, happened, each⟩ := Node.rebuild_noted isTrace
          (I := fun _ => True) node
          (fun child mem s _ => ⟨trivial, ih child mem (below child mem) s⟩) s trivial
        rw [other node itself isReplaced]
        refine ⟨_, happened, ?_⟩
        have children : node.children = parts.children.map Prod.fst := Node.children_eq_of_map_fst same
        rw [answer]
        by_cases calm : ∀ part ∈ parts.children, part.2.2 = none
        · -- Nothing was noted, as nothing was replaced.
          have none : node.assemble (parts.map fun part => (part.1, part.2.2)) = none := by
            rw [Node.assemble_eq_none_iff, Kind.children_map]
            exact List.forall_mem_map.2 calm
          have noNotes : (parts.children.flatMap fun part => part.2.1) = [] :=
            List.flatMap_eq_nil_iff.2 fun part mem => (calm part mem ▸ each part mem).notes_of_none
          rw [none, noNotes]
          refine .kept node ((Node.forall_ownScope_iff scope).2 ⟨isReplaced, ?_⟩)
          rw [children]
          exact List.forall_mem_map.2 fun part mem => (each part mem).eq_none_iff.1 (calm part mem)
        · obtain ⟨part, mem, isSome⟩ : ∃ part ∈ parts.children, part.2.2 ≠ none := by simpa using calm
          have some : node.assemble (parts.map fun part => (part.1, part.2.2)) =
              some ⟨node.span, parts.map fun part => part.2.2.getD part.1⟩ := by
            rw [Node.assemble, if_pos, Kind.map_map]
            · rfl
            · rw [Kind.children_map, List.any_map, List.any_eq_true]
              exact ⟨part, mem, Option.isSome_iff_ne_none.2 isSome⟩
          rw [some]
          refine .rebuilt parts scope isReplaced same each ?_
          obtain ⟨inner, inside, isReplaced⟩ :
              ∃ inner ∈ part.1.ownScope, r.replaces inner = true := by
            simpa using mt (each part mem).eq_none_iff.2 isSome
          refine ⟨inner, Node.ownScope_child_subset scope ?_ inside, isReplaced⟩
          rw [children]
          exact List.mem_map_of_mem mem

end Revision

end Resumable
