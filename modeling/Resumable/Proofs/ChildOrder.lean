import Resumable.Syntax.Walk
import Resumable.Proofs.Plans

/-!
# Walks and edits go through the children alike

`Kind.children` lists the children of a node for a walk, and `Node.rebuild` goes through them for an edit.  What a
rebuild does is what its edits do, for one child after the other (`rebuild_bind_const`), and with a record of what the
edits were asked and what they answered (`Node.recording`), the record tells the node that comes out
(`rebuild_recording`).  So a visitor and a transformer that do nothing of their own meet the nodes of a tree in
the same order, which is that of `Node.subtree` (`visitAll_eq`, `rebuildAll_eq`).
-/

namespace Resumable

variable {σ τ α β γ : Type} {m : Type → Type} [Monad m] [LawfulMonad m]

/-! ## Effects in the order of the children -/

theorem discard_bind (x : m α) (rest : Unit → m β) : discard x >>= rest = x >>= fun _ => rest () := by
  simp [discard, map_const]

/-- Where the results are not looked at, actions are run for their effects, one after the other. -/
theorem mapM_bind_const (f : α → m β) (rest : m γ) (l : List α) :
    (l.mapM f >>= fun _ => rest) = l.forM (fun a => discard (f a)) >>= fun _ => rest := by
  induction l with
  | nil => simp
  | cons a l ih =>
    simp only [List.forM_eq_forM] at ih
    simp only [List.mapM_cons, List.forM_eq_forM, List.forM_cons, bind_assoc, pure_bind, discard_bind, ih]

theorem Kind.traverse_bind_const (f : α → m β) (rest : m γ) (k : Kind α) :
    (k.traverse f >>= fun _ => rest) = k.children.forM (fun a => discard (f a)) >>= fun _ => rest := by
  rw [← mapM_bind_const, ← Kind.children_traverse, bind_map_left]

namespace Node

/-- Apart from its answer, rebuilding a node does what the edits do for its children, one after the other. -/
theorem rebuild_bind_const (f : Node → m (Option Node)) (rest : m γ) (node : Node) :
    (node.rebuild (node.kind.map fun child => (child, f child)) >>= fun _ => rest) =
      node.children.forM (fun child => discard (f child)) >>= fun _ => rest := by
  have pairs (child : Node) :
      discard ((fun answer => (child, answer)) <$> f child) = discard (f child) := by
    simp [discard, map_const]
  rw [rebuild_eq, bind_map_left, Kind.traverse_bind_const]
  simp only [pairs]
  rfl

/-- Edits that keep the children keep the node. -/
theorem rebuild_kept (visit : Node → m Unit) (node : Node) :
    (node.rebuild (node.kind.map fun child => (child, do
      visit child
      return none))) = do
      node.children.forM visit
      return none := by
  -- The answers are known whatever the visits do, so they are put beside the children afterwards.
  have answers (child : Node) : (fun answer => (child, answer)) <$> (visit child >>= fun _ => pure none) =
      (fun kept : Node => (kept, (none : Option Node))) <$> (visit child >>= fun _ => pure child) := by
    simp
  have kept (kind : Kind Node) : node.assemble (kind.map fun kept => (kept, none)) = none := by
    simp [assemble_eq_none_iff]
  have visits (child : Node) : discard (visit child >>= fun _ => pure child) = visit child := by
    simp [discard, map_const]
  rw [rebuild_eq]
  simp only [answers]
  rw [Kind.traverse_map, Functor.map_map]
  simp only [kept]
  rw [map_eq_pure_bind, Kind.traverse_bind_const]
  simp only [visits]
  rfl

/-! ## What the edits are asked -/

/-- The edit of a child, with a record of what it was asked and what it answered. -/
def recording (edit : Node → StateM σ (Option Node)) (child : Node) :
    StateM (σ × List (Node × Option Node)) (Option Node) := fun (own, calls) =>
  let (answer, own) := (edit child).run own
  (answer, own, calls ++ [(child, answer)])

/-- A record of the edits changes nothing. -/
theorem mirrors_recording (edit : Node → StateM σ (Option Node)) (node : Node) :
    Mirrors (fun s t => s.1 = t) (node.rebuild (node.kind.map fun child => (child, recording edit child)))
      (node.rebuild (node.kind.map fun child => (child, edit child))) := by
  refine .rebuild node fun child _ => ?_
  rintro ⟨own, calls⟩ _ rfl
  exact ⟨rfl, rfl⟩

/-- The record of a rebuild is that of the kind with the answers beside the children. -/
theorem rebuild_recording (edit : Node → StateM σ (Option Node)) (node : Node) (s : σ) :
    let out := (node.rebuild (node.kind.map fun child => (child, recording edit child))).run (s, [])
    ∃ results : Kind (Node × Option Node), results.map Prod.fst = node.kind ∧
      out.1 = node.assemble results ∧ out.2.2 = results.children := by
  intro out
  obtain ⟨-, parts, same, answer, record, asked⟩ := rebuild_noted (f := recording edit) (I := fun _ => True)
    (W := fun s calls t => t.2 = s.2 ++ calls)
    (R := fun child calls result => calls = [(child, result)])
    ⟨fun _ => (List.append_nil _).symm, fun first second => by rw [second, first, List.append_assoc]⟩
    node (fun child _ s _ => ⟨trivial, _, rfl, rfl⟩) (s, []) trivial
  refine ⟨parts.map fun part => (part.1, part.2.2), ?_, answer, ?_⟩
  · rw [Kind.map_map]
    exact same
  · rw [record, List.nil_append, Kind.children_map, List.map_eq_flatMap]
    exact List.flatMap_congr asked

/-! ## Visitors and transformers -/

/-- A visitor with no hooks of its own goes on everywhere; an identifier has nothing below it. -/
def visitAll (meet : Node → m Unit) (node : Node) : m Unit :=
  node.walk fun node => do
    meet node
    return node.form != .identifier

/-- A transformer with no hooks of its own rebuilds every node. -/
def rebuildAll (meet : Node → m Unit) (node : Node) : m (Option Node) :=
  node.edit fun node parts => do
    meet node
    node.rebuild parts

theorem children_identifier {node : Node} (isIdentifier : node.form = .identifier) : node.children = [] := by
  obtain ⟨span, kind⟩ := node
  cases kind <;> first | rfl | cases isIdentifier

theorem visitAll_eq (meet : Node → m Unit) (node : Node) : visitAll meet node = node.subtree.forM meet := by
  induction node using inductionOn with
  | step node ih =>
    -- Going on from an identifier or not makes no difference.
    have descends : (if node.form != .identifier then node.children.forM (visitAll meet) else pure ()) =
        node.children.forM (visitAll meet) := by
      by_cases isIdentifier : node.form = .identifier
      · simp [children_identifier isIdentifier]
      · simp [isIdentifier]
    calc
      visitAll meet node
        = (meet node >>= fun _ => node.children.forM (visitAll meet)) := by
        rw [visitAll, walk_eq]
        simp only [bind_assoc, pure_bind]
        exact congrArg (meet node >>= ·) (funext fun _ => descends)
      _ = node.subtree.forM meet := by
        rw [forM_flatMap node.children ih, subtree_eq, List.forM_eq_forM, List.forM_cons]

theorem rebuildAll_eq (meet : Node → m Unit) (node : Node) :
    rebuildAll meet node = do
      node.subtree.forM meet
      return none := by
  induction node using inductionOn with
  | step node ih =>
    have below : (node.kind.map fun child => (child, rebuildAll meet child)) =
        node.kind.map fun child => (child, do
          child.subtree.forM meet
          return none) :=
      Kind.map_congr _ fun child isChild => congrArg (child, ·) (ih child isChild)
    have rest := forM_flatMap node.children (f := fun child => child.subtree.forM meet) fun _ _ => rfl
    calc
      rebuildAll meet node
        = (meet node >>= fun _ =>
            node.rebuild (node.kind.map fun child => (child, rebuildAll meet child))) := by
        rw [rebuildAll, edit, para_eq]
        rfl
      _ = (meet node >>= fun _ =>
            node.children.forM (fun child => child.subtree.forM meet) >>= fun _ => return none) := by
        rw [below, rebuild_kept]
      _ = (node.subtree.forM meet >>= fun _ => return none) := by
        rw [rest, subtree_eq, List.forM_eq_forM, List.forM_cons, bind_assoc]

/-- Rebuilding a node and walking on from it call an edit alike: on the children of the node, in source order and
once each, so that a record of the calls is the same, and no different from what happens without one.  The node is
kept exactly if every call keeps its child.  Otherwise the node that is built has the span, the form and the
fields of the old one, and its children are what the calls left of the old ones, in their order.  In a whole
tree, a visitor and a transformer without hooks of their own meet every node once, outer ones first, and the
transformer keeps the tree. -/
theorem rebuild_calls (edit : Node → StateM σ (Option Node)) (meet : Node → StateM τ Unit) (node : Node)
    (s : σ) :
    let rebuilt := (node.rebuild (node.kind.map fun child => (child, recording edit child))).run (s, [])
    let walked := (node.children.forM fun child => discard (recording edit child)).run (s, [])
    let calls := walked.2.2
    rebuilt.2 = walked.2 ∧ calls.map Prod.fst = node.children ∧
      (node.rebuild (node.kind.map fun child => (child, edit child))).run s = (rebuilt.1, rebuilt.2.1) ∧
      (rebuilt.1 = none ↔ ∀ call ∈ calls, call.2 = none) ∧
      (∀ built, rebuilt.1 = some built → built.span = node.span ∧
        built.kind.map (fun _ => ()) = node.kind.map (fun _ => ()) ∧
        built.children = calls.map fun call => call.2.getD call.1) ∧
      visitAll meet node = node.subtree.forM meet ∧
      rebuildAll meet node = do
        node.subtree.forM meet
        return none := by
  intro rebuilt walked calls
  obtain ⟨results, same, answer, record⟩ := rebuild_recording edit node s
  have effects : rebuilt.2 = walked.2 :=
    congrArg (fun action : StateM _ Unit => (action.run (s, [])).2)
      (rebuild_bind_const (recording edit) (pure ()) node)
  have isRecord : calls = results.children := (congrArg Prod.snd effects).symm.trans record
  obtain ⟨sameAnswer, sameState⟩ := mirrors_recording edit node (s, []) s rfl
  refine ⟨effects, ?_, Prod.ext sameAnswer.symm sameState.symm, ?_, fun built isBuilt => ?_,
    visitAll_eq meet node, rebuildAll_eq meet node⟩
  · rw [isRecord, ← Kind.children_map, same]
    rfl
  · rw [isRecord, ← assemble_eq_none_iff, ← answer]
  · obtain rfl : built = ⟨node.span, results.map fun result => result.2.getD result.1⟩ := by
      rw [← assemble_getD same, ← answer, isBuilt]
      rfl
    refine ⟨rfl, ?_, ?_⟩
    · rw [← same]
      exact (Kind.map_map _ _ _).trans (Kind.map_map (fun _ => ()) Prod.fst results).symm
    · rw [isRecord]
      exact Kind.children_map _ _

end Node

end Resumable
