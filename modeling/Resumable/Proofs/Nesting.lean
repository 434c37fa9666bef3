import Mathlib.Data.List.Perm.Basic
import Resumable.Proofs.Plans

/-!
# How deep functions stand

A `Place` is a node of a tree together with the nodes around it.  `Node.places` lists the places of a
tree that the lowering can come to: all but those in the parameters of function declarations and set
accessors.  The functions that a run enters are those with few enough function scopes around them
(`entered_perm`), and the scopes that it refuses are those with exactly as many around them as the
limit says (`Node.tooDeep`); that many refusals are counted (`depthLimitHits_tally`).
-/

namespace Resumable

namespace Kind

variable {α β : Type}

/-- The children, without the parameters of a function declaration or a set accessor. -/
def explored : Kind α → List α
  | .functionDeclaration _ _ _ body | .getAccessorDeclaration _ _ body
  | .setAccessorDeclaration _ _ _ body => [body]
  | kind => kind.children

theorem explored_eq_children {kind : Kind α} (other : kind.form.isFunctionLike = false) :
    kind.explored = kind.children := by
  cases kind
  case functionDeclaration | getAccessorDeclaration | setAccessorDeclaration => cases other
  all_goals rfl

theorem explored_map (f : α → β) (kind : Kind α) : (kind.map f).explored = kind.explored.map f := by
  cases isFunction : kind.form.isFunctionLike with
  | false =>
    have other : (kind.map f).form.isFunctionLike = false := by rwa [form_map]
    rw [explored_eq_children isFunction, explored_eq_children other, children_map]
  | true =>
    cases kind
    case functionDeclaration | getAccessorDeclaration | setAccessorDeclaration => rfl
    all_goals cases isFunction

end Kind

/-- A node of a tree, with the nodes around it from the innermost on. -/
structure Place where
  around : List Node
  node : Node

/-- The number of function scopes around a place. -/
def Place.depth (place : Place) : Nat := place.around.countP (·.isFunctionScope)

namespace Node

variable {limit : Nat} {node body : Node} {around : List Node}

/-! ## Places -/

/-- The children that the lowering looks into. -/
def explored (node : Node) : List Node := node.kind.explored

theorem explored_function (isFunction : node.isFunctionLike = true)
    (has : node.body? = some body) : node.explored = [body] := by
  obtain ⟨span, kind⟩ := node
  cases kind
  case functionDeclaration | getAccessorDeclaration | setAccessorDeclaration =>
    cases has
    rfl
  all_goals cases isFunction

theorem explored_other (other : node.isFunctionLike = false) : node.explored = node.children :=
  Kind.explored_eq_children other

theorem explored_subset (node : Node) : node.explored ⊆ node.children := by
  cases isFunction : node.isFunctionLike with
  | false => exact explored_other isFunction ▸ List.Subset.refl _
  | true =>
    obtain ⟨body, has⟩ := exists_body isFunction
    rw [explored_function isFunction has, children_function isFunction has]
    exact List.subset_append_right _ _

/-- The places of a tree in source order, outer ones first. What stands in the parameters of a
function declaration or a set accessor is left out. -/
def places (node : Node) : List Node → List Place :=
  node.para fun node parts around =>
    ⟨around, node⟩ :: parts.explored.flatMap fun part => part.2 (node :: around)

theorem places_eq (node : Node) (around : List Node) :
    node.places around =
      ⟨around, node⟩ :: node.explored.flatMap fun child => child.places (node :: around) := by
  rw [places, para_eq]
  simp only [Kind.explored_map, List.flatMap_map]
  rfl

theorem depth_le_of_mem_places {place : Place} (mem : place ∈ node.places around) :
    around.countP (·.isFunctionScope) ≤ place.depth := by
  induction node using inductionOn generalizing around with
  | step node ih =>
    rw [places_eq] at mem
    rcases List.mem_cons.1 mem with rfl | below
    · exact Nat.le_refl _
    · obtain ⟨child, isExplored, mem⟩ := List.mem_flatMap.1 below
      have deeper := ih child (explored_subset node isExplored) mem
      rw [List.countP_cons] at deeper
      omega

theorem mem_subtree_of_mem_places {place : Place} (mem : place ∈ node.places around) :
    place.node ∈ node.subtree := by
  induction node using inductionOn generalizing around with
  | step node ih =>
    rw [places_eq] at mem
    rcases List.mem_cons.1 mem with rfl | below
    · exact self_mem_subtree _
    · obtain ⟨child, isExplored, mem⟩ := List.mem_flatMap.1 below
      have isChild := explored_subset node isExplored
      exact mem_subtree_iff.2 (.inr ⟨child, isChild, ih child isChild mem⟩)

/-- The places of some kind are the place of the node itself and those below it. -/
theorem filter_places_eq (p : Place → Bool) (node : Node) (around : List Node) :
    ((node.places around).filter p).map Place.node =
      (if p ⟨around, node⟩ then [node] else []) ++ node.explored.flatMap fun child =>
        ((child.places (node :: around)).filter p).map Place.node := by
  rw [places_eq, List.filter_cons, List.filter_flatMap]
  split <;> simp [List.map_flatMap]

/-- No place of a tree is of some kind if no place that stands at least as deep is. -/
theorem filter_places_eq_nil {p : Place → Bool}
    (none : ∀ place : Place, around.countP (·.isFunctionScope) ≤ place.depth → p place = false) :
    ((node.places around).filter p).map Place.node = [] := by
  rw [List.map_eq_nil_iff, List.filter_eq_nil_iff]
  intro place mem
  rw [none place (depth_le_of_mem_places mem)]
  exact Bool.false_ne_true

/-! ## Refused scopes -/

/-- The function scopes of a tree with exactly so many function scopes around them, in source order. -/
def tooDeep (limit : Nat) (node : Node) (around : List Node) : List Node :=
  ((node.places around).filter fun place =>
    place.node.isFunctionScope && place.depth == limit).map Place.node

theorem tooDeep_eq (limit : Nat) (node : Node) (around : List Node) :
    node.tooDeep limit around =
      (if node.isFunctionScope && around.countP (·.isFunctionScope) == limit then [node] else []) ++
        node.explored.flatMap fun child => child.tooDeep limit (node :: around) :=
  filter_places_eq (fun place => place.node.isFunctionScope && place.depth == limit) node around

theorem tooDeep_of_shallow (shallow : ∀ place ∈ node.places around,
    place.node.isFunctionScope = true → place.depth < limit) : node.tooDeep limit around = [] := by
  rw [tooDeep, List.map_eq_nil_iff, List.filter_eq_nil_iff]
  intro place mem
  simp only [Bool.and_eq_true, beq_iff_eq, not_and]
  intro scope
  exact Nat.ne_of_lt (shallow place mem scope)

theorem tooDeep_of_lt (deeper : limit < around.countP (·.isFunctionScope)) :
    node.tooDeep limit around = [] := by
  refine filter_places_eq_nil fun place le => ?_
  rw [Bool.and_eq_false_iff, beq_eq_false_iff_ne]
  exact .inr (by omega)

/-- A function scope at the limit is refused, and nothing inside it is. -/
theorem tooDeep_refused (scope : node.isFunctionScope = true)
    (atLimit : around.countP (·.isFunctionScope) = limit) : node.tooDeep limit around = [node] := by
  have inside : (node.explored.flatMap fun child => child.tooDeep limit (node :: around)) = [] := by
    refine List.flatMap_eq_nil_iff.2 fun child _ => tooDeep_of_lt ?_
    rw [List.countP_cons_of_pos scope, atLimit]
    exact Nat.lt_succ_self limit
  rw [tooDeep_eq, inside, if_pos (by simp [scope, atLimit])]
  rfl

theorem tooDeep_room (room : node.isFunctionScope = true → around.countP (·.isFunctionScope) < limit) :
    node.tooDeep limit around =
      node.explored.flatMap fun child => child.tooDeep limit (node :: around) := by
  rw [tooDeep_eq, if_neg]
  · rfl
  · simp only [Bool.and_eq_true, beq_iff_eq, not_and]
    intro scope
    have := room scope
    omega

/-! ## Entered functions -/

/-- The function declarations and accessors of a tree with fewer function scopes around them, outer
ones first. -/
def functionsWithin (limit : Nat) (node : Node) (around : List Node) : List Node :=
  ((node.places around).filter fun place =>
    place.node.isFunctionLike && decide (place.depth < limit)).map Place.node

theorem mem_functionsWithin {function : Node} (mem : function ∈ node.functionsWithin limit around) :
    function.isFunctionLike = true ∧ function ∈ node.subtree := by
  obtain ⟨place, isPlace, rfl⟩ := List.mem_map.1 mem
  obtain ⟨mem, found⟩ := List.mem_filter.1 isPlace
  rw [Bool.and_eq_true] at found
  exact ⟨found.1, mem_subtree_of_mem_places mem⟩

theorem ownScope_subset_of_mem_functionsWithin {function body : Node}
    (mem : function ∈ node.functionsWithin limit around) (has : function.body? = some body) :
    body.ownScope ⊆ node.subtree := by
  obtain ⟨isFunction, inside⟩ := mem_functionsWithin mem
  have isChild : body ∈ function.children := by simp [children_function isFunction has]
  intro inner inScope
  have inBody := ownScope_subset_subtree body inScope
  exact subtree_subset inside (mem_subtree_iff.2 (.inr ⟨body, isChild, inBody⟩))

theorem functionsWithin_eq (limit : Nat) (node : Node) (around : List Node) :
    node.functionsWithin limit around =
      (if node.isFunctionLike && decide (around.countP (·.isFunctionScope) < limit) then [node]
        else []) ++
        node.explored.flatMap fun child => child.functionsWithin limit (node :: around) :=
  filter_places_eq (fun place => place.node.isFunctionLike && decide (place.depth < limit)) node
    around

theorem functionsWithin_of_le (deep : limit ≤ around.countP (·.isFunctionScope)) :
    node.functionsWithin limit around = [] := by
  refine filter_places_eq_nil fun place le => ?_
  rw [Bool.and_eq_false_iff, decide_eq_false_iff_not]
  exact .inr (by omega)

/-- What is entered below a node that is no function declaration or accessor. -/
theorem entered_other (other : node.isFunctionLike = false)
    (room : node.isFunctionScope = true → around.countP (·.isFunctionScope) < limit) :
    node.entered limit (around.countP (·.isFunctionScope)) =
      node.children.flatMap fun child =>
        child.entered limit ((node :: around).countP (·.isFunctionScope)) := by
  cases node using cases_scope with
  | function node body isFunction => rw [other] at isFunction; cases isFunction
  | expression node isExpression =>
    have scope := isFunctionScope_of_expression isExpression
    rw [entered_expression isExpression, if_neg (Nat.not_le.2 (room scope)),
      List.countP_cons_of_pos scope]
  | plain node plain => rw [entered_plain plain, List.countP_cons_of_neg (by simp [plain])]

/-- A run enters the functions that have fewer function scopes around them than the limit, inner ones
before outer ones. -/
theorem entered_perm (limit : Nat) (node : Node) (around : List Node) :
    (node.entered limit (around.countP (·.isFunctionScope))).Perm
      (node.functionsWithin limit around) := by
  induction node using inductionOn generalizing around with
  | step node ih =>
    by_cases refused : node.isFunctionScope = true ∧ limit ≤ around.countP (·.isFunctionScope)
    · rw [entered_deep refused.1 refused.2, functionsWithin_of_le refused.2]
    · have room (scope : node.isFunctionScope = true) : around.countP (·.isFunctionScope) < limit := by
        simp only [scope, true_and] at refused
        omega
      rw [functionsWithin_eq]
      cases isFunction : node.isFunctionLike with
      | true =>
        have scope := isFunctionScope_of_like isFunction
        obtain ⟨body, has⟩ := exists_body isFunction
        have explored := explored_function isFunction has
        have below := ih body (explored_subset node (by simp [explored])) (node :: around)
        rw [List.countP_cons_of_pos scope] at below
        rw [entered_function isFunction has, if_neg (Nat.not_le.2 (room scope)), explored,
          List.flatMap_singleton, if_pos (by simp [room scope])]
        exact List.perm_append_comm.trans (below.append_left [node])
      | false =>
        rw [entered_other isFunction room, explored_other isFunction]
        exact .flatMap_left _ fun child mem => ih child mem (node :: around)

end Node

namespace Lowering

theorem Stats.depthLimitHits_add (a b : Stats) :
    (a + b).depthLimitHits = a.depthLimitHits + b.depthLimitHits := rfl

theorem Stats.depthLimitHits_carrying (plan : Option Plan) :
    (Stats.carrying plan).depthLimitHits = 0 := by
  cases plan <;> rfl

theorem Stats.depthLimitHits_map_sum {α : Type} {f : α → Stats} {g : α → List Node} :
    ∀ {l : List α}, (∀ a ∈ l, (f a).depthLimitHits = (g a).length) →
      (l.map f).sum.depthLimitHits = (l.flatMap g).length
  | [], _ => rfl
  | a :: l, each => by
    rw [List.map_cons, List.sum_cons, depthLimitHits_add, List.flatMap_cons, List.length_append,
      each a (by simp), depthLimitHits_map_sum fun a' mem => each a' (by simp [mem])]

/-- A run counts one refusal for every function scope that stands at the limit. -/
theorem depthLimitHits_tally (limit : Nat) (node : Node) (around : List Node)
    (within : around.countP (·.isFunctionScope) ≤ limit) :
    (tally limit node (around.countP (·.isFunctionScope))).depthLimitHits =
      (node.tooDeep limit around).length := by
  induction node using Node.inductionOn generalizing around with
  | step node ih =>
    by_cases refused : node.isFunctionScope = true ∧ limit ≤ around.countP (·.isFunctionScope)
    · rw [Node.tooDeep_refused refused.1 (by omega)]
      cases node using Node.cases_scope with
      | function node body isFunction has mem =>
        rw [tally_function isFunction has, if_pos refused.2]
        rfl
      | expression node isExpression =>
        rw [tally_expression isExpression, if_pos refused.2]
        rfl
      | plain node plain => exact absurd (refused.1.symm.trans plain) nofun
    · have room (scope : node.isFunctionScope = true) : around.countP (·.isFunctionScope) < limit := by
        simp only [scope, true_and] at refused
        omega
      rw [Node.tooDeep_room room]
      cases node using Node.cases_scope with
      | function node body isFunction has mem =>
        have scope := Node.isFunctionScope_of_like isFunction
        have below := ih body mem (node :: around)
        rw [List.countP_cons_of_pos scope] at below
        rw [tally_function isFunction has, if_neg (by have := room scope; omega),
          Node.explored_function isFunction has, List.flatMap_singleton, ← below (room scope),
          Stats.depthLimitHits_add, Stats.depthLimitHits_add, Stats.depthLimitHits_carrying]
        rfl
      | expression node isExpression =>
        have scope := Node.isFunctionScope_of_expression isExpression
        have other := Node.isFunctionLike_of_expression isExpression
        rw [tally_expression isExpression, if_neg (by have := room scope; omega),
          Node.explored_other other]
        refine Stats.depthLimitHits_map_sum fun child mem => ?_
        have below := ih child mem (node :: around)
        rw [List.countP_cons_of_pos scope] at below
        exact below (room scope)
      | plain node plain =>
        rw [tally_plain plain, Node.explored_other (Node.isFunctionLike_of_not_scope plain)]
        refine Stats.depthLimitHits_map_sum fun child mem => ?_
        have below := ih child mem (node :: around)
        rw [List.countP_cons_of_neg (by simp [plain])] at below
        exact below within

end Lowering

end Resumable
