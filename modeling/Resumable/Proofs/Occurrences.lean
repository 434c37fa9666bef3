import Mathlib.Algebra.Order.BigOperators.Group.List
import Mathlib.Algebra.Order.Group.Nat
import Resumable.Proofs.Bodies
import Resumable.Proofs.Stability

/-!
# How often names stand in a tree

`Node.tally` adds up what the names in a tree count, in function scopes too: `Node.occurrences` counts
a name wherever it stands, and `Node.declarations` counts the variables of that name.  A tally is a
census that looks into functions (`census_throughout`), so what the engines do to a census they do to
a tally.  A tally splits into that of the own scope and those of the functions in it
(`tally_eq_within_add`), and if only one child of a node bears a name, then the tally of the node is
that of the child (`tally_focus`).
-/

namespace Resumable

/-- What a name counts, at a node of some form. -/
abbrev Weight := Form → String → Nat

namespace Weight

/-- Every node that bears the name counts. -/
def bearing (name : String) : Weight := fun _ own => if own = name then 1 else 0

/-- Every variable that is declared under the name counts. -/
def declaring (name : String) : Weight := fun form own =>
  if form = .variableDeclaration ∧ own = name then 1 else 0

/-- Only one name counts, and what an `await` binds counts as the identifier does by which it is
replaced. -/
structure IsAbout (w : Weight) (name : String) : Prop where
  other : ∀ form own, own ≠ name → w form own = 0
  awaits : w .asyncSuspensionStatement = w .identifier

theorem isAbout_bearing (name : String) : (bearing name).IsAbout name :=
  ⟨fun _ _ ne => if_neg ne, rfl⟩

theorem isAbout_declaring (name : String) : (declaring name).IsAbout name :=
  ⟨fun _ _ ne => if_neg fun both => ne both.2, rfl⟩

end Weight

namespace Census

/-- Counts names in the own scope of a tree, and in the functions in it. -/
def throughout (w : Weight) (tally : Node → Nat) : Census := ⟨w, fun _ _ => 0, fun _ f => tally f⟩

/-- Counts names in the own scope of a tree. -/
def within (w : Weight) : Census := throughout w fun _ => 0

theorem ignores_of_isAbout {w : Weight} {name other : String} (about : w.IsAbout name)
    (ne : other ≠ name) (tally : Node → Nat) : (throughout w tally).Ignores other :=
  ⟨about.other _ _ ne, about.other _ _ ne⟩

end Census

namespace Node

variable {w : Weight} {node inner : Node} {name : String}

/-! ## Tallies -/

/-- What the own name of a node counts. -/
def ownTally (w : Weight) (node : Node) : Nat := (node.kind.ownName?.map (w node.form)).getD 0

/-- What the names in a tree count. -/
def tally (w : Weight) (node : Node) : Nat := (node.subtree.map (ownTally w)).sum

/-- How often a name stands in a tree. -/
def occurrences (node : Node) (name : String) : Nat := node.tally (.bearing name)

/-- How many variables of a name are declared in a tree. -/
def declarations (node : Node) (name : String) : Nat := node.tally (.declaring name)

theorem tally_eq (w : Weight) (node : Node) :
    node.tally w = node.ownTally w + (node.children.map (tally w)).sum := by
  rw [tally, subtree_eq, List.map_cons, List.sum_cons, List.map_flatMap, List.flatMap_def,
    List.sum_flatten, List.map_map]
  rfl

theorem tally_mk (w : Weight) (span : Span) (kind : Kind Node) :
    tally w ⟨span, kind⟩ =
      (kind.ownName?.map (w kind.form)).getD 0 + (kind.children.map (tally w)).sum :=
  tally_eq w ⟨span, kind⟩

theorem tally_le_of_mem (mem : inner ∈ node.subtree) : inner.tally w ≤ node.tally w := by
  induction node using inductionOn with
  | step node ih =>
    rcases mem_subtree_iff.1 mem with rfl | ⟨child, isChild, mem⟩
    · exact Nat.le_refl _
    · have inSum : child.tally w ≤ (node.children.map (tally w)).sum :=
        List.le_sum_of_mem (List.mem_map_of_mem isChild)
      rw [tally_eq w node]
      exact Nat.le_trans (ih child isChild mem) (Nat.le_trans inSum (Nat.le_add_left _ _))

theorem ownTally_of_isAbout (about : w.IsAbout name) (other : node.kind.ownName? ≠ some name) :
    node.ownTally w = 0 := by
  unfold ownTally
  cases own : node.kind.ownName? with
  | none => rfl
  | some ownName => exact about.other _ _ fun same => other (by rw [own, same])

theorem tally_of_not_uses (about : w.IsAbout name) (unused : ¬ node.uses name) :
    node.tally w = 0 := by
  refine List.sum_eq_zero fun count mem => ?_
  obtain ⟨inner, inside, rfl⟩ := List.mem_map.1 mem
  exact ownTally_of_isAbout about fun own => unused ⟨inner, inside, own⟩

theorem uses_iff_occurrences : node.uses name ↔ 0 < node.occurrences name := by
  constructor
  · rintro ⟨inner, inside, own⟩
    have one : inner.ownTally (.bearing name) = 1 := by simp [ownTally, own, Weight.bearing]
    have inSum : inner.ownTally (.bearing name) ≤ node.occurrences name :=
      List.le_sum_of_mem (List.mem_map_of_mem inside)
    omega
  · intro positive
    by_contra unused
    have zero : node.occurrences name = 0 := tally_of_not_uses (Weight.isAbout_bearing name) unused
    omega

theorem occurrences_of_not_uses (unused : ¬ node.uses name) : node.occurrences name = 0 :=
  tally_of_not_uses (Weight.isAbout_bearing name) unused

theorem not_uses_of_occurrences_le {other : Node} (le : other.occurrences name ≤ node.occurrences name)
    (unused : ¬ node.uses name) : ¬ other.uses name := by
  rw [uses_iff_occurrences, Nat.not_lt]
  exact occurrences_of_not_uses unused ▸ le

/-! ## Tallies as censuses -/

theorem here_throughout (w : Weight) (count : Node → Nat) (node : Node) :
    (Census.throughout w count).here node = node.ownTally w := by
  obtain ⟨span, kind⟩ := node
  cases kind <;> rfl

/-- A tally is a census to which a function counts what stands in it. -/
theorem census_throughout (w : Weight) (node : Node) (isMember : Bool) :
    node.census (.throughout w (tally w)) false isMember = node.tally w := by
  induction node using inductionOn generalizing isMember with
  | step node ih =>
    cases scope : node.isFunctionScope with
    | true => exact census_scope scope
    | false =>
      rw [census_all scope, here_throughout, tally_eq w node]
      congr 2
      exact List.map_congr_left fun child mem => ih child mem _

/-- A tally is that of the own scope and of the functions in it. -/
theorem tally_eq_within_add (w : Weight) (node : Node) (isMember : Bool) :
    node.tally w =
      node.census (.within w) false isMember + ((node.functions false).map (tally w)).sum := by
  induction node using inductionOn generalizing isMember with
  | step node ih =>
    cases scope : node.isFunctionScope with
    | true =>
      rw [census_scope scope, functions_of_scope false scope]
      simp [Census.within, Census.throughout]
    | false =>
      have children (l : List Node) (inside : l ⊆ node.children) : (l.map (tally w)).sum =
          (l.map fun child => child.census (.within w) false node.isMemberList).sum +
            ((l.flatMap (functions false)).map (tally w)).sum := by
        induction l with
        | nil => rfl
        | cons child rest ihRest =>
          simp only [List.cons_subset] at inside
          rw [List.map_cons, List.sum_cons, ih child inside.1 node.isMemberList, ihRest inside.2]
          simp only [List.map_cons, List.sum_cons, List.flatMap_cons, List.map_append, List.sum_append]
          omega
      rw [tally_eq w node, census_all scope, Census.within, here_throughout,
        functions_of_not_scope false scope, keptChildren_false,
        children node.children (List.Subset.refl _), Nat.add_assoc]
      rfl

theorem named_le_census {c : Census} {initializer : Node} {name : String}
    (declares : declaredVariable? initializer = some name) (isMember : Bool) :
    c.named .variableDeclaration name ≤ initializer.census c false isMember := by
  obtain ⟨span, kind⟩ := initializer
  unfold declaredVariable? at declares
  split at declares
  · rename_i firstSpan first initial rest heq
    obtain rfl : kind = _ := heq
    cases declares
    simp only [census_mk, Kind.form, Form.isFunctionScope, Form.isFunctionLike, Kind.children,
      Census.here, Node.kind, Kind.ownName?, List.map_cons, List.sum_cons, Option.map_some,
      Option.getD_some, Bool.false_eq_true, if_false]
    omega
  · cases declares

/-- What lowering the for-in loops of a scope drops counts for nothing afterwards. -/
theorem census_true_le (c : Census) (node : Node) (isMember : Bool) :
    node.census c true isMember ≤ node.census c false isMember := by
  induction node using inductionOn generalizing isMember with
  | step node ih =>
    cases scope : node.isFunctionScope with
    | true => rw [census_scope scope, census_scope scope]
    | false =>
      have children (l : List Node) (inside : l ⊆ node.children) :
          (l.map fun child => child.census c true node.isMemberList).sum ≤
            (l.map fun child => child.census c false node.isMemberList).sum :=
        List.sum_le_sum fun child mem => ih child (inside mem) _
      rw [census_plain scope, census_all scope]
      by_cases loop : node.form = .forInStatement
      · obtain ⟨span, kind⟩ := node
        cases kind <;> try cases loop
        rename_i initializer expression body
        simp only [Node.children, Node.kind, Kind.children, List.mem_cons, List.not_mem_nil, or_false,
          forall_eq_or_imp, forall_eq] at ih
        obtain ⟨ofInitializer, ofExpression, ofBody⟩ := ih
        have first := ofInitializer false
        have second := ofExpression false
        have third := ofBody false
        cases declares : declaredVariable? initializer with
        | none =>
          simp [Census.bound, keptChildren, Kind.kept, dropsInitializer, Node.kind, declares,
            Node.children, Kind.children, isMemberList]
          omega
        | some name =>
          have bound := named_le_census (c := c) declares false
          simp [Census.bound, keptChildren, Kind.kept, dropsInitializer, Node.kind, declares,
            Node.children, Kind.children, isMemberList]
          omega
      · rw [c.bound_of_not_loop (.inr loop), keptChildren, Kind.kept_eq_children _ loop, Nat.add_zero]
        exact Nat.add_le_add_left (children _ (List.Subset.refl _)) _

/-! ## Rebuilt nodes -/

section Rebuilt

variable {α : Type} {parts : Kind α} {before after : α → Node} {span : Span}

theorem ownTally_map (f g : α → Node) (w : Weight) (span : Span) (kind : Kind α) :
    ownTally w ⟨span, kind.map f⟩ = ownTally w ⟨span, kind.map g⟩ := by
  simp [ownTally, form, Node.kind, Kind.ownName?_map]

theorem tally_map (f : α → Node) (w : Weight) (span : Span) (kind : Kind α) :
    tally w ⟨span, kind.map f⟩ =
      ownTally w ⟨span, kind.map f⟩ + (kind.children.map fun part => (f part).tally w).sum := by
  rw [tally_eq]
  simp [children, Node.kind, Kind.children_map, Function.comp_def]

theorem tally_map_le (before after : α → Node) (span : Span)
    (each : ∀ part ∈ parts.children, (after part).tally w ≤ (before part).tally w) :
    tally w ⟨span, parts.map after⟩ ≤ tally w ⟨span, parts.map before⟩ := by
  rw [tally_map, tally_map, ownTally_map after before]
  exact Nat.add_le_add_left (List.sum_le_sum each) _

/-- If each child was given names of its own and the name is one of those that were given to a
certain child, then what the name counts in the new node it counts in what became of this child. -/
theorem tally_focus (before after : α → Node) (given : α → List String) (nodup : (parts.children.flatMap given).Nodup)
    (unused : tally w ⟨span, parts.map before⟩ = 0)
    (others : ∀ part ∈ parts.children, name ∉ given part →
      (after part).tally w ≤ (before part).tally w)
    {part : α} (mem : part ∈ parts.children) (isGiven : name ∈ given part) :
    tally w ⟨span, parts.map after⟩ = (after part).tally w := by
  rw [tally_map, Nat.add_eq_zero_iff, List.sum_eq_zero_iff] at unused
  obtain ⟨own, below⟩ := unused
  have absent (other : α) (mem : other ∈ parts.children) (notGiven : name ∉ given other) :
      (after other).tally w = 0 := by
    have le := others other mem notGiven
    rw [below _ (List.mem_map_of_mem mem)] at le
    omega
  rw [tally_map, ownTally_map after before, own, Nat.zero_add]
  obtain ⟨pre, post, split⟩ := List.append_of_mem mem
  rw [split] at nodup absent ⊢
  rw [List.flatMap_append, List.flatMap_cons, List.nodup_append] at nodup
  obtain ⟨-, nodup, apart⟩ := nodup
  obtain ⟨-, -, apart'⟩ := List.nodup_append.1 nodup
  have inPre : (pre.map fun part => (after part).tally w).sum = 0 :=
    List.sum_eq_zero fun count isCount => by
      obtain ⟨other, isOther, rfl⟩ := List.mem_map.1 isCount
      refine absent other (by simp [isOther]) fun given => ?_
      exact apart name (List.mem_flatMap.2 ⟨other, isOther, given⟩) name (by simp [isGiven]) rfl
  have inPost : (post.map fun part => (after part).tally w).sum = 0 :=
    List.sum_eq_zero fun count isCount => by
      obtain ⟨other, isOther, rfl⟩ := List.mem_map.1 isCount
      refine absent other (by simp [isOther]) fun given => ?_
      exact apart' name isGiven name (List.mem_flatMap.2 ⟨other, isOther, given⟩) rfl
  simp [inPre, inPost]

end Rebuilt

theorem mem_children_of_body {body : Node} (has : node.body? = some body) : body ∈ node.children := by
  obtain ⟨span, kind⟩ := node
  cases kind <;> cases has <;> simp [children, Node.kind, Kind.children]

theorem body?_withBody {body : Node} (has : node.body? = some body) (result : Node) :
    (node.withBody result).body? = some result := by
  obtain ⟨span, kind⟩ := node
  cases kind <;> cases has <;> rfl

theorem tally_withBody (w : Weight) {body : Node} (has : node.body? = some body) (result : Node) :
    (node.withBody result).tally w + body.tally w = node.tally w + result.tally w := by
  rw [tally_eq w (node.withBody result), tally_eq w node]
  obtain ⟨span, kind⟩ := node
  cases kind <;> cases has <;>
    simp [withBody, Node.kind, ownTally, Node.form, Kind.form, Kind.ownName?, children, Kind.children] <;>
    omega

/-- In a function with another body, a name that was new to the function stands in that body only. -/
theorem tally_withBody_of_not_uses (about : w.IsAbout name) {body : Node}
    (has : node.body? = some body) (unused : ¬ node.uses name) (result : Node) :
    (node.withBody result).tally w = result.tally w := by
  have same := tally_withBody w has result
  have inBody : ¬ body.uses name := fun used => unused (uses_of_child (mem_children_of_body has) used)
  rw [tally_of_not_uses about unused, tally_of_not_uses about inBody, Nat.zero_add] at same
  exact same

end Node

/-- What stands in a block that hands a body to a helper is the helper and what stands in the body. -/
theorem Delegation.tally_delegate (w : Weight) (helper : String) (body : Node) :
    (delegate helper body).tally w = w .identifier helper + body.tally w := by
  have inner : (Build.functionExpression [] body true).tally w = body.tally w := by
    rw [Node.tally_eq]
    simp [Build.functionExpression, Node.synthetic, Node.ownTally, Node.kind, Kind.ownName?,
      Node.children, Kind.children]
  rw [← Node.census_throughout w _ false, census_delegate, ← inner]
  rfl

end Resumable
