import Mathlib.Data.List.Infix
import Resumable.Proofs.Occurrences
import Resumable.Proofs.Protocol

/-!
# Where made-up names stand

Lowering a for-in loop takes four names, and replacing an iterating `yield` takes three.  An
`Allotment` records for which statement names were taken, and its home (`Allotment.IsHome`) is the block
that holds the statements which took the place of that one.  A tree contains the names
(`Allotment.IsContained`) if it declares each of them at most once and all that bears them stands in
the home.
-/

namespace Resumable

/-! ## Allotments -/

/-- The names that were taken for one statement. -/
structure Allotment where
  /-- The span of the statement. -/
  span : Span
  /-- The names in the order in which they were taken. -/
  names : List String
  /-- The span and the names of the loop around it, for a for-in loop that is the body of another
  one. -/
  outer : Option (Span × ForIn.Names)

namespace Allotment

/-- The span of the statement, and that of the for-in loop of which it is the body. -/
def key (a : Allotment) : Span × Option Span := (a.span, a.outer.map Prod.fst)

/-- The allotment for a loop that is the body of another one. -/
def inBodyOf (outer : Span × ForIn.Names) (a : Allotment) : Allotment := { a with outer := some outer }

@[simp] theorem names_inBodyOf (outer : Span × ForIn.Names) (a : Allotment) :
    (a.inBodyOf outer).names = a.names := rfl

@[simp] theorem key_inBodyOf (outer : Span × ForIn.Names) (a : Allotment) :
    (a.inBodyOf outer).key = (a.span, some outer.1) := rfl

/-- The block holds the statements that took the place of the statement. It is the block that
replaced the statement. But the block that replaced the body of a for-in loop is dissolved in the block
of the walk over the keys of that loop. -/
structure IsHome (a : Allotment) (block : Node) : Prop where
  isBlock : block.form = .block
  replaces : a.outer = none → block.span = a.span
  walks : ∀ outer ∈ a.outer, outer.2.skipDeleted ∈ block.children
  declares : ∃ name ∈ a.names, ∃ statement ∈ block.children, declaredVariable? statement = some name

/-- Each of the names is declared at most once in the tree. They do not stand in the tree at all, or
the home of the statement is one of some places in it, and all that bears the names stands in there. -/
structure IsContained (a : Allotment) (places : List Node) (tree : Node) : Prop where
  once : ∀ name ∈ a.names, tree.declarations name ≤ 1
  inside : (∀ name ∈ a.names, tree.occurrences name = 0) ∨
    ∃ block ∈ places, a.IsHome block ∧
      ∀ name ∈ a.names, block.occurrences name = tree.occurrences name

variable {a : Allotment} {places places' : List Node} {tree tree' : Node}

theorem IsHome.children_eq {block : Node} (home : a.IsHome block) :
    block.children = block.statements := by
  obtain ⟨span, kind⟩ := block
  have form := home.isBlock
  cases kind <;> try cases form
  rfl

/-- Another tree in which the names count as much contains them too, if it has a home for them where
the one tree has it. -/
theorem IsContained.move (contained : a.IsContained places tree)
    (same : ∀ name ∈ a.names, ∀ w : Weight, w.IsAbout name → tree'.tally w = tree.tally w)
    (moved : ∀ block ∈ places, a.IsHome block → ∃ block' ∈ places', a.IsHome block' ∧
      ∀ name ∈ a.names, block'.occurrences name = block.occurrences name) :
    a.IsContained places' tree' := by
  have occurrences (name : String) (mem : name ∈ a.names) :
      tree'.occurrences name = tree.occurrences name := same name mem _ (Weight.isAbout_bearing name)
  refine ⟨fun name mem => ?_, ?_⟩
  · exact (same name mem _ (Weight.isAbout_declaring name)).trans_le (contained.once name mem)
  · rcases contained.inside with unused | ⟨block, place, home, inside⟩
    · exact .inl fun name mem => (occurrences name mem).trans (unused name mem)
    · obtain ⟨block', place', home', count⟩ := moved block place home
      refine .inr ⟨block', place', home', fun name mem => ?_⟩
      rw [count name mem, inside name mem, occurrences name mem]

/-- A tree around another one contains the names, if they do not stand beside that one. -/
theorem IsContained.around (contained : a.IsContained places tree)
    (same : ∀ name ∈ a.names, ∀ w : Weight, w.IsAbout name → tree'.tally w = tree.tally w)
    (subset : places ⊆ places') : a.IsContained places' tree' :=
  contained.move same fun block place home => ⟨block, subset place, home, fun _ _ => rfl⟩

/-- A tree without the names contains them. -/
theorem isContained_of_unused
    (unused : ∀ name ∈ a.names, ∀ w : Weight, w.IsAbout name → tree.tally w = 0) :
    a.IsContained places tree :=
  ⟨fun name mem => (unused name mem _ (Weight.isAbout_declaring name)).trans_le (Nat.zero_le 1),
    .inl fun name mem => unused name mem _ (Weight.isAbout_bearing name)⟩

/-- If names were taken for each child of a node, and what became of the children contains them, then
what became of the node contains them: they stand in no other child. -/
theorem isContained_rebuilt {node : Node} {parts : Kind (Node × List Allotment × Node)}
    {P : String → Prop} (placesOf : Node → List Node) (same : parts.map Prod.fst = node.kind)
    (nodup : ((parts.children.flatMap fun part => part.2.1).flatMap Allotment.names).Nodup)
    (new : ∀ name ∈ (parts.children.flatMap fun part => part.2.1).flatMap Allotment.names,
      ¬ node.uses name ∧ P name)
    (others : ∀ part ∈ parts.children, ∀ name, P name → name ∉ part.2.1.flatMap Allotment.names →
      ∀ w : Weight, w.IsAbout name → part.2.2.tally w ≤ part.1.tally w)
    (subset : ∀ part ∈ parts.children, placesOf part.2.2 ⊆ places)
    (each : ∀ part ∈ parts.children, (part.2.1.flatMap Allotment.names).Nodup →
      (∀ name ∈ part.2.1.flatMap Allotment.names, ¬ part.1.uses name ∧ P name) →
      ∀ a ∈ part.2.1, a.IsContained (placesOf part.2.2) part.2.2) :
    ∀ a ∈ parts.children.flatMap fun part => part.2.1,
      a.IsContained places ⟨node.span, parts.map fun part => part.2.2⟩ := by
  intro a mem
  obtain ⟨part, isPart, isGiven⟩ := List.mem_flatMap.1 mem
  rw [List.flatMap_assoc] at nodup new
  have newHere (name : String) (isName : name ∈ part.2.1.flatMap Allotment.names) :
      ¬ node.uses name ∧ P name := new name (List.mem_flatMap.2 ⟨part, isPart, isName⟩)
  have isChild : part.1 ∈ node.children := by
    rw [Lowering.Course.children_eq same]
    exact List.mem_map_of_mem isPart
  have contained := each part isPart ((List.nodup_flatMap.1 nodup).1 part isPart)
    (fun name isName => ⟨fun used =>
      (newHere name isName).1 ((Node.uses_iff node name).2 (.inr ⟨_, isChild, used⟩)),
      (newHere name isName).2⟩) a isGiven
  refine contained.around (fun name isName w about => ?_) (subset part isPart)
  have given : name ∈ part.2.1.flatMap Allotment.names := List.mem_flatMap.2 ⟨a, isGiven, isName⟩
  refine Node.tally_focus Prod.fst _ (fun part => part.2.1.flatMap Allotment.names) nodup ?_
    (fun other isOther notGiven => ?_) isPart given
  · rw [Node.mk_of_map_fst same]
    exact Node.tally_of_not_uses about (newHere name given).1
  · exact others other isOther name (newHere name given).2 notGiven w about

/-- A home contains the names if it declares each of them at most once. -/
theorem IsHome.isContained (home : a.IsHome tree)
    (once : ∀ name ∈ a.names, tree.declarations name ≤ 1) : a.IsContained tree.ownScope tree := by
  refine ⟨once, .inr ⟨tree, Node.mem_ownScope_iff.2 ⟨?_, .inl rfl⟩, home, fun _ _ => rfl⟩⟩
  rw [Node.isFunctionScope, home.isBlock]
  rfl

end Allotment

/-- A name that was taken for no child of a node counts no more than before. -/
theorem Node.tally_le_rebuilt {node : Node} {parts : Kind (Node × List Allotment × Node)} {w : Weight}
    {name : String} (same : parts.map Prod.fst = node.kind)
    (notGiven : name ∉ (parts.children.flatMap fun part => part.2.1).flatMap Allotment.names)
    (each : ∀ part ∈ parts.children, name ∉ part.2.1.flatMap Allotment.names →
      part.2.2.tally w ≤ part.1.tally w) :
    Node.tally w ⟨node.span, parts.map fun part => part.2.2⟩ ≤ node.tally w := by
  rw [List.flatMap_assoc] at notGiven
  have le := tally_map_le (w := w) Prod.fst
    (fun part : Node × List Allotment × Node => part.2.2) node.span fun part mem =>
      each part mem fun given => notGiven (List.mem_flatMap.2 ⟨part, mem, given⟩)
  rwa [mk_of_map_fst same] at le

namespace NameSupply

/-- A supply gave the names of some allotments, one after the other, and became another. -/
def Allots (s : NameSupply) (allotments : List Allotment) (later : NameSupply) : Prop :=
  s.Gives (allotments.flatMap Allotment.names) later

theorem isTrace_allots : IsTrace Allots where
  nil s := isTrace_gives.nil s
  append first rest := by
    rw [Allots, List.flatMap_append]
    exact isTrace_gives.append first rest

/-- What was given between two states of a supply is settled by the states. -/
theorem Gives.mem_iff_mem {s later : NameSupply} {names names' : List String}
    (gives : s.Gives names later) (gives' : s.Gives names' later) (name : String) :
    name ∈ names ↔ name ∈ names' :=
  (gives.mem_iff name).trans (gives'.mem_iff name).symm

end NameSupply

end Resumable
