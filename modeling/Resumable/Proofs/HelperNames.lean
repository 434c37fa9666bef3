import Resumable.Proofs.Lodgings
import Resumable.Proofs.Requests
import Resumable.Proofs.Resolution

/-!
# Names of helpers and made-up names

A run reserves the names of the tree and not those of the helpers.  The names that it makes up are all
those with the numbers below its counter that the tree does not use, so a helper of such a name is one
of them, and no other helper is.  A name that is not made up is declared no more often than before
(`runStandard_spares_helpers`), but a helper of a name that is made up may be captured by the variable of
that name (`helper_captured`).
-/

namespace Resumable.Lowering

/-! ## Declarations -/

/-- A name that is not taken for a body is not declared more often in what becomes of the body. -/
theorem declarations_carryOut_le (helpers : Helpers) (body : Node) (nested : Option Node)
    (plan : Option Plan) (s : State Unit) :
    let out := (carryOut (.standard helpers) body nested plan).run s
    ∃ given, s.names.Gives given out.2.names ∧
      ∀ name ∉ given, (out.1.getD body).declarations name ≤ (nested.getD body).declarations name := by
  intro out
  cases plan with
  | none => exact ⟨[], NameSupply.isTrace_gives.nil s.names, fun _ _ => Nat.le_refl _⟩
  | some plan =>
    obtain ⟨result, names⟩ := carryOut_standard helpers plan body nested s
    obtain ⟨given, gives, census⟩ := census_moved helpers plan (nested.getD body) s.names s.log
    refine ⟨given, names ▸ gives, fun name new => ?_⟩
    let counted := Census.throughout (.declaring name) (Node.tally (.declaring name))
    have ignores : ∀ other ∈ given, counted.Ignores other := fun other mem =>
      Census.ignores_of_isAbout (Weight.isAbout_declaring name) (fun same => new (same ▸ mem)) _
    rw [result, Option.getD_some]
    calc
      _ = 0 + (moved helpers plan (nested.getD body) s.names s.log).tally (.declaring name) :=
        Delegation.tally_delegate _ _ _
      _ = (moved helpers plan (nested.getD body) s.names s.log).census counted false false := by
        rw [Nat.zero_add, Node.census_throughout]
      _ = (nested.getD body).census counted plan.lowerForIn false :=
        census counted ignores rfl (fun _ _ => rfl) rfl false
      _ ≤ (nested.getD body).census counted false false := by
        cases plan.lowerForIn
        · exact Nat.le_refl _
        · exact Node.census_true_le counted _ false
      _ = (nested.getD body).declarations name := Node.census_throughout _ _ false

/-- What is known of a body when its plan is carried out: names that are not taken for it are not declared
more often than before. -/
def DeclaresNoMore (_function inner : Node) (given : List String) (result : Node) : Prop :=
  ∀ name ∉ given, result.declarations name ≤ inner.declarations name

theorem Course.declarations_le {limit depth : Nat} {node result : Node} {given : List String}
    (course : Course DeclaresNoMore limit depth node given result) {name : String} (new : name ∉ given) :
    result.declarations name ≤ node.declarations name := by
  have rebuilt {node : Node} {parts : Kind (Node × List String × Node)}
      (same : parts.map Prod.fst = node.kind) (new : name ∉ parts.children.flatMap fun part => part.2.1)
      (each : ∀ part ∈ parts.children, name ∉ part.2.1 →
        part.2.2.declarations name ≤ part.1.declarations name) :
      Node.declarations ⟨node.span, parts.map fun part => part.2.2⟩ name ≤ node.declarations name := by
    have le := Node.tally_map_le (w := .declaring name) Prod.fst
      (fun part : Node × List String × Node => part.2.2) node.span fun part mem =>
        each part mem fun given => new (List.mem_flatMap.2 ⟨part, mem, given⟩)
    rwa [Node.mk_of_map_fst same] at le
  induction course with
  | refused => exact Nat.le_refl _
  | @function depth node body inner result before own isFunction has room nested lowered ih =>
    rw [List.mem_append, not_or] at new
    have first := ih new.1
    have second := lowered name new.2
    have moved := Node.tally_withBody (.declaring name) has result
    simp only [Node.declarations] at first second ⊢
    omega
  | expression parts isExpression room same each ih => exact rebuilt same new ih
  | plain parts plain same each ih => exact rebuilt same new ih

/-! ## Helpers -/

/-- In a run with a supply of its own, a helper has a name that is none of those that are made up exactly
if the tree uses the name, wherever it is the prefix with a number below the counter in which the run
ends.  Then the run declares no variable of that name: there are at most those of the tree. -/
theorem runStandard_spares_helpers (options : Options) (log : Log) (tree : Node) :
    let outcome := runStandard options options.nameSupply log tree
    let out := outcome.tree.getD tree
    ∃ given, (options.nameSupply.reserveAll tree.names.toList).Gives given outcome.names ∧
      ∀ helper ∈ options.helpers.names,
        (helper ∉ given ↔ ∀ n < outcome.names.next,
          helper = options.identifierPrefix ++ toString n → tree.uses helper) ∧
        (helper ∉ given → out.declarations helper ≤ tree.declarations helper) := by
  intro outcome out
  let reserved := options.nameSupply.reserveAll tree.names.toList
  let start : State Unit := ⟨(), reserved, log, 0, .zero⟩
  obtain ⟨-, given, gives, course⟩ := course_lowerNode options.maxFunctionDepth
    (.standard options.helpers)
    (W := fun (s : State Unit) given (later : State Unit) => s.names.Gives given later.names)
    ⟨fun s => NameSupply.isTrace_gives.nil s.names, NameSupply.isTrace_gives.append⟩
    (fun s later _ same => by rw [same]; exact NameSupply.isTrace_gives.nil s.names)
    (Q := DeclaresNoMore)
    (fun function body nested s _ _ _ => declarations_carryOut_le options.helpers body nested _ s)
    tree start
  refine ⟨given, gives, fun helper _ => ⟨?_, fun new => course.declarations_le new⟩⟩
  have first : reserved.next = 0 := options.nameSupply.next_reserveAll _
  have candidate (n : Nat) : reserved.candidate n = options.identifierPrefix ++ toString n :=
    congrArg (· ++ toString n) (options.nameSupply.stem_reserveAll _)
  have used : reserved.isTaken helper = true ↔ tree.uses helper := by
    refine (Node.isTaken_reserveAll_names_iff tree options.nameSupply helper).trans ?_
    rw [Options.nameSupply, NameSupply.not_isTaken_ofStem, Bool.false_eq_true, or_false]
  have made := NameSupply.Gives.mem_iff_number gives helper
  simp only [show start.names = reserved from rfl, first, candidate, Nat.zero_le, true_and,
    ← Bool.not_eq_true, used] at made
  rw [made, not_and, not_exists]
  simp only [not_and]
  exact ⟨fun spared n lt same => by_contra fun unused => spared unused n lt same,
    fun spared unused n lt same => unused (spared n lt same)⟩

/-! ## A helper that is captured -/

open Build

/-- The function `function f() { yield for xs; }`. -/
def yieldsAll : Node :=
  Node.synthetic (.functionDeclaration (some "f") false []
    (block [⟨⟨15, 28⟩, .suspensionStatement true (some (identifier "xs"))⟩]))

/-- The usual options, but `$__0` is the function that gives an iterator. -/
def crossed : Options := { Options.standard with helpers := { Helpers.standard with getIterator := "$__0" } }

theorem not_uses_yieldsAll : ¬ yieldsAll.uses "$__0" := by
  unfold Node.uses
  decide

theorem declares_walk (iterator step : String) :
    (block [ForEach.loop "$__0" iterator step ⟨15, 28⟩ (variableStatement "$__0" none) (identifier "xs")
      (block [suspensionStatement (some (identifier "$__0")) false])]).declares false "$__0" := by
  simp [Node.declares, Census.declaring, ForEach.loop, ForEach.next, methodCall, call, property, identifier,
    variableStatement, variableDeclaration, forStatement, Build.not, unary, assignment, binary, block,
    bindVariable, declaredVariable?, Node.statements, suspensionStatement, Node.synthetic, Node.census_mk,
    Kind.form, Form.isFunctionScope, Form.isFunctionLike, Kind.children, Node.kind, Census.here,
    Kind.ownName?, Node.isMemberList]

/-- The run hands out the name of the helper for the element of the walk. The generator function declares
it, and the call of the helper stands in this function. -/
theorem helper_captured :
    let reserved := crossed.nameSupply.reserveAll yieldsAll.names.toList
    let outcome := runStandard crossed crossed.nameSupply #[] yieldsAll
    crossed.helpers.getIterator = "$__0" ∧
      (∀ given, reserved.Gives given outcome.names → "$__0" ∈ given) ∧
      ∃ iterator step,
        let body := block [ForEach.loop "$__0" iterator step ⟨15, 28⟩ (variableStatement "$__0" none)
          (identifier "xs") (block [suspensionStatement (some (identifier "$__0")) false])]
        outcome.tree = some (yieldsAll.withBody (Delegation.delegate "__generator" body)) ∧
          call (identifier "$__0") [identifier "xs"] ∈ body.ownScope ∧
          (functionExpression [] body true).binding? "$__0" = some .declared := by
  intro reserved outcome
  have first : reserved.next = 0 := crossed.nameSupply.next_reserveAll _
  have zero : reserved.candidate 0 = "$__0" :=
    congrArg (· ++ toString 0) (crossed.nameSupply.stem_reserveAll yieldsAll.names.toList)
  have free : reserved.isTaken "$__0" = false := by
    rw [← Bool.not_eq_true, Node.isTaken_reserveAll_names_iff, Options.nameSupply,
      NameSupply.not_isTaken_ofStem]
    exact fun taken => taken.elim not_uses_yieldsAll Bool.false_ne_true
  have number : reserved.number = 0 :=
    Nat.le_zero.1 (reserved.isLeast_number.2 ⟨first.le, zero ▸ free⟩)
  have element : reserved.fresh.1 = "$__0" := by
    rw [NameSupply.fresh_eq_candidate, number, zero]
  have supply : outcome.names = reserved.fresh.2.fresh.2.fresh.2 := rfl
  have lowered : outcome.tree = some (yieldsAll.withBody (Delegation.delegate "__generator" (block [
      ForEach.loop "$__0" reserved.fresh.2.fresh.1 reserved.fresh.2.fresh.2.fresh.1 ⟨15, 28⟩
        (variableStatement reserved.fresh.1 none) (identifier "xs")
        (block [suspensionStatement (some (identifier reserved.fresh.1)) false])]))) := rfl
  rw [element] at lowered
  refine ⟨rfl, fun given gives => ?_, _, _, lowered, ?_, ?_⟩
  · refine (gives.mem_iff_number _).2 ⟨free, 0, first.le, ?_, zero.symm⟩
    rw [supply, NameSupply.next_fresh]
    exact Nat.succ_pos _
  · exact .tail _ (.tail _ (.tail _ (.tail _ (.head _))))
  · rw [binding?_generator, if_neg (by decide), if_pos (declares_walk _ _)]

end Resumable.Lowering
