import Resumable.Proofs.FreshNames
import Resumable.Proofs.GeneratorBodies
import Resumable.Proofs.Revision

/-!
# Every `yield for` becomes a loop

Desugaring a scope puts a block in the place of each `yield for` that has an operand.  The block takes
three names of its own and holds the operand in one place (`ElementLoop.shells`).  If the operands are
plain, then no `yield for` is left, and nothing else changes (`desugar_complete`).
-/

namespace Resumable

open Build

/-- A node with a hole in the place of one child. -/
structure Shell where
  span : Span
  kind : Kind (Option Node)
  oneHole : kind.children.countP Option.isNone = 1

/-- Puts a node into the hole. -/
def Shell.fill (shell : Shell) (node : Node) : Node :=
  ⟨shell.span, shell.kind.map fun child => child.getD node⟩

namespace Iteration

/-- A `yield for` that became a loop over the elements, and the names that the loop took. -/
structure ElementLoop where
  statement : Node
  element : String
  iterator : String
  step : String

namespace ElementLoop

def names (loop : ElementLoop) : List String := [loop.element, loop.iterator, loop.step]

/-- Builds `for (var step = iterator.next(); !step.done; step = iterator.next())` with the body
`{ var element = step.value; yield element; }`. -/
def walk (loop : ElementLoop) : Node :=
  let next := methodCall (identifier loop.iterator) "next" []
  forStatement (some (variableStatement loop.step (some next)))
    (some (Build.not (property (identifier loop.step) "done")))
    (some (assignment (identifier loop.step) next))
    (block [variableStatement loop.element (some (property (identifier loop.step) "value")),
      suspensionStatement (some (identifier loop.element)) false])

/-- What stands around the operand, from the block in the place of the statement to the call that
opens the iterator: `{ var iterator = getIterator(⋯); walk }`. -/
def shells (getIterator : String) (loop : ElementLoop) : List Shell :=
  [⟨loop.statement.span, .block [none, some loop.walk], rfl⟩,
    ⟨.synthetic, .variableStatement [none], rfl⟩,
    ⟨.synthetic, .variableDeclaration loop.iterator (some none), rfl⟩,
    ⟨.synthetic, .callExpression (some (identifier getIterator)) [none], rfl⟩]

end ElementLoop

/-- What becomes of a `yield for`: the shells of a loop around the operand, which is kept as it is. -/
inductive Unrolls (getIterator : String) :
    Node → Kind (Node × List ElementLoop × Option Node) → List ElementLoop → Node → Prop
  | intro (loop : ElementLoop) (operand : Node)
      (isIteration : loop.statement.kind = .suspensionStatement true (some operand)) :
      Unrolls getIterator loop.statement (.suspensionStatement true (some (operand, [], none))) [loop]
        ((loop.shells getIterator).foldr Shell.fill operand)

/-- The edit that writes every `yield for` as a loop. -/
def unrolling (getIterator : String) : Revision ElementLoop := ⟨Node.iterates, Unrolls getIterator⟩

theorem exists_operand {node : Node} (plain : node.hasPlainOperand = true)
    (iterates : node.iterates = true) :
    ∃ operand, node.kind = .suspensionStatement true (some operand) := by
  obtain ⟨span, kind⟩ := node
  cases kind <;> try cases iterates
  rename_i operand
  cases operand with
  | none => cases plain
  | some operand => exact ⟨operand, rfl⟩

/-- If operands are plain, desugaring does nothing but to unroll every `yield for`. -/
theorem revised_desugar (helpers : Helpers) {body : Node}
    (plain : ∀ inner ∈ body.ownScope, inner.hasPlainOperand = true) (s : Unit × NameSupply) :
    let out := (desugar (.standard helpers) body).run s
    ∃ loops, s.2.Gives (loops.flatMap ElementLoop.names) out.2.2 ∧
      (unrolling helpers.getIterator).Revised body loops out.1 := by
  refine Revision.revised_editOwnScope (r := unrolling helpers.getIterator)
    (W := fun s loops later => s.2.Gives (loops.flatMap ElementLoop.names) later.2)
    ⟨fun s => NameSupply.isTrace_gives.nil s.2, fun first second => ?_⟩
    (P := fun inner => inner.hasPlainOperand = true)
    (fun node plainOperand iterates _ s => ?_) (fun node _ notIterates => ?_) plain s
  · rw [List.flatMap_append]
    exact NameSupply.isTrace_gives.append first second
  · obtain ⟨operand, isIteration⟩ := exists_operand plainOperand iterates
    have calm := Node.iterates_eq_false_of_mem_operand plainOperand isIteration
    obtain ⟨span, kind⟩ := node
    obtain rfl : kind = .suspensionStatement true (some operand) := isIteration
    let loop : ElementLoop := ⟨⟨span, .suspensionStatement true (some operand)⟩, s.2.fresh.1,
      s.2.fresh.2.fresh.1, s.2.fresh.2.fresh.2.fresh.1⟩
    have each : ∀ part ∈ [((operand, [], none) : Node × List ElementLoop × Option Node)],
        (unrolling helpers.getIterator).Revised part.1 part.2.1 part.2.2 :=
      List.forall_mem_singleton.2 (.kept operand calm)
    exact ⟨[loop], NameSupply.gives_next 3 s.2,
      .replaced (.suspensionStatement true (some (operand, [], none))) rfl rfl rfl each
        (.intro loop operand rfl)⟩
  · refine step_eq_rebuild _ _ fun operand same => ?_
    simp [unrolling, Node.iterates, same] at notIterates

/-! ## What a scope holds afterwards -/

/-- Of the statements that yield, a loop holds those in its operand and the one in its body. -/
theorem filter_ownScope_loop (getIterator : String) (loop : ElementLoop) (operand : Node) :
    ((loop.shells getIterator).foldr Shell.fill operand).ownScope.filter
        (·.form == .suspensionStatement) =
      operand.ownScope.filter (·.form == .suspensionStatement) ++
        [suspensionStatement (some (identifier loop.element)) false] := by
  simp [ElementLoop.shells, Shell.fill, Kind.map, ElementLoop.walk, methodCall, call, property,
    identifier, variableStatement, variableDeclaration, forStatement, Build.not, unary, assignment,
    binary, block, suspensionStatement, Node.synthetic, Node.ownScope_mk, Kind.form,
    Form.isFunctionScope, Form.isFunctionLike, Kind.children, Node.form, Node.kind]

/-- Beside the names in its operand, a loop uses its own three and that of the function that opens the
iterator. -/
theorem uses_loop (getIterator : String) (loop : ElementLoop) (operand : Node) (name : String) :
    ((loop.shells getIterator).foldr Shell.fill operand).uses name ↔
      operand.uses name ∨ name = getIterator ∨ name ∈ loop.names := by
  have uses_mk (span : Span) (kind : Kind Node) : Node.uses ⟨span, kind⟩ name ↔
      kind.ownName? = some name ∨ ∃ child ∈ kind.children, child.uses name := Node.uses_iff _ _
  simp only [ElementLoop.shells, ElementLoop.walk, ElementLoop.names, forStatement, variableStatement,
    variableDeclaration, methodCall, call, property, identifier, Build.not, unary, assignment, binary,
    block, suspensionStatement, Node.synthetic, Shell.fill, Kind.map, Kind.ownName?, Kind.children,
    uses_mk, List.foldr_cons, List.foldr_nil, Option.getD_some, Option.getD_none, Option.map_some,
    Option.toList_some, Option.some.injEq, List.map_cons, List.map_nil, List.cons_append,
    List.nil_append, List.mem_cons, List.not_mem_nil, or_false, exists_eq_or_imp, exists_eq_left,
    reduceCtorEq, false_and, exists_false, false_or, eq_comm (a := name)]
  tauto

theorem filter_iterates (nodes : List Node) :
    nodes.filter Node.iterates =
      (nodes.filter (·.form == .suspensionStatement)).filter Node.iterates := by
  rw [List.filter_filter]
  refine List.filter_congr fun inner _ => ?_
  obtain ⟨span, kind⟩ := inner
  cases kind
  case suspensionStatement => exact (Bool.and_true _).symm
  all_goals rfl

variable {getIterator : String} {node : Node} {loops : List ElementLoop} {answer : Option Node}

theorem calm_of_revised (revised : (unrolling getIterator).Revised node loops answer) :
    ∀ inner ∈ (answer.getD node).ownScope, inner.iterates = false := by
  have left := revised.filter_ownScope (p := Node.iterates) (h := fun _ => [])
    (fun unrolls each => ?_) (fun parts span => ?_) fun _ _ notIterates => notIterates
  · have none := left.trans (List.flatMap_eq_nil_iff.2 fun _ _ => rfl)
    exact fun inner mem => Bool.eq_false_iff.2 (List.filter_eq_nil_iff.1 none inner mem)
  · cases unrolls with
    | intro loop operand isIteration =>
      -- What the loop adds to its operand is a `yield` that does not iterate.
      have calm : operand.ownScope.filter Node.iterates = [] := each _ (.head _)
      rw [filter_iterates, filter_ownScope_loop, List.filter_append, ← filter_iterates, calm]
      rfl
  · cases parts <;> rfl

/-- The statement held what its operand holds and was a `yield` itself; its loop holds the `yield` of
an element instead. -/
theorem countP_of_revised (revised : (unrolling getIterator).Revised node loops answer) :
    (answer.getD node).ownScope.countP (·.form == .suspensionStatement) =
      node.ownScope.countP (·.form == .suspensionStatement) := by
  refine revised.countP_ownScope (fun unrolls _ => ?_) (fun parts span => ?_)
  · cases unrolls with
    | intro loop operand isIteration =>
      rw [List.countP_eq_length_filter, filter_ownScope_loop, List.length_append,
        ← List.countP_eq_length_filter]
      obtain ⟨⟨span, kind⟩, names⟩ := loop
      obtain rfl : kind = .suspensionStatement true (some operand) := isIteration
      simp [Node.ownScope_mk, Kind.form, Form.isFunctionScope, Form.isFunctionLike, Kind.children,
        Node.form, Node.kind]
  · simp [Node.form, Node.kind]

/-- Desugaring is complete and local.  If the operands are plain, it puts a block with its own three
names in the place of every `yield for` of the scope, and keeps everything else. -/
theorem desugar_complete (helpers : Helpers) (body : Node)
    (plain : ∀ inner ∈ body.ownScope, inner.hasPlainOperand = true) (s : Unit × NameSupply) :
    let out := (desugar (.standard helpers) body).run s
    let desugared := out.1.getD body
    ∃ loops, (unrolling helpers.getIterator).Revised body loops out.1 ∧
      loops.map (·.statement) = body.ownScope.filter Node.iterates ∧
      s.2.Gives (loops.flatMap ElementLoop.names) out.2.2 ∧
      (loops.flatMap ElementLoop.names).Nodup ∧
      (∀ name ∈ loops.flatMap ElementLoop.names, s.2.isTaken name = false) ∧
      (∀ loop ∈ loops, ∀ operand name,
        ((loop.shells helpers.getIterator).foldr Shell.fill operand).uses name ↔
          operand.uses name ∨ name = helpers.getIterator ∨ name ∈ loop.names) ∧
      (∀ inner ∈ desugared.ownScope, inner.iterates = false) ∧
      desugared.ownScope.countP (·.form == .suspensionStatement) =
        body.ownScope.countP (·.form == .suspensionStatement) ∧
      desugared.functions false = body.functions false := by
  intro out desugared
  obtain ⟨loops, gives, revised⟩ := revised_desugar helpers plain s
  have statements : loops.map (·.statement) = body.ownScope.filter Node.iterates :=
    revised.map_notes fun unrolls => by cases unrolls; simp [Kind.children]
  exact ⟨loops, revised, statements, gives, gives.nodup, fun name mem => gives.not_isTaken mem,
    fun loop _ operand name => uses_loop helpers.getIterator loop operand name,
    calm_of_revised revised, countP_of_revised revised, functions_desugar helpers body s⟩

/-- The body `{ while (c) yield for a; yield for b; yield c; }`. -/
def twoIterations : Node :=
  block [Node.synthetic (.whileStatement (identifier "c") (suspensionStatement (some (identifier "a")) true)),
    suspensionStatement (some (identifier "b")) true, suspensionStatement (some (identifier "c")) false]

theorem desugar_twoIterations :
    let desugared := ((desugar (.standard .standard) twoIterations).run
      ((), Options.standard.nameSupply)).1.getD twoIterations
    (∀ inner ∈ twoIterations.ownScope, inner.hasPlainOperand = true) ∧
      (∀ inner ∈ desugared.ownScope, inner.iterates = false) ∧
      desugared.ownScope.countP (·.form == .suspensionStatement) = 3 := by
  intro desugared
  have plain : ∀ inner ∈ twoIterations.ownScope, inner.hasPlainOperand = true := by decide
  obtain ⟨loops, -, -, -, -, -, -, complete, count, -⟩ :=
    desugar_complete .standard twoIterations plain ((), Options.standard.nameSupply)
  exact ⟨plain, complete, count.trans rfl⟩

end Iteration

end Resumable
