import Resumable.Proofs.KeyWalkRun
import Resumable.Proofs.ScopeEdits

/-!
# Lowering loops over keys keeps the meaning

`Lowered` relates a program to what lowering its for-in loops makes of it: loops became walks over
lists of keys, with four fresh names each that the loops inside do not use.  The new program does
what the old one does (`Lowered.simulated`); `keeps_loop` is the case of a loop, and all others
follow from the parts of a node.  Both always end, and they use the variables of the program in the
same way and in the same order.
-/

namespace Resumable.Enumeration

open Build

/-! ## Lowered trees -/

/-- What lowering makes of a node whose own names are taken and whose own code is in the language.
Its loops use temporary names. -/
inductive Lowered (taken : String → Bool) : (String → Prop) → Node → Node → Prop where
  | scope {temporary : String → Prop} {node : Node} (isScope : node.isFunctionScope = true) :
      Lowered taken temporary node node
  | loop {inner temporary : String → Prop} {names : ForIn.Names} {name : String} (span : Span)
      {initializer expression expression' body body' : Node}
      (hygienic : Hygienic taken inner temporary names) (named : loopVariable? initializer = some name)
      (isTaken : taken name = true) (object : Lowered taken inner expression expression')
      (each : Lowered taken inner body body') :
      Lowered taken temporary ⟨span, .forInStatement initializer expression body⟩
        (ForIn.loop names none span initializer expression' body')
  | parts {temporary : String → Prop} (span span' : Span) {kind : Kind (Node × Node)}
      (notLoop : kind.form ≠ .forInStatement)
      (own : ∀ name, kind.ownName? = some name → taken name = true)
      (inLanguage : ∀ span, isProgramNode ⟨span, kind.map Prod.fst⟩ = true)
      (parts : ∀ pair ∈ kind.children, Lowered taken temporary pair.1 pair.2) :
      Lowered taken temporary ⟨span, kind.map Prod.fst⟩ ⟨span', kind.map Prod.snd⟩

variable {taken : String → Bool}

theorem simulated_of_scope {temporary : String → Prop} {node : Node}
    (isScope : node.isFunctionScope = true) : Simulated taken temporary node node := by
  obtain ⟨span, kind⟩ := node
  cases kind
  case functionDeclaration | functionExpression | getAccessorDeclaration | setAccessorDeclaration =>
    exact ⟨.fail, .fail, .fail, .fail, .fail, rfl, nofun⟩
  all_goals cases isScope

/-- What lowering makes of a node does what the node does. -/
theorem Lowered.simulated {temporary : String → Prop} {node node' : Node}
    (lowered : Lowered taken temporary node node') : Simulated taken temporary node node' := by
  induction lowered with
  | scope isScope => exact simulated_of_scope isScope
  | loop span hygienic named isTaken object each ihObject ihEach =>
    exact ⟨keeps_loop hygienic span span named isTaken ihObject.evaluate ihEach.execute,
      .fail, .fail, .fail, .fail, rfl, nofun⟩
  | parts span span' notLoop own inLanguage parts ih =>
    exact simulated_of_parts span span' notLoop own inLanguage ih

/-- More names may be temporary. -/
theorem Lowered.mono {temporary temporary' : String → Prop} {node node' : Node}
    (lowered : Lowered taken temporary node node')
    (more : ∀ name, temporary name → temporary' name) : Lowered taken temporary' node node' := by
  induction lowered with
  | scope isScope => exact .scope isScope
  | loop span hygienic named isTaken object each _ _ =>
    refine .loop span ⟨hygienic.toFresh, ?_, hygienic.apart, ?_⟩ named isTaken object each
    · exact fun name mem => more name (hygienic.own name mem)
    · exact fun name isInner => more name (hygienic.within name isInner)
  | parts span span' notLoop own inLanguage parts ih =>
    exact .parts span span' notLoop own inLanguage fun pair mem => ih pair mem more

/-! ## What lowering makes of a program -/

/-- The names in a node's own code are taken, and its nodes are in the language. -/
def OwnCode (taken : String → Bool) (node : Node) : Prop :=
  ∀ inner ∈ node.ownScope,
    (∀ name, inner.kind.ownName? = some name → taken name = true) ∧ isProgramNode inner = true

theorem isPlain_of_programNode {node : Node} (inLanguage : isProgramNode node = true)
    (notScope : node.isFunctionScope = false) (notLoop : node.form ≠ .forInStatement) :
    ForIn.IsPlain node := by
  refine ⟨notScope, notLoop, fun label statement hk => ?_⟩
  simp [isProgramNode, hk] at inLanguage

/-- The variable of a loop is one of its names, and lowering leaves it as it is. -/
theorem lowerAt_initializer {initializer : Node} {name : String}
    (named : loopVariable? initializer = some name) (own : OwnCode taken initializer)
    (s : NameSupply) :
    (ForIn.lowerAt initializer none).run s = (none, s) ∧ taken name = true := by
  obtain ⟨span, kind⟩ := initializer
  unfold loopVariable? at named
  split at named
  · rename_i name' isName
    cases named
    obtain rfl : kind = .identifier name := isName
    have self := ((Node.forall_ownScope_iff rfl).1 own).1
    exact ⟨rfl, self.1 name rfl⟩
  · rename_i span' name' isDeclaration
    cases named
    obtain rfl : kind = .variableStatement [⟨span', .variableDeclaration name none⟩] :=
      isDeclaration
    have below := ((Node.forall_ownScope_iff rfl).1 own).2
    have declaration := below ⟨span', .variableDeclaration name none⟩ (.head _)
    exact ⟨rfl, ((Node.forall_ownScope_iff rfl).1 declaration).1.1 name rfl⟩
  · cases named

/-- The next four names of a supply serve a loop whose parts were lowered before. -/
theorem hygienic_take {s : NameSupply}
    (reserved : ∀ name, taken name = true → s.isTaken name = true) :
    let out := ForIn.Names.take.run s
    Hygienic taken (s.isTaken · = true) (out.2.isTaken · = true) out.1 := by
  intro out
  have four : namesOf out.1 = s.nextNames 4 := rfl
  have after : out.2 = s.after 4 := rfl
  have fresh : ∀ name ∈ namesOf out.1, s.isTaken name = false := fun name mem =>
    NameSupply.not_isTaken_nextNames (four ▸ mem)
  refine ⟨⟨fun name mem => ?free, ?distinct⟩, fun name mem => ?own, fun name mem isTaken => ?apart,
    fun name isTaken => ?within⟩
  case free =>
    cases isTaken : taken name with
    | false => rfl
    | true => rw [← fresh name mem, reserved name isTaken]
  case distinct =>
    rw [four]
    exact s.nodup_nextNames 4
  case own =>
    rw [after]
    exact (s.isTaken_after_iff 4 name).2 (.inl (four ▸ mem))
  case apart =>
    rw [fresh name mem] at isTaken
    cases isTaken
  case within =>
    rw [after]
    exact (s.isTaken_after_iff 4 name).2 (.inr isTaken)

/-- Lowering makes of the node what it should, whatever was handed out before; the names that it
uses are taken from then on. -/
def Lowers (taken : String → Bool) (node : Node) : Prop :=
  ∀ s : NameSupply, (∀ name, taken name = true → s.isTaken name = true) →
    let out := (ForIn.lowerAt node none).run s
    (∀ name, s.isTaken name = true → out.2.isTaken name = true) ∧
      Lowered taken (out.2.isTaken · = true) node (out.1.getD node)

theorem lowers_scope {node : Node} (isScope : node.isFunctionScope = true) : Lowers taken node := by
  intro s _
  have kept : (ForIn.lowerAt node none).run s = (none, s) := by
    rw [ForIn.lowerAt_scope isScope]
    rfl
  rw [kept]
  exact ⟨fun _ isTaken => isTaken, .scope isScope⟩

theorem lowers_forIn {span : Span} {initializer expression body : Node} {name : String}
    (named : loopVariable? initializer = some name) (own : OwnCode taken initializer)
    (object : Lowers taken expression) (each : Lowers taken body) :
    Lowers taken ⟨span, .forInStatement initializer expression body⟩ := by
  intro s reserved
  obtain ⟨kept, isTaken⟩ := lowerAt_initializer named own s
  have out := ForIn.run_lowerAt_forIn span initializer expression body none s
  simp only [kept] at out
  obtain ⟨grown, object⟩ := object s reserved
  have reserved₁ := fun name isTaken => grown name (reserved name isTaken)
  obtain ⟨grown₁, each⟩ := each _ reserved₁
  have reserved₂ := fun name isTaken => grown₁ name (reserved₁ name isTaken)
  have hygienic := hygienic_take reserved₂
  rw [out]
  refine ⟨fun name before => hygienic.within name (grown₁ name (grown name before)), ?_⟩
  exact .loop span hygienic named isTaken (object.mono grown₁) each

theorem lowers_plain {node : Node} (plain : ForIn.IsPlain node)
    (own : ∀ name, node.kind.ownName? = some name → taken name = true)
    (inLanguage : isProgramNode node = true) (each : ∀ child ∈ node.children, Lowers taken child) :
    Lowers taken node := by
  intro s reserved
  have establish : ∀ child ∈ node.children, ∀ later : NameSupply,
      (∀ name, s.isTaken name = true → later.isTaken name = true) →
      let out := (ForIn.lowerAt child none).run later
      (∀ name, s.isTaken name = true → out.2.isTaken name = true) ∧
        Lowered taken (out.2.isTaken · = true) child (out.1.getD child) := by
    intro child isChild later grown
    obtain ⟨grown', lowered⟩ :=
      each child isChild later fun name isTaken => grown name (reserved name isTaken)
    exact ⟨fun name before => grown' name (grown name before), lowered⟩
  have keep : ∀ child child', ∀ other ∈ node.children, ∀ later : NameSupply,
      (∀ name, s.isTaken name = true → later.isTaken name = true) →
      Lowered taken (later.isTaken · = true) child child' →
      Lowered taken (((ForIn.lowerAt other none).run later).2.isTaken · = true) child child' := by
    intro child child' other isChild later grown lowered
    have stillGrown :=
      (each other isChild later fun name isTaken => grown name (reserved name isTaken)).1
    exact lowered.mono stillGrown
  obtain ⟨grown, kind, same, answer, parts⟩ := Node.rebuild_rule_getD
    (f := fun child => ForIn.lowerAt child none)
    (I := fun later => ∀ name, s.isTaken name = true → later.isTaken name = true)
    (R := fun child child' later => Lowered taken (later.isTaken · = true) child child')
    node establish keep s (fun _ isTaken => isTaken)
  rw [ForIn.lowerAt_plain plain]
  refine ⟨grown, ?_⟩
  rw [answer]
  obtain ⟨span, kind'⟩ := node
  obtain rfl : kind.map Prod.fst = kind' := same
  refine .parts span span ?_ ?_ (fun _ => inLanguage) parts
  · have notLoop := plain.2.1
    rwa [Node.form, Node.kind, Kind.form_map] at notLoop
  · intro name named
    apply own name
    rw [Node.kind, Kind.ownName?_map, named]

/-- Lowering makes of a program what it should. -/
theorem lowers_of_ownCode {node : Node} (own : OwnCode taken node) : Lowers taken node := by
  induction node using Node.inductionOn with
  | step node ih =>
    cases notScope : node.isFunctionScope with
    | true => exact lowers_scope notScope
    | false =>
      obtain ⟨⟨ownNames, inLanguage⟩, below⟩ := (Node.forall_ownScope_iff notScope).1 own
      by_cases isLoop : node.form = .forInStatement
      · obtain ⟨span, kind⟩ := node
        cases kind
        case forInStatement initializer expression body =>
          obtain ⟨name, named⟩ := Option.isSome_iff_exists.1 inLanguage
          have isExpression : expression ∈
              Node.children ⟨span, .forInStatement initializer expression body⟩ := .tail _ (.head _)
          have isBody : body ∈
              Node.children ⟨span, .forInStatement initializer expression body⟩ := .tail _ (.tail _ (.head _))
          exact lowers_forIn named (below initializer (.head _))
            (ih expression isExpression (below expression isExpression))
            (ih body isBody (below body isBody))
        all_goals cases isLoop
      · exact lowers_plain (isPlain_of_programNode inLanguage notScope isLoop) ownNames inLanguage
          fun child isChild => ih child isChild (below child isChild)

/-- Lowering the for-in loops of a program keeps its meaning.  Both programs end, and they end
alike, with the same objects and the same value in every variable whose name was taken from the
start.  They read and write these variables in the same order and with the same values, and begin
their loops over the same objects in between: so what a loop goes over is evaluated once, and the
same keys are bound. -/
theorem execute_lower (names : NameSupply) (program : Node)
    (reserved : ∀ name ∈ program.names, names.isTaken name = true)
    (inLanguage : ∀ inner ∈ program.ownScope, isProgramNode inner = true)
    (store : String → Value) (objects : Objects) :
    let lowered := ((ForIn.lower program).run names).1.getD program
    ∃ result after after', execute program (State.start store objects) = some (result, after) ∧
      execute lowered (State.start store objects) = some (result, after') ∧
      after'.objects = after.objects ∧
      (∀ name, names.isTaken name = true → after'.store name = after.store name) ∧
      after'.trace.filter (Event.counts names.isTaken) = after.trace := by
  intro lowered
  have own : OwnCode names.isTaken program := by
    refine fun inner mem => ⟨fun name named => ?_, inLanguage inner mem⟩
    refine reserved name ((Node.mem_names_iff program name).2 ⟨inner, ?_, named⟩)
    exact Node.ownScope_subset_subtree program mem
  obtain ⟨-, isLowered⟩ := lowers_of_ownCode own names fun _ isTaken => isTaken
  have keeps := isLowered.simulated.execute
  let start := State.start store objects
  have agree : Agree names.isTaken (fun _ => False) start start start :=
    ⟨fun _ _ => rfl, fun _ _ _ => rfl, rfl, rfl⟩
  obtain ⟨result, after, run⟩ := keeps.ends start
  obtain ⟨after', run', agree'⟩ := keeps.run agree run
  exact ⟨result, after, after', run, run', agree'.objects, agree'.store, agree'.trace⟩

/-- The program `for (k in o) { delete o.b; o.c = k; }` over an object with the keys `a` and `b`. -/
theorem execute_lower_delete :
    let o := identifier "o"
    let program := block [forInStatement (identifier "k") o (block [
      expressionStatement (unary .delete (Build.property o "b")),
      assignmentStatement (Build.property o "c") (identifier "k")])]
    let names := (NameSupply.ofStem "$__").reserveAll program.names.toList
    let store := fun name => if name = "o" then .object 0 else .undefined
    let lowered := ((ForIn.lower program).run names).1.getD program
    ∃ after', execute lowered (State.start store [["a", "b"]]) = some (.ok .normal, after') ∧
      after'.objects = [["a", "c"]] ∧ after'.store "k" = .string "a" ∧
      after'.trace.filter (Event.counts names.isTaken) =
        [.read "o" (.object 0), .enter 0, .write "k" (.string "a"), .read "o" (.object 0),
          .read "o" (.object 0), .read "k" (.string "a")] := by
  intro o program names store lowered
  have reserved : ∀ name ∈ program.names, names.isTaken name = true := fun name mem =>
    (NameSupply.isTaken_reserveAll_iff _ _ name).2 (.inl (Std.TreeSet.mem_toList.2 mem))
  have inLanguage : ∀ inner ∈ program.ownScope, isProgramNode inner = true := by decide
  obtain ⟨result, after, after', run, run', objects, same, trace⟩ :=
    execute_lower names program reserved inLanguage store [["a", "b"]]
  obtain ⟨native, ran, keys, bound, uses⟩ : ∃ native,
      execute program (State.start store [["a", "b"]]) = some (.ok .normal, native) ∧
      native.objects = [["a", "c"]] ∧ native.store "k" = .string "a" ∧
      native.trace = [.read "o" (.object 0), .enter 0, .write "k" (.string "a"), .read "o" (.object 0),
        .read "o" (.object 0), .read "k" (.string "a")] := ⟨_, rfl, rfl, rfl, rfl⟩
  obtain ⟨rfl, rfl⟩ : Except.ok .normal = result ∧ native = after := by
    rw [ran] at run
    cases run
    exact ⟨rfl, rfl⟩
  have isName : "k" ∈ program.names := by
    refine (Node.mem_names_iff program "k").2 ⟨identifier "k", ?_, rfl⟩
    exact .tail _ (.tail _ (.head _))
  exact ⟨after', run', objects.trans keys, (same "k" (reserved "k" isName)).trans bound,
    trace.trans uses⟩

end Resumable.Enumeration
