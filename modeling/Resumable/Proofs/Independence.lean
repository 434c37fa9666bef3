import Resumable.Proofs.Equivariance
import Resumable.Proofs.Hygiene
import Resumable.Proofs.Plans

/-!
# Statements are lowered independently

Two runs over one tree, with any supplies that do not hand out its names, come to the same tree up to
the names that they make up, and report the same (`lowerNode_renamed`): both are renamed forms of a
run whose supply avoids the names of the tree and of the helpers altogether.  A run over a program
lowers its statements one after the other (`runStandard_program`), so each statement becomes what it
becomes in a program of its own, under new names for the made-up ones (`runStandard_statements`).
-/

namespace Resumable

namespace NameSupply

/-! ## Renaming what a supply hands out -/

/-- The name that a supply hands out after so many others. -/
def nameAt (supply : NameSupply) (n : Nat) : String := (supply.after n).fresh.1

theorem nextNames_succ (n : Nat) (supply : NameSupply) :
    supply.nextNames (n + 1) = supply.nextNames n ++ [supply.nameAt n] := nextNames_add n 1 supply

theorem nextNames_eq (n : Nat) (supply : NameSupply) :
    supply.nextNames n = (List.range n).map supply.nameAt := by
  induction n with
  | zero => rfl
  | succ n ih => rw [nextNames_succ, ih, List.range_succ, List.map_append, List.map_singleton]

theorem mem_nextNames_iff {n : Nat} {supply : NameSupply} {name : String} :
    name ∈ supply.nextNames n ↔ ∃ i < n, supply.nameAt i = name := by
  simp [nextNames_eq]

theorem nameAt_injective (supply : NameSupply) : Function.Injective supply.nameAt := by
  intro m n same
  have distinct := supply.nodup_nextNames (max m n + 1)
  rw [nextNames_eq] at distinct
  exact List.inj_on_of_nodup_map distinct (List.mem_range.2 (by omega)) (List.mem_range.2 (by omega)) same

/-- The names that one supply hands out at some places can be renamed to those of another one, and
all other names kept. -/
theorem exists_renaming (S T : NameSupply) (P : Nat → Prop) :
    ∃ f : String → String, (∀ n, P n → f (S.nameAt n) = T.nameAt n) ∧
      ∀ name, (∀ n, P n → S.nameAt n ≠ name) → f name = name := by
  classical
  refine ⟨fun name => if known : ∃ n, P n ∧ S.nameAt n = name then T.nameAt known.choose else name,
    fun n isPlace => ?_, fun name other => ?_⟩
  · have known : ∃ m, P m ∧ S.nameAt m = S.nameAt n := ⟨n, isPlace, rfl⟩
    have same : known.choose = n := S.nameAt_injective known.choose_spec.2
    exact (dif_pos known).trans (congrArg T.nameAt same)
  · exact dif_neg fun ⟨n, isPlace, same⟩ => other n isPlace same

/-- A supply that hands out none of some names. -/
theorem nameAt_ne_of_taken {supply : NameSupply} {name : String} (taken : supply.isTaken name = true)
    (n : Nat) : supply.nameAt n ≠ name := by
  rintro rfl
  have made : supply.nameAt n ∈ supply.nextNames (n + 1) :=
    mem_nextNames_iff.2 ⟨n, Nat.lt_succ_self n, rfl⟩
  have free := not_isTaken_nextNames made
  rw [taken] at free
  cases free

theorem after_injective (supply : NameSupply) : Function.Injective fun n => supply.after n := by
  intro m n same
  replace same : supply.after m = supply.after n := same
  have sameNames (name : String) : name ∈ supply.nextNames m ↔ name ∈ supply.nextNames n :=
    (supply.gives_next m).mem_iff_mem (same ▸ supply.gives_next n) name
  have lengths := ((List.perm_ext_iff_of_nodup (supply.nodup_nextNames m)
    (supply.nodup_nextNames n)).2 sameNames).length_eq
  simpa [nextNames_eq] using lengths

end NameSupply

namespace Lowering

variable {limit : UInt32} {helpers : Helpers} {node : Node}

/-! ## Two runs over one tree -/

/-- Only the names of the helpers and made-up ones come into a tree. -/
theorem uses_lowerNode (limit : UInt32) (helpers : Helpers) (node : Node) (s : State Unit) :
    let out := (lowerNode limit (.standard helpers) node).run s
    ∃ n, out.2.names = s.names.after n ∧ ∀ name, (out.1.getD node).uses name →
      node.uses name ∨ name ∈ helpers.names ∨ name ∈ s.names.nextNames n := by
  intro out
  obtain ⟨-, allotments, allots, course⟩ := course_lowerNode limit (.standard helpers)
    (W := fun (s : State Unit) given (later : State Unit) => s.names.Allots given later.names)
    ⟨fun s => NameSupply.isTrace_allots.nil s.names, NameSupply.isTrace_allots.append⟩
    (fun s later _ same => by rw [same]; exact NameSupply.isTrace_allots.nil s.names)
    (Q := fun _ => Lodges helpers)
    (fun function body nested s _ has lowered => by
      obtain ⟨own, allots, -, lodges⟩ := lodges_carryOut limit helpers has lowered
      exact ⟨own, allots, lodges⟩) node s
  refine ⟨_, allots.2, fun name uses => ?_⟩
  by_contra other
  simp only [not_or, ← allots.1] at other
  obtain ⟨unused, notHelper, notGiven⟩ := other
  exact Node.not_uses_of_occurrences_le
    (course.tally_le (Weight.isAbout_bearing name) notGiven notHelper) unused uses

/-- The names of a tree are taken, so that none of them is made up. -/
def State.Knows (s : State Unit) (node : Node) : Prop :=
  ∀ name, node.uses name → s.names.isTaken name = true

/-- A run does what another one does whose supply hands out neither names of the tree nor of the
helpers, under new names. -/
theorem lowerNode_of_apart (limit : UInt32) (helpers : Helpers) (apart s : State Unit)
    (depth : apart.depth = s.depth) (log : apart.log = #[]) (apartKnows : apart.Knows node)
    (noHelper : ∀ name ∈ helpers.names, apart.names.isTaken name = true) :
    let model := (lowerNode limit (.standard helpers) node).run apart
    let out := (lowerNode limit (.standard helpers) node).run s
    ∃ n f, model.2.names = apart.names.after n ∧ out.2.names = s.names.after n ∧
      out.2.log.toList = s.log.toList ++ model.2.log.toList ∧
      (∀ i, f (apart.names.nameAt i) = s.names.nameAt i) ∧
      (∀ name, apart.names.isTaken name = true → f name = name) ∧
      out.1.getD node = (model.1.getD node).rename f := by
  intro model out
  obtain ⟨f, moves, keeps⟩ := apart.names.exists_renaming s.names fun _ => True
  have kept (name : String) (taken : apart.names.isTaken name = true) : f name = name :=
    keeps name fun n _ => NameSupply.nameAt_ne_of_taken taken n
  have renames : apart.names.Renames f s.names := by
    intro n
    rw [NameSupply.nextNames_eq, NameSupply.nextNames_eq, List.map_map]
    exact List.map_congr_left fun i _ => (moves i trivial).symm
  have keepsHelpers : KeepsHelpers f helpers := by
    simp only [Helpers.names, List.forall_mem_cons] at noHelper
    exact ⟨kept _ noHelper.1, kept _ noHelper.2.1, kept _ noHelper.2.2.1⟩
  have sameTree : node.rename f = node :=
    Node.rename_of_fixed fun name used => kept name (apartKnows name used)
  have logs : Log.InStep [] s.log.toList apart.log s.log :=
    ⟨[], by rw [log]; rfl, (List.append_nil _).symm⟩
  obtain ⟨answer, ⟨n, modelNames, outNames⟩, ⟨new, modelLog, outLog⟩, -⟩ :=
    mirrors_rename_lowerNode renames keepsHelpers limit node apart s ⟨.refl _ _, logs, depth⟩
  rw [sameTree] at answer outNames outLog
  refine ⟨n, f, modelNames, outNames, ?_, fun i => moves i trivial, kept, ?_⟩
  · rw [show model.2.log.toList = new from modelLog]
    exact outLog
  · rw [show out.1 = model.1.map (Node.rename f) from answer.symm]
    nth_rewrite 1 [← sameTree]
    exact Option.getD_map _ _ _

/-- New names for those that a run made up: different ones for different ones, which another run made
up, and all other names are kept. -/
structure RenamesMadeUp (f : String → String) (old new : String → Prop) : Prop where
  injective : ∀ a b, old a → old b → f a = f b → a = b
  madeUp : ∀ a, old a → new (f a)
  keeps : ∀ a, ¬ old a → f a = a

/-- Two runs over one tree report the same and make up as many names. What comes out is the same under
new names for those that were made up, if none of these is one of a helper. -/
theorem lowerNode_renamed (limit : UInt32) (helpers : Helpers) {s t : State Unit}
    (depth : s.depth = t.depth) (knows : s.Knows node) :
    let first := (lowerNode limit (.standard helpers) node).run s
    let second := (lowerNode limit (.standard helpers) node).run t
    ∃ n new, first.2.names = s.names.after n ∧ second.2.names = t.names.after n ∧
      first.2.log.toList = s.log.toList ++ new ∧ second.2.log.toList = t.log.toList ++ new ∧
      ((∀ name ∈ s.names.nextNames n, name ∉ helpers.names) →
        ∃ f, RenamesMadeUp f (· ∈ s.names.nextNames n) (· ∈ t.names.nextNames n) ∧
          second.1.getD node = (first.1.getD node).rename f) := by
  intro first second
  let apart : State Unit :=
    ⟨(), s.names.reserveAll (helpers.names ++ node.names.toList), #[], s.depth, .zero⟩
  have taken (name : String) : apart.names.isTaken name = true ↔
      (name ∈ helpers.names ∨ node.uses name) ∨ s.names.isTaken name = true := by
    rw [NameSupply.isTaken_reserveAll_iff, List.mem_append, Std.TreeSet.mem_toList, Node.mem_names_iff]
  have apartKnows : apart.Knows node := fun name used => (taken name).2 (.inl (.inr used))
  have noHelper (name : String) (isHelper : name ∈ helpers.names) :
      apart.names.isTaken name = true := (taken name).2 (.inl (.inl isHelper))
  let model := (lowerNode limit (.standard helpers) node).run apart
  obtain ⟨n, f, modelNames, firstNames, firstLog, moves, keeps, firstEq⟩ :=
    lowerNode_of_apart limit helpers apart s rfl rfl apartKnows noHelper
  obtain ⟨m, g, modelNames', secondNames, secondLog, moves', keeps', secondEq⟩ :=
    lowerNode_of_apart limit helpers apart t depth rfl apartKnows noHelper
  obtain ⟨k, usedNames, used⟩ := uses_lowerNode limit helpers node apart
  obtain rfl : m = n := apart.names.after_injective (modelNames'.symm.trans modelNames)
  obtain rfl : k = m := apart.names.after_injective (usedNames.symm.trans modelNames)
  refine ⟨k, model.2.log.toList, firstNames, secondNames, firstLog, secondLog, fun noHelperMade => ?_⟩
  obtain ⟨h, changes, keepsOthers⟩ := s.names.exists_renaming t.names (· < k)
  have keepsOther (name : String) (other : name ∉ s.names.nextNames k) : h name = name :=
    keepsOthers name fun i lt same => other (NameSupply.mem_nextNames_iff.2 ⟨i, lt, same⟩)
  have keepsOld (name : String) (old : name ∈ helpers.names ∨ node.uses name) : h name = name := by
    refine keepsOther name fun made => ?_
    rcases old with isHelper | used
    · exact noHelperMade name made isHelper
    · have free := NameSupply.not_isTaken_nextNames made
      rw [knows name used] at free
      cases free
  refine ⟨h, ⟨fun a b isOld isOld' same => ?_, fun a isOld => ?_, keepsOther⟩, ?_⟩
  · obtain ⟨i, lt, rfl⟩ := NameSupply.mem_nextNames_iff.1 isOld
    obtain ⟨j, lt', rfl⟩ := NameSupply.mem_nextNames_iff.1 isOld'
    rw [changes i lt, changes j lt'] at same
    rw [t.names.nameAt_injective same]
  · obtain ⟨i, lt, rfl⟩ := NameSupply.mem_nextNames_iff.1 isOld
    exact NameSupply.mem_nextNames_iff.2 ⟨i, lt, (changes i lt).symm⟩
  · -- In the model only names of the tree, of the helpers and made-up ones stand.
    rw [show first.1.getD node = _ from firstEq, show second.1.getD node = _ from secondEq,
      Node.rename_rename]
    refine Node.rename_congr fun name isUsed => ?_
    rcases used name isUsed with inTree | isHelper | made
    · rw [Function.comp_apply, keeps name (apartKnows name inTree), keeps' name (apartKnows name inTree),
        keepsOld name (.inr inTree)]
    · rw [Function.comp_apply, keeps name (noHelper name isHelper), keeps' name (noHelper name isHelper),
        keepsOld name (.inl isHelper)]
    · obtain ⟨i, lt, rfl⟩ := NameSupply.mem_nextNames_iff.1 made
      rw [Function.comp_apply, moves, moves', changes i lt]

/-! ## Programs -/

/-- What a run made of one statement of a program. -/
structure Passage where
  statement : Node
  /-- The names that were made up for it. -/
  given : List String
  /-- What was reported of it. -/
  reported : List Diagnostic
  result : Node

/-- The passage is that of a run over the statement, outside of every function. -/
def Passage.IsRun (limit : UInt32) (helpers : Helpers) (passage : Passage) : Prop :=
  ∃ s : State Unit, s.depth = 0 ∧ s.Knows passage.statement ∧
    let out := (lowerNode limit (.standard helpers) passage.statement).run s
    s.names.Gives passage.given out.2.names ∧ out.2.log.toList = s.log.toList ++ passage.reported ∧
      passage.result = out.1.getD passage.statement

/-- Two passages of one statement. -/
theorem Passage.IsRun.renamed {passage other : Passage} (isRun : passage.IsRun limit helpers)
    (isRun' : other.IsRun limit helpers) (same : passage.statement = other.statement) :
    passage.reported = other.reported ∧
      ((∀ name ∈ passage.given, name ∉ helpers.names) →
        ∃ f, RenamesMadeUp f (· ∈ passage.given) (· ∈ other.given) ∧
          other.result = passage.result.rename f) := by
  obtain ⟨s, depth, knows, gives, log, result⟩ := isRun
  obtain ⟨t, depth', -, gives', log', result'⟩ := isRun'
  rw [← same] at gives' log' result'
  obtain ⟨n, new, names₁, names₂, log₁, log₂, renamed⟩ :=
    lowerNode_renamed limit helpers (depth.trans depth'.symm) knows
  have sameNames {s later : NameSupply} {given : List String} (gives : s.Gives given later)
      (later_eq : later = s.after n) : given = s.nextNames n := by
    have length : given.length = n := s.after_injective (gives.2.symm.trans later_eq)
    rw [← length]
    exact gives.1
  refine ⟨?_, fun noHelper => ?_⟩
  · exact (List.append_cancel_left (log.symm.trans log₁)).trans
      (List.append_cancel_left (log'.symm.trans log₂)).symm
  · rw [sameNames gives names₁] at noHelper
    rw [sameNames gives names₁, sameNames gives' names₂, result, result']
    exact renamed noHelper

theorem lowerNode_passage {s : State Unit} {statement : Node} (depth : s.depth = 0)
    (knows : s.Knows statement) :
    let out := (lowerNode limit (.standard helpers) statement).run s
    ∃ passage : Passage, passage.statement = statement ∧ passage.result = out.1.getD statement ∧
      s.names.Gives passage.given out.2.names ∧
      out.2.log.toList = s.log.toList ++ passage.reported ∧ passage.IsRun limit helpers := by
  intro out
  obtain ⟨n, new, names, -, reported, -, -⟩ := lowerNode_renamed limit helpers (s := s) rfl knows
  have gives := s.names.gives_next n
  rw [← names] at gives
  exact ⟨⟨statement, s.names.nextNames n, new, out.1.getD statement⟩, rfl, rfl, gives, reported,
    s, depth, knows, gives, reported, rfl⟩

/-- If every part stands for one passage, the passages are what the parts are. -/
theorem map_flatMap_of_single {α β γ : Type} {parts : List α} {g : α → List β} {h : β → γ} {k : α → γ}
    (each : ∀ part ∈ parts, ∃ b, g part = [b] ∧ h b = k part) :
    (parts.flatMap g).map h = parts.map k := by
  rw [List.map_flatMap, List.map_eq_flatMap]
  refine List.flatMap_congr fun part mem => ?_
  obtain ⟨b, single, same⟩ := each part mem
  rw [single, ← same]
  rfl

/-- The run over a program of some statements goes over them one after the other. -/
theorem runStandard_program (options : Options) (names : NameSupply) (log : Log) (span : Span)
    (statements : List Node) :
    let program : Node := ⟨span, .program statements⟩
    let outcome := runStandard options names log program
    ∃ passages : List Passage, passages.map Passage.statement = statements ∧
      outcome.tree.getD program = ⟨span, .program (passages.map Passage.result)⟩ ∧
      (names.reserveAll program.names.toList).Gives (passages.flatMap Passage.given) outcome.names ∧
      outcome.log.toList = log.toList ++ passages.flatMap Passage.reported ∧
      ∀ passage ∈ passages, passage.IsRun options.maxFunctionDepth options.helpers := by
  intro program outcome
  let limit := options.maxFunctionDepth
  let engines : Engines Unit := .standard options.helpers
  let start : State Unit := ⟨(), names.reserveAll program.names.toList, log, 0, .zero⟩
  have plain : lowerNode limit engines program = program.rebuild (parts limit engines program) :=
    lowerNode_plain limit engines rfl
  obtain ⟨-, parts, same, answer, ⟨gives, logged⟩, each⟩ := Node.rebuild_traced
    (f := lowerNode limit engines)
    (W := fun (s : State Unit) (trace : List Passage) later =>
      s.names.Gives (trace.flatMap Passage.given) later.names ∧
        later.log.toList = s.log.toList ++ trace.flatMap Passage.reported)
    ⟨fun s => ⟨NameSupply.isTrace_gives.nil s.names, (List.append_nil _).symm⟩,
      fun first second => ⟨by
        rw [List.flatMap_append]
        exact NameSupply.isTrace_gives.append first.1 second.1, by
        rw [second.2, first.2, List.flatMap_append, List.append_assoc]⟩⟩
    (I := fun later => later.depth = 0 ∧ later.Knows program)
    (R := fun child trace result => ∃ passage : Passage, trace = [passage] ∧
      passage.statement = child ∧ passage.result = result ∧ passage.IsRun limit options.helpers)
    program
    (fun child isChild later ⟨depth, knows⟩ => by
      have knowsChild : later.Knows child := fun name used => knows name (Node.uses_of_child isChild used)
      obtain ⟨passage, statement, result, gives, reported, isRun⟩ := lowerNode_passage depth knowsChild
      refine ⟨⟨(depth_log_lowerNode limit options.helpers child later).1.trans depth,
        fun name used => (gives.isTaken_iff name).2 (.inr (knows name used))⟩,
        [passage], ⟨?_, ?_⟩, passage, rfl, statement, result, isRun⟩
      · simpa using gives
      · simpa using reported)
    start ⟨rfl, fun name used => (Node.isTaken_reserveAll_names_iff program names name).2 (.inl used)⟩
  cases parts <;> cases same
  rename_i parts
  rw [← plain] at answer gives logged
  let passages : List Passage := parts.flatMap fun part => part.2.1
  refine ⟨passages, ?_, ?_, gives, logged, ?_⟩
  · refine map_flatMap_of_single fun part mem => ?_
    obtain ⟨passage, single, statement, -⟩ := each part mem
    exact ⟨passage, single, statement⟩
  · refine answer.trans (congrArg (fun results => Node.mk span (.program results)) ?_)
    refine (map_flatMap_of_single fun part mem => ?_).symm
    obtain ⟨passage, single, -, result, -⟩ := each part mem
    exact ⟨passage, single, result⟩
  · intro passage mem
    obtain ⟨part, isPart, mem⟩ := List.mem_flatMap.1 mem
    obtain ⟨passage', single, -, -, isRun⟩ := each part isPart
    rw [single, List.mem_singleton] at mem
    exact mem ▸ isRun

/-- The run made the name up: it was free once the names of the tree were taken, and is taken
afterwards. -/
def MadeUp (names : NameSupply) (tree : Node) (outcome : Outcome Unit) (name : String) : Prop :=
  (names.reserveAll tree.names.toList).isTaken name = false ∧ outcome.names.isTaken name = true

/-- The run over a program of one statement. -/
theorem runStandard_single (options : Options) (names : NameSupply) (span : Span) (statement : Node) :
    let program : Node := ⟨span, .program [statement]⟩
    let outcome := runStandard options names #[] program
    ∃ passage : Passage, passage.statement = statement ∧
      outcome.tree.getD program = ⟨span, .program [passage.result]⟩ ∧
      (∀ name, MadeUp names program outcome name ↔ name ∈ passage.given) ∧
      outcome.log.toList = passage.reported ∧
      passage.IsRun options.maxFunctionDepth options.helpers := by
  intro program outcome
  obtain ⟨passages, statements, tree, gives, log, isRun⟩ :=
    runStandard_program options names #[] span [statement]
  obtain ⟨passage, rfl, rfl⟩ := List.map_eq_singleton_iff.1 statements
  rw [List.flatMap_singleton] at gives log
  exact ⟨passage, rfl, tree, fun name => (gives.mem_iff name).symm, log,
    isRun passage (List.mem_singleton_self _)⟩

/-- What a run over a program counts is counted for its statements. -/
theorem stats_runStandard_program (options : Options) (names : NameSupply) (log : Log) (span : Span)
    (statements : List Node) :
    (runStandard options names log ⟨span, .program statements⟩).stats =
      (statements.map fun statement => tally options.maxFunctionDepth.toNat statement 0).sum := by
  have counted := (stats_lowerNode options.maxFunctionDepth (.standard options.helpers)
    ⟨span, .program statements⟩
    ⟨(), names.reserveAll (Node.mk span (.program statements)).names.toList, log, 0, .zero⟩).2
  rw [tally_plain rfl] at counted
  exact counted.trans (zero_add _)

/-- The statements of a program are lowered independently of each other. In the lowered program each
is what it becomes in a program of its own, under new names for those that are made up there, if none
of these is one of a helper. The run reports of each what is reported of it in a program of its own,
in the order of the statements, and counts what is counted for all of them. -/
theorem runStandard_statements (options : Options) (names names' : NameSupply) (log : Log)
    (span : Span) (statements : List Node)
    (apart : ∀ statement ∈ statements,
      let program : Node := ⟨span, .program [statement]⟩
      ∀ name, MadeUp names' program (runStandard options names' #[] program) name →
        name ∉ options.helpers.names) :
    let program (statements : List Node) : Node := ⟨span, .program statements⟩
    let whole := runStandard options names log (program statements)
    let alone (statement : Node) := runStandard options names' #[] (program [statement])
    (∃ results, whole.tree.getD (program statements) = program results ∧
      List.Forall₂ (fun statement result => ∃ original f,
        (alone statement).tree.getD (program [statement]) = program [original] ∧
        RenamesMadeUp f (MadeUp names' (program [statement]) (alone statement))
          (MadeUp names (program statements) whole) ∧
        result = original.rename f) statements results) ∧
      whole.log.toList =
        log.toList ++ statements.flatMap (fun statement => (alone statement).log.toList) ∧
      whole.stats = (statements.map fun statement => (alone statement).stats).sum := by
  intro program whole alone
  obtain ⟨passages, rfl, wholeTree, wholeGives, wholeLog, isRun⟩ :=
    runStandard_program options names log span statements
  have each (passage : Passage) (mem : passage ∈ passages) :
      (alone passage.statement).log.toList = passage.reported ∧ ∃ original f,
        (alone passage.statement).tree.getD (program [passage.statement]) = program [original] ∧
        RenamesMadeUp f (MadeUp names' (program [passage.statement]) (alone passage.statement))
          (MadeUp names (program (passages.map Passage.statement)) whole) ∧
        passage.result = original.rename f := by
    obtain ⟨single, same, tree, madeUp, reported, isRun'⟩ :=
      runStandard_single options names' span passage.statement
    obtain ⟨sameReports, renamed⟩ := isRun'.renamed (isRun passage mem) same
    have noHelper (name : String) (made : name ∈ single.given) : name ∉ options.helpers.names :=
      apart _ (List.mem_map_of_mem mem) name ((madeUp name).2 made)
    obtain ⟨f, renames, result⟩ := renamed noHelper
    refine ⟨reported.trans sameReports, single.result, f, tree, ⟨fun a b old old' => ?_, fun a old => ?_,
      fun a other => renames.keeps a fun made => other ((madeUp a).2 made)⟩, result⟩
    · exact renames.injective a b ((madeUp a).1 old) ((madeUp b).1 old')
    · exact (wholeGives.mem_iff _).1
        (List.mem_flatMap.2 ⟨passage, mem, renames.madeUp a ((madeUp a).1 old)⟩)
  refine ⟨⟨passages.map Passage.result, wholeTree, ?_⟩, ?_, ?_⟩
  · rw [List.forall₂_map_left_iff, List.forall₂_map_right_iff, List.forall₂_same]
    exact fun passage mem => (each passage mem).2
  · rw [show whole.log.toList = _ from wholeLog, List.flatMap_map]
    exact congrArg _ (List.flatMap_congr fun passage mem => (each passage mem).1.symm)
  · rw [show whole.stats = _ from stats_runStandard_program options names log span _]
    refine congrArg List.sum (List.map_congr_left fun statement _ => ?_)
    exact ((stats_runStandard_program options names' #[] span [statement]).trans (add_zero _)).symm

/-- With the usual options none of the names that are made up for a tree is one of a helper. -/
theorem MadeUp.not_helper {tree : Node} {log : Log} {name : String}
    (made : MadeUp Options.standard.nameSupply tree
      (runStandard .standard Options.standard.nameSupply log tree) name) :
    name ∉ Options.standard.helpers.names := by
  obtain ⟨allotments, gives, -⟩ := runStandard_hygienic .standard Options.standard.nameSupply log tree
  exact not_helper_of_gives gives name ((gives.mem_iff name).2 made)

/-- A program with one function twice. Each is lowered as if it were alone. -/
theorem runStandard_twice :
    let program (statements : List Node) : Node := ⟨.synthetic, .program statements⟩
    let run := runStandard .standard Options.standard.nameSupply #[]
    let alone := run (program [nesting])
    let whole := run (program [nesting, nesting])
    let madeUpAlone := MadeUp Options.standard.nameSupply (program [nesting]) alone
    let madeUp := MadeUp Options.standard.nameSupply (program [nesting, nesting]) whole
    (∀ name, madeUpAlone name → name ∉ Options.standard.helpers.names) ∧
      ∃ original f g, alone.tree.getD (program [nesting]) = program [original] ∧
        whole.tree.getD (program [nesting, nesting]) =
          program [original.rename f, original.rename g] ∧
        RenamesMadeUp f madeUpAlone madeUp ∧ RenamesMadeUp g madeUpAlone madeUp ∧
        whole.log.toList = alone.log.toList ++ alone.log.toList ∧
        whole.stats = alone.stats + alone.stats := by
  have apart (statement : Node) (_ : statement ∈ [nesting, nesting]) (name : String)
      (made : MadeUp Options.standard.nameSupply ⟨.synthetic, .program [statement]⟩
        (runStandard .standard Options.standard.nameSupply #[] ⟨.synthetic, .program [statement]⟩) name) :
      name ∉ Options.standard.helpers.names := made.not_helper
  have statements := runStandard_statements .standard Options.standard.nameSupply
    Options.standard.nameSupply #[] .synthetic [nesting, nesting] apart
  -- The runs are not to be evaluated.
  generalize runStandard .standard Options.standard.nameSupply #[] = run at apart statements ⊢
  obtain ⟨⟨results, tree, renamed⟩, log, stats⟩ := statements
  simp only [List.forall₂_cons_left_iff, List.forall₂_nil_left_iff] at renamed
  obtain ⟨_, _, ⟨original, f, isOriginal, first, rfl⟩, ⟨_, _, ⟨original', g, isSame, second, rfl⟩,
    rfl, rfl⟩, rfl⟩ := renamed
  obtain rfl : original = original' := by
    have same := isOriginal.symm.trans isSame
    exact (List.cons.inj (Kind.program.inj (Node.mk.inj same).2)).1
  refine ⟨apart nesting (.head _), original, f, g, isOriginal, tree, first, second, log.trans ?_,
    stats.trans ?_⟩
  · rw [List.flatMap_cons, List.flatMap_singleton, List.nil_append]
  · rw [List.map_cons, List.map_singleton, List.sum_cons, List.sum_singleton]

end Lowering

end Resumable
