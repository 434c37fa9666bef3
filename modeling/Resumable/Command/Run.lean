import Resumable.Command.Arguments
import Resumable.Command.Configuration
import Resumable.Lowering.Run
import Resumable.Suspension.FactsFormat
import Resumable.Syntax.Decode
import Resumable.Syntax.Print

/-!
# A run of the command

`run` reads the configuration and the tree, lowers the tree, and writes what was asked for. It works
on any `Files`, which say what reading and writing by name mean.
-/

namespace Resumable.Command

/-- Reading and writing files by name. -/
structure Files (m : Type → Type) where
  /-- The text of a file, if there is one that can be read as text. -/
  read : String → m (Option String)
  /-- Writes a file, and tells whether that was possible. -/
  write : String → String → m Bool

/-! ## Failures -/

/-- Why a run ended early. -/
inductive Failure where
  | unreadableConfiguration (path : String)
  | invalidConfiguration (path : String) (cause : Json.Fault)
  | unreadableInput (path : String)
  | invalidTree (path : String) (cause : Json.Fault)
  | unwritableOutput (path : String)
  deriving Repr, DecidableEq

namespace Failure

/-- The words for a failure. -/
def message : Failure → String
  | .unreadableConfiguration path => "failed to read configuration: " ++ path
  | .invalidConfiguration path _ =>
    "invalid configuration: " ++ path ++ ": " ++ Configuration.faultText
  | .unreadableInput path => "failed to read input: " ++ path
  | .invalidTree path _ => "failed to parse syntax tree: " ++ path
  | .unwritableOutput path => "failed to write output: " ++ path

/-- The fault of the text that could not be decoded. -/
def cause? : Failure → Option Json.Fault
  | .invalidConfiguration _ cause | .invalidTree _ cause => some cause
  | _ => none

end Failure

/-! ## Lowering a tree -/

/-- What a run gave. -/
structure Outcome where
  output : String
  log : Log
  stats : Lowering.Stats

/-- Lowers a tree and writes it as asked. The facts are those of the tree as written. -/
def process (options : Options) (emit : Emit) (tree : Node) : Outcome :=
  let outcome := Lowering.runStandard options options.nameSupply #[] tree
  let lowered := outcome.tree.getD tree
  let output := match emit with
    | .js => lowered.print
    | .json => lowered.toJson.pretty ++ "\n"
    | .facts => (FunctionSummary.treeToJson tree).pretty ++ "\n"
  ⟨output, outcome.log, outcome.stats⟩

/-! ## The run -/

variable {m : Type → Type} [Monad m]

/-- The options from the configuration file, if one is named, and from the arguments. -/
def effectiveOptions (files : Files m) (arguments : Arguments) : ExceptT Failure m Options := do
  let configuration ← match arguments.config with
    | none => pure Configuration.standard
    | some path =>
      match ← files.read path with
      | none => throw (.unreadableConfiguration path)
      | some text =>
        match Configuration.ofText text with
        | .ok configuration => pure configuration
        | .error cause => throw (.invalidConfiguration path cause)
  let options := configuration.lowering
  return { options with
    identifierPrefix := arguments.identifierPrefix.getD options.identifierPrefix
    maxFunctionDepth := arguments.maxFunctionDepth.getD options.maxFunctionDepth }

/-- The tree of the input file. -/
def inputTree (files : Files m) (path : String) : ExceptT Failure m Node := do
  match ← files.read path with
  | none => throw (.unreadableInput path)
  | some text =>
    match Node.ofText text with
    | .ok tree => return tree
    | .error cause => throw (.invalidTree path cause)

/-- Does what the arguments ask for. -/
def run (files : Files m) (arguments : Arguments) : ExceptT Failure m Outcome := do
  let options ← effectiveOptions files arguments
  let tree ← inputTree files arguments.input
  let outcome := process options arguments.emit tree
  match arguments.out with
  | none => return outcome
  | some path =>
    if ← files.write path outcome.output then return outcome
    else throw (.unwritableOutput path)

/-- The exit code of a run that came to its end. -/
def Outcome.exitCode (outcome : Outcome) : UInt32 := if outcome.log.isEmpty then 0 else 2

end Resumable.Command
