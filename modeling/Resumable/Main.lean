import Resumable.Command.Report
import Resumable.Command.Run

/-!
# The command

The outermost layer: it hands the words of the command line and the files of the machine to the
library, and prints what comes back.
-/

open Resumable Resumable.Command

/-- The files of the machine. -/
def machineFiles : Files IO where
  read path := do
    try
      let bytes ← IO.FS.readBinFile path
      return String.fromUTF8? bytes
    catch _ => return none
  write path text := do
    try
      IO.FS.writeFile path text
      return true
    catch _ => return false

/-- How the command is used. -/
def usage : String :=
  "Lower generator, iteration and async suspensions in a syntax tree\n\n" ++
  "Usage: gtp [OPTIONS] <INPUT>\n\n" ++
  "Options:\n" ++
  "  -c, --config <CONFIG>\n" ++
  "      --emit <EMIT>                            [js, json, facts]\n" ++
  "  -o, --out <OUT>\n" ++
  "      --identifierPrefix <IDENTIFIER_PREFIX>\n" ++
  "      --maxFunctionDepth <MAX_FUNCTION_DEPTH>\n" ++
  "      --pretty <PRETTY>                        [true, false]\n" ++
  "  -h, --help\n" ++
  "  -V, --version\n"

/-- The words for a fault in the arguments. -/
def argumentFaultText : ArgumentFault → String
  | .missingRequired => "the input is missing"
  | .unknownArgument => "unexpected argument"
  | .invalidValue => "invalid or missing value"
  | .outOfRange => "a number is out of range"
  | .conflict => "an option is given twice"
  | .tooManyValues => "an option takes no value"
  | .helpAsked | .versionAsked => ""

/-- Prints the outcome of a run. -/
def printOutcome (arguments : Arguments) (outcome : Outcome) : IO UInt32 := do
  if arguments.out.isNone then
    IO.print outcome.output
  let color := arguments.pretty.getD false
  IO.eprint (report color arguments.input outcome.log)
  return outcome.exitCode

/-- Prints a failure with its cause. -/
def printFailure (failure : Failure) : IO UInt32 := do
  let cause := failure.cause?.bind Json.Fault.message?
  IO.eprintln ("Error: " ++ failure.message ++ (cause.map (": " ++ ·)).getD "")
  return 1

/-- The command. -/
def main (words : List String) : IO UInt32 := do
  match Arguments.parse words with
  | .error .helpAsked =>
    IO.print usage
    return 0
  | .error .versionAsked =>
    IO.println "gtp 0.1.0"
    return 0
  | .error fault =>
    IO.eprintln ("error: " ++ argumentFaultText fault ++ "\n\n" ++ usage)
    return 2
  | .ok arguments =>
    match ← (run machineFiles arguments).run with
    | .error failure => printFailure failure
    | .ok outcome => printOutcome arguments outcome
