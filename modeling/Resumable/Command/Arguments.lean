import Resumable.Text.Word

/-!
# Command-line arguments

`Arguments.parse` reads the words after the program's name. An option has its value attached, as in
`--out=x`, `-ox` or `-o=x`, or in the next word, which must not look like an option. A value in a word
of its own is looked at only when the next option or the end is reached, so that an unknown word
right after it is the fault that is reported.
-/

namespace Resumable.Command

/-- What the program writes. -/
inductive Emit where
  /-- Source text. -/
  | js
  /-- The lowered tree in data form. -/
  | json
  /-- The facts of the functions as written. -/
  | facts
  deriving Repr, DecidableEq

namespace Emit

/-- The name of an output. -/
def name : Emit → String
  | .js => "js"
  | .json => "json"
  | .facts => "facts"

/-- The output of a name in any case. -/
def ofName? (name : String) : Option Emit :=
  [js, json, facts].find? fun emit => emit.name = Text.lowerCase name

end Emit

/-- What the user asked for. -/
structure Arguments where
  input : String
  config : Option String
  emit : Emit
  out : Option String
  identifierPrefix : Option String
  maxFunctionDepth : Option UInt32
  pretty : Option Bool
  deriving Repr, DecidableEq

/-- Why the words of a command line give no arguments. -/
inductive ArgumentFault where
  /-- The input is missing. -/
  | missingRequired
  /-- An option that there is not, or a second input. -/
  | unknownArgument
  /-- A value is missing, empty where it must not be, or none of the possible ones. -/
  | invalidValue
  /-- A value is no number in range. -/
  | outOfRange
  /-- An option was given twice. -/
  | conflict
  /-- A value for an option that has none. -/
  | tooManyValues
  | helpAsked
  | versionAsked
  deriving Repr, DecidableEq

/-- The places that values go to. -/
inductive Slot where
  | input
  | config
  | emit
  | out
  | identifierPrefix
  | maxFunctionDepth
  | pretty
  deriving Repr, DecidableEq

/-- What an option does. -/
inductive Switch where
  | value (slot : Slot)
  | help
  | version
  deriving Repr, DecidableEq

namespace Switch

/-- The option of a long name. -/
def ofLong? (name : String) : Option Switch :=
  match name with
  | "config" => some (.value .config)
  | "emit" => some (.value .emit)
  | "out" => some (.value .out)
  | "identifierPrefix" | "identifier-prefix" => some (.value .identifierPrefix)
  | "maxFunctionDepth" | "max-function-depth" => some (.value .maxFunctionDepth)
  | "pretty" => some (.value .pretty)
  | "help" => some .help
  | "version" => some .version
  | _ => none

/-- The option of a letter. -/
def ofShort? (letter : Char) : Option Switch :=
  match letter with
  | 'c' => some (.value .config)
  | 'o' => some (.value .out)
  | 'h' => some .help
  | 'V' => some .version
  | _ => none

end Switch

/-! ## Values -/

/-- A path, which is not empty. -/
def pathValue (text : String) : Except ArgumentFault String :=
  if text = "" then .error .invalidValue else .ok text

/-- A number of 32 bits, with or without a sign. -/
def wordValue (text : String) : Except ArgumentFault UInt32 :=
  let (negative, digits) := match text.toList with
    | '-' :: rest => (true, rest)
    | '+' :: rest => (false, rest)
    | characters => (false, characters)
  match Text.digits? digits with
  | some n => if n < UInt32.size ∧ (negative → n = 0) then .ok n.toUInt32 else .error .outOfRange
  | none => .error .outOfRange

/-- A truth value. -/
def truthValue (text : String) : Except ArgumentFault Bool :=
  match text with
  | "true" => .ok true
  | "false" => .ok false
  | _ => .error .invalidValue

/-! ## Parsing -/

/-- What was read so far. -/
structure Parsing where
  input : Option String
  config : Option String
  emit : Option Emit
  out : Option String
  identifierPrefix : Option String
  maxFunctionDepth : Option UInt32
  pretty : Option Bool
  /-- The input was met, though its value may still be looked at. -/
  inputMet : Bool
  /-- A place whose value was not looked at or not met yet. -/
  pending : Option (Slot × Option String)
  deriving Repr, DecidableEq

namespace Parsing

/-- Nothing was read. -/
def empty : Parsing := ⟨none, none, none, none, none, none, none, false, none⟩

/-- A place has its value already. -/
def isGiven (p : Parsing) : Slot → Bool
  | .input => p.input.isSome
  | .config => p.config.isSome
  | .emit => p.emit.isSome
  | .out => p.out.isSome
  | .identifierPrefix => p.identifierPrefix.isSome
  | .maxFunctionDepth => p.maxFunctionDepth.isSome
  | .pretty => p.pretty.isSome

/-- Puts a value into its place. -/
def store (p : Parsing) (slot : Slot) (text : String) : Except ArgumentFault Parsing := do
  if p.isGiven slot then throw .conflict
  match slot with
  | .input => return { p with input := some (← pathValue text) }
  | .config => return { p with config := some (← pathValue text) }
  | .emit =>
    match Emit.ofName? text with
    | some emit => return { p with emit := some emit }
    | none => throw .invalidValue
  | .out => return { p with out := some (← pathValue text) }
  | .identifierPrefix => return { p with identifierPrefix := some text }
  | .maxFunctionDepth => return { p with maxFunctionDepth := some (← wordValue text) }
  | .pretty => return { p with pretty := some (← truthValue text) }

/-- Looks at the pending value. -/
def settle (p : Parsing) : Except ArgumentFault Parsing :=
  match p.pending with
  | none => .ok p
  | some (_, none) => .error .invalidValue
  | some (slot, some text) => { p with pending := none }.store slot text

/-- Takes an option with the value attached to it, if any. -/
def takeOption (p : Parsing) (slot : Slot) (attached : Option String) :
    Except ArgumentFault Parsing := do
  let p ← p.settle
  match attached with
  | some text => p.store slot text
  | none => return { p with pending := some (slot, none) }

/-- Takes a word that begins with two dashes. -/
def takeLong (p : Parsing) (word : List Char) : Except ArgumentFault Parsing :=
  let name := word.takeWhile (· ≠ '=')
  let attached := match word.dropWhile (· ≠ '=') with
    | [] => none
    | _ :: value => some (String.ofList value)
  match Switch.ofLong? (String.ofList name), attached with
  | none, _ => .error .unknownArgument
  | some (.value slot), attached => p.takeOption slot attached
  | some .help, none => do
    let _ ← p.settle
    throw .helpAsked
  | some .version, none => do
    let _ ← p.settle
    throw .versionAsked
  | _, some _ => .error .tooManyValues

/-- Takes a word that begins with one dash, of which the letter and what follows it are left. -/
def takeShort (p : Parsing) (letter : Char) (value : List Char) : Except ArgumentFault Parsing :=
  match Switch.ofShort? letter with
  | none => .error .unknownArgument
  | some .help => do
    let _ ← p.settle
    throw .helpAsked
  | some .version => do
    let _ ← p.settle
    throw .versionAsked
  | some (.value slot) =>
    p.takeOption slot <| match value with
      | [] => none
      | '=' :: value => some (String.ofList value)
      | value => some (String.ofList value)

/-- Takes a word that is no option: the input. -/
def takeInput (p : Parsing) (word : String) : Except ArgumentFault Parsing := do
  if p.inputMet then throw .unknownArgument
  let p ← p.settle
  return { p with inputMet := true, pending := some (.input, some word) }

/-- Takes a word before the end of the options. -/
def takeWord (p : Parsing) (word : String) : Except ArgumentFault Parsing :=
  match word.toList with
  | '-' :: '-' :: rest => p.takeLong rest
  | '-' :: letter :: value => p.takeShort letter value
  | _ =>
    match p.pending with
    | some (slot, none) => .ok { p with pending := some (slot, some word) }
    | _ => p.takeInput word

/-- Takes the words of a command line. After two dashes alone every word is an input. -/
def takeWords (p : Parsing) (inputsOnly : Bool) : List String → Except ArgumentFault Parsing
  | [] => p.settle
  | word :: rest => do
    if inputsOnly then (← p.takeInput word).takeWords true rest
    else if word = "--" then p.takeWords true rest
    else (← p.takeWord word).takeWords false rest

end Parsing

/-- The arguments that the words after the program's name stand for. -/
def Arguments.parse (words : List String) : Except ArgumentFault Arguments := do
  let p ← Parsing.empty.takeWords false words
  match p.input with
  | none => throw .missingRequired
  | some input =>
    return ⟨input, p.config, p.emit.getD .js, p.out, p.identifierPrefix, p.maxFunctionDepth,
      p.pretty⟩

end Resumable.Command
