import Resumable.Text.Word

/-!
# What is logged, and how

The user asks for log messages by a level, or by a list of directives for a reader of such lists. A
bare level is meant for the parts of this program alone: everything else stays at `warn`.
-/

namespace Resumable.Command

/-! ## Format -/

/-- How log messages are laid out. -/
inductive LogFormat where
  | text
  | tree
  | json
  deriving Repr, DecidableEq

/-- The format of that name, in any case and with blanks around it; plain text for any other. -/
def LogFormat.ofName (name : String) : LogFormat :=
  match Text.lowerCase (Text.trim name) with
  | "tree" => .tree
  | "json" => .json
  | _ => .text

/-! ## Level -/

/-- How much is logged. -/
inductive LogLevel where
  | off
  | error
  | warn
  | info
  | debug
  | trace
  deriving Repr, DecidableEq

namespace LogLevel

/-- The name of a level. -/
def name : LogLevel → String
  | .off => "off"
  | .error => "error"
  | .warn => "warn"
  | .info => "info"
  | .debug => "debug"
  | .trace => "trace"

/-- All levels. The place of a level in this list is its number. -/
def all : List LogLevel := [.off, .error, .warn, .info, .debug, .trace]

/-- The level of a number, which may have a plus sign. -/
def ofNumber? (text : String) : Option LogLevel :=
  let digits := match text.toList with
    | '+' :: rest => rest
    | characters => characters
  match Text.digits? digits with
  | some n => all[n]?
  | none => none

/-- The level of a number, of a name in any case, or of nothing at all. -/
def ofText? (text : String) : Option LogLevel :=
  match ofNumber? text with
  | some level => some level
  | none =>
    if text = "" then some .error
    else all.find? fun level => level.name = Text.lowerCase text

end LogLevel

/-- The parts of the program that log. -/
def logTargets : List String := ["gtp_common", "gtp_ast", "gtp_lowering", "gtp_cli"]

/-- The directives that a value asks for: for a bare level, that level for every part of the program;
anything else is a list of directives already. -/
def directives (value : String) : String :=
  let value := Text.trim value
  match LogLevel.ofText? value with
  | none => value
  | some level =>
    String.intercalate "," ("warn" :: logTargets.map fun target => target ++ "=" ++ level.name)

end Resumable.Command
