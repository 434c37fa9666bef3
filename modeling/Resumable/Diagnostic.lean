import Resumable.Span
import Resumable.Text.Substitute

/-!
# Diagnostics

A diagnostic says at which span which rule was broken. Its text comes from a `Template`, whose
places `{0}`, `{1}`, … are filled by `fill`. A `Log` keeps diagnostics in the order of report.
-/

namespace Resumable

/-! ## Filling a template -/

/-- The place of argument `i` in a template: its decimal index in braces. -/
def placeholder (i : Nat) : String := "\x7b" ++ toString i ++ "\x7d"

/-- Puts the arguments into the places of `text`, one argument after the other: the text of an
earlier argument is searched for the places of the later ones. -/
def fill (text : String) (arguments : List String) : String :=
  arguments.zipIdx.foldl
    (fun filled (argument, i) => Text.substitute (placeholder i) argument filled) text

/-! ## Diagnostics -/

/-- How grave a diagnostic is. -/
inductive Category where
  | warning
  | error
  | suggestion
  | message
  deriving Repr, DecidableEq

/-- One report about a source text. -/
structure Diagnostic where
  category : Category
  code : UInt32
  span : Span
  text : String
  deriving Repr, DecidableEq

/-- A rule that the lowering reports when it is broken: its code, and its text with places for
arguments. -/
structure Template where
  code : UInt32
  category : Category
  text : String
  deriving Repr, DecidableEq

namespace Template

/-- Functions are nested deeper than the limit. -/
def nestingTooDeep : Template where
  code := 9001
  category := .error
  text := "Function nesting exceeds the maximum depth of \x7b0\x7d; the body was left unlowered."

/-- An `await` stands in a body that also yields. -/
def awaitInGenerator : Template where
  code := 9002
  category := .error
  text := "'await' cannot be used in a body that also contains 'yield'."

/-- A `yield for` was left over when the body became a generator. -/
def undesugaredIteration : Template where
  code := 9003
  category := .error
  text := "'yield for' reached generator lowering without being desugared."

/-- A `yield` stands in a body that became asynchronous. -/
def yieldInAsync : Template where
  code := 9004
  category := .error
  text := "'yield' cannot be used in an asynchronous body."

/-- Every template there is. -/
def all : List Template := [nestingTooDeep, awaitInGenerator, undesugaredIteration, yieldInAsync]

/-- The template of a code. -/
def find? (code : UInt32) : Option Template := all.find? (·.code == code)

/-- The diagnostic that a broken rule gives at `span`. -/
def diagnose (template : Template) (span : Span) (arguments : List String) : Diagnostic where
  category := template.category
  code := template.code
  span := span
  text := fill template.text arguments

end Template

/-! ## The log -/

/-- The diagnostics reported so far, oldest first. -/
abbrev Log := Array Diagnostic

namespace Log

/-- The diagnostics that are errors. -/
def errors (log : Log) : Array Diagnostic := log.filter (·.category = .error)

/-- Whether an error was reported. -/
def hasErrors (log : Log) : Bool := log.any (·.category = .error)

/-- Reports a broken rule. -/
def report (template : Template) (span : Span) (arguments : List String) : StateM Log Unit :=
  modify (·.push (template.diagnose span arguments))

end Log

end Resumable
