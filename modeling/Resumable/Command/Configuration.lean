import Resumable.Lowering.OptionsFormat

/-!
# The configuration file

The file is an object whose member `lowering` holds options, or an array with the options as its
item. Everything in it may be left out.
-/

namespace Resumable.Command

open Json (Draft Fault)

/-- What a configuration file says. -/
structure Configuration where
  lowering : Options
  deriving Repr, DecidableEq

namespace Configuration

/-- The configuration of a user without a file. -/
def standard : Configuration := ⟨.standard⟩

/-- A configuration from a draft. -/
def ofDraft : Draft → Except Fault Configuration :=
  Draft.record "struct CliConfig"
    [("lowering", fun d configuration => do
      return { configuration with lowering := ← Options.ofDraft d })]
    standard

/-- A configuration from its text. -/
def ofText (text : String) : Except Fault Configuration := Json.decodeText ofDraft text

/-- What is said of a text that is no configuration. -/
def faultText : String := "failed to parse configuration JSON"

end Configuration

end Resumable.Command
