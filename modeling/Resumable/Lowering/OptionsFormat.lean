import Resumable.Json.Decode
import Resumable.Lowering.Options

/-!
# Options in data form

Options are an object, or an array of the values in the order of the fields. A field that is not
there has its standard value, and members of other names mean nothing.
-/

namespace Resumable

open Json (Draft Fault)

namespace Helpers

/-- Helpers from a draft. -/
def ofDraft : Draft → Except Fault Helpers :=
  Draft.record "struct RuntimeHelpers"
    [("getIterator", fun d helpers => do return { helpers with getIterator := ← d.text }),
      ("generator", fun d helpers => do return { helpers with generator := ← d.text }),
      ("awaiter", fun d helpers => do return { helpers with awaiter := ← d.text })]
    .standard

end Helpers

namespace Options

/-- Options from a draft. -/
def ofDraft : Draft → Except Fault Options :=
  Draft.record "struct LoweringOptions"
    [("identifierPrefix", fun d options => do return { options with identifierPrefix := ← d.text }),
      ("maxFunctionDepth", fun d options => do return { options with maxFunctionDepth := ← d.word }),
      ("helpers", fun d options => do return { options with helpers := ← Helpers.ofDraft d })]
    .standard

/-- Options from their text. -/
def ofText (text : String) : Except Fault Options := Json.decodeText ofDraft text

end Options

end Resumable
