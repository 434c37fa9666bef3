import Resumable.NameSupply

/-!
# Options of the lowering
-/

namespace Resumable

/-- The names of the functions that lowered code calls at run time. -/
structure Helpers where
  /-- Takes an iterable and answers an iterator. -/
  getIterator : String
  /-- Takes `this` and a generator function and answers its generator. -/
  generator : String
  /-- Takes `this` and a generator function and answers the promise of its result. -/
  awaiter : String
  deriving Repr, DecidableEq

namespace Helpers

/-- The usual names. -/
def standard : Helpers := ⟨"__getIterator", "__generator", "__awaiter"⟩

end Helpers

/-- What a caller chooses about the lowering. -/
structure Options where
  /-- The stem of the names that the lowering makes up. -/
  identifierPrefix : String
  /-- The number of functions inside one another from which bodies are left as they are. -/
  maxFunctionDepth : UInt32
  helpers : Helpers
  deriving Repr, DecidableEq

namespace Options

/-- The options of a caller who chooses nothing. -/
def standard : Options := ⟨"$__", 128, .standard⟩

/-- A supply of names for one run. -/
def nameSupply (options : Options) : NameSupply := .ofStem options.identifierPrefix

end Options

end Resumable
