/-!
# Replacing a text within a text

`substitute` replaces the occurrences of a pattern from left to right, none overlapping another.
-/

namespace Resumable.Text

/-- Replaces the occurrences of `pattern` in the rest of a text, of which the first `skip`
characters were replaced already. -/
def substituteFrom (pattern replacement : List Char) (skip : Nat) : List Char → List Char
  | [] => []
  | c :: rest =>
    if 0 < skip then substituteFrom pattern replacement (skip - 1) rest
    else if pattern.isPrefixOf (c :: rest) then
      replacement ++ substituteFrom pattern replacement (pattern.length - 1) rest
    else c :: substituteFrom pattern replacement 0 rest

/-- Replaces every occurrence of a `pattern` that is not empty. -/
def substitute (pattern replacement text : String) : String :=
  String.ofList (substituteFrom pattern.toList replacement.toList 0 text.toList)

end Resumable.Text
