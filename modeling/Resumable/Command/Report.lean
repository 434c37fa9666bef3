import Resumable.Diagnostic

/-!
# Diagnostics as lines of text

A diagnostic is written as `file(start,end) - error GTP9002: text`, without the range if its span is
empty. In color the category is bold and in a color of its own, and the code is bright blue.
-/

namespace Resumable.Command

/-- The text between a switch to a style and the switch back. -/
def styled (style text : String) : String := "\x1b[" ++ style ++ "m" ++ text ++ "\x1b[0m"

/-- The word for a category. -/
def categoryWord : Category → String
  | .error => "error"
  | .warning => "warning"
  | .suggestion => "suggestion"
  | .message => "message"

/-- The style of a category. -/
def categoryStyle : Category → String
  | .error => "1;31"
  | .warning => "1;33"
  | .suggestion => "1;34"
  | .message => "1;36"

/-- The file, and the range in it if there is one. -/
def location (file : String) (span : Span) : String :=
  if span.isEmpty then file
  else file ++ "(" ++ toString span.start.toNat ++ "," ++ toString span.stop.toNat ++ ")"

/-- The line of a diagnostic. -/
def diagnosticLine (color : Bool) (file : String) (diagnostic : Diagnostic) : String :=
  let word := categoryWord diagnostic.category
  let code := "GTP" ++ toString diagnostic.code.toNat
  location file diagnostic.span ++ " - " ++
    (if color then styled (categoryStyle diagnostic.category) word else word) ++ " " ++
    (if color then styled "94" code else code) ++ ": " ++ diagnostic.text

/-- The lines of a log. -/
def report (color : Bool) (file : String) (log : Log) : String :=
  String.join (log.toList.map fun diagnostic => diagnosticLine color file diagnostic ++ "\n")

end Resumable.Command
