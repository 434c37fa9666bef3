import Resumable.Syntax.Build

/-!
# Binding a loop variable
-/

namespace Resumable

/-- The name that a loop declares for its variable: that of its first declaration. -/
def declaredVariable? (initializer : Node) : Option String :=
  match initializer.kind with
  | .variableStatement (⟨_, .variableDeclaration name _⟩ :: _) => some name
  | _ => none

/-- The statement that gives a loop variable its value: a declaration if the loop declares the
variable, and else an assignment to what the loop names. -/
def bindVariable (initializer value : Node) : Node :=
  match declaredVariable? initializer with
  | some name => Build.variableStatement name (some value)
  | none => Build.assignmentStatement initializer value

end Resumable
