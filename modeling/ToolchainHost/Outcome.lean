/-!
# Outcomes of commands

A command ends with an exit code and what it printed.
-/

namespace ToolchainHost

/-- How a command ended. -/
structure Outcome where
  code : Nat
  output : String
  deriving DecidableEq, Repr, Inhabited

namespace Outcome

/-- The command did its work and printed this. -/
def success (output : String) : Outcome := ⟨0, output⟩

/-- The command failed and printed nothing. -/
def failure : Outcome := ⟨1, ""⟩

/-- The command was called wrongly. -/
def usage : Outcome := ⟨2, ""⟩

end Outcome

end ToolchainHost
