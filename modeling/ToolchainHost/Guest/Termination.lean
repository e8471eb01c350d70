import ToolchainHost.Failure
import ToolchainHost.Interface
import ToolchainHost.Text.Blank

/-!
# How guests end

* `Trap`, `Termination`: the ways in which an entry into a guest ends.
* `Termination.allowsScheduling`: only the continue code lets a guest be entered again.
* `highlight`, `Trap.render`, `Failure.render`: how failures look on the terminal.
-/

namespace ToolchainHost

/-- A fault while guest code runs, with an excerpt of the call stack if the engine has one. -/
structure Trap where
  message : String
  stack : Option String := none
  deriving DecidableEq, Repr, Inhabited

/-- How an entry into a guest ended. -/
inductive Termination where
  /-- The entry returned. -/
  | normal (code : Int)
  | trap (trap : Trap)
  /-- The guest exited. -/
  | exit (code : Int)
  deriving DecidableEq, Repr, Inhabited

namespace Termination

/-- Whether the guest may be entered again. -/
def allowsScheduling : Termination → Bool
  | exit code => code == Interface.continueCode
  | _ => false

/-- The exit code, unless the guest trapped. -/
def exitCode? : Termination → Option Int
  | normal code => some code
  | exit code => some code
  | trap _ => none

end Termination

/-- Text in the colour of errors, without its trailing blanks, on a line of its own. -/
def highlight (text : String) : String := "\x1b[91m" ++ Text.trimEnd text ++ "\x1b[0m\n"

/-- How a trap looks on the terminal. -/
def Trap.render (t : Trap) : String :=
  match t.stack with
  | some stack => highlight ("Error: " ++ t.message ++ "\n" ++ stack)
  | none => highlight ("Error: " ++ t.message)

/-- How a failure looks on the terminal. -/
def Failure.render (f : Failure) : String := Trap.render ⟨f.message, none⟩

end ToolchainHost
