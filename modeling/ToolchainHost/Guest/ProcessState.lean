import ToolchainHost.Host.FileCalls
import ToolchainHost.StringTable

/-!
# The process surface

What one guest sees besides files: its arguments, one environment variable, random bytes and its exit. There is
no clock and no polling; a guest that asks for them fails.

* `ProcessState`: the state of the surface.
* `Running`: a guest's process together with the host it runs on.
-/

namespace ToolchainHost

open Interface (Errno)

/-- The process surface of one guest. -/
structure ProcessState where
  arguments : StringTable
  environ : StringTable
  /-- The state of the random generator. -/
  random : UInt64
  /-- The code the guest exited with. -/
  exitCode : Option Int := none
  /-- The failure recorded last. -/
  fault : Option Failure := none
  deriving Inhabited

namespace ProcessState

/-- Remembers the code the guest exits with. -/
def exit (code : Int) (p : ProcessState) : ProcessState := { p with exitCode := some code }

/-- Forgets an exit, so that the guest can be entered again. -/
def clearExit (p : ProcessState) : ProcessState := { p with exitCode := none }

/-- Records a failure in place of the one recorded before. -/
def recordFault (failure : Failure) (p : ProcessState) : ProcessState := { p with fault := some failure }

/-- The recorded failure, and the process without it. -/
def takeFault (p : ProcessState) : Option Failure × ProcessState := (p.fault, { p with fault := none })

/-- A process with its arguments, the program's name first, and its environment variable. The generator must not
start from zero, so the seed is made odd. -/
def new (arguments : List String) (environ : String) (seed : UInt64) : ProcessState :=
  { arguments := ⟨arguments⟩, environ := ⟨[environ]⟩, random := seed ||| 1 }

/-- The generator's next state. -/
def nextState (x : UInt64) : UInt64 :=
  let x := x ^^^ (x >>> 12)
  let x := x ^^^ (x <<< 25)
  x ^^^ (x >>> 27)

/-- The eight bytes that the generator gives in a state. -/
def output (x : UInt64) : List UInt8 := Bytes.ofNat 8 (x * 0x2545F4914F6CDD1D).toNat

/-- The bytes of the next `count` states, and the last of them. -/
def draw : (count : Nat) → UInt64 → List UInt8 × UInt64
  | 0, x => ([], x)
  | count + 1, x =>
    let y := nextState x
    let (more, z) := draw count y
    (output y ++ more, z)

end ProcessState

/-- A guest's process and the host it runs on. -/
structure Running where
  process : ProcessState
  host : Host
  deriving Inhabited

namespace Running

variable {α : Type}

/-- Runs an operation on the host. -/
def onHost (x : Op Host α) : Op Running α := Op.onPart host (fun host r => { r with host }) x

/-- The guest's memory, as the process surface sees it. -/
def memory : Op Running Memory := do
  match (← get).host.guest with
  | some m => return m
  | none => throw (.instantiation "guest memory not attached")

/-- Writes into the guest's memory. -/
def store (address : Nat) (data : List UInt8) : Op Running Unit := do
  let m ← (← memory).write address data
  modify fun r => { r with host := { r.host with guest := some m } }

/-- Stores the number of strings of a table at `count` and that of their bytes at `size`. -/
def tableSizes (table : StringTable) (count size : Nat) : Op Running Errno := do
  let _ ← memory
  store count (Bytes.ofNat 4 table.count)
  store size (Bytes.ofNat 4 table.size)
  return .success

/-- Stores the strings of a table at `strings` and their addresses at `pointers`. -/
def tableEntries (table : StringTable) (pointers strings : Nat) : Op Running Errno := do
  let _ ← memory
  let addresses ← table.pointers strings
  store pointers addresses
  store strings table.strings
  return .success

/-- The sizes of the arguments. -/
def argumentSizes (count size : Nat) : Op Running Errno := do
  tableSizes (← get).process.arguments count size

/-- The arguments. -/
def arguments (pointers strings : Nat) : Op Running Errno := do
  tableEntries (← get).process.arguments pointers strings

/-- The sizes of the environment. -/
def environSizes (count size : Nat) : Op Running Errno := do
  tableSizes (← get).process.environ count size

/-- The environment. -/
def environ (pointers strings : Nat) : Op Running Errno := do
  tableEntries (← get).process.environ pointers strings

/-- Stores `count` random bytes. The generator moves on even if they cannot be stored. -/
def randomBytes (address count : Nat) : Op Running Errno := do
  let r ← get
  let (data, random) := ProcessState.draw ((count + 7) / 8) r.process.random
  set { r with process := { r.process with random } }
  store address (data.take count)
  return .success

/-- The clock, which guests are not given. -/
def clock : Op Running Errno := throw (.unsupportedSyscall Interface.processSpace Interface.clockCall)

/-- Polling, which guests are not given. -/
def poll : Op Running Errno := throw (.unsupportedSyscall Interface.processSpace Interface.pollCall)

end Running

end ToolchainHost
