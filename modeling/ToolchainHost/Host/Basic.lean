import ToolchainHost.Event
import ToolchainHost.Files.System
import ToolchainHost.Mailbox
import ToolchainHost.Segment

/-!
# The host

What all guests share: the events for the page, standard input, the last recorded failure, the memory of the
guest that runs, and the files.

* `Host.post`, `Host.emit`: events, and text for the terminal.
* `Host.recordFault`, `Host.takeFault`: the failure that explains a trap.
* `Host.bind`, `Host.unbind`: which guest runs.
-/

namespace ToolchainHost

/-- Replaces a token in terminal text, such as a path by the name a user knows. -/
structure Rewriter where
  token : String
  replacement : String
  deriving DecidableEq, Repr, Inhabited

/-- The text with every token replaced. A token that is empty or replaced by itself changes nothing. -/
def Rewriter.apply (r : Rewriter) (text : String) : String :=
  if r.token = "" ∨ r.token = r.replacement then text else Text.replaceAll r.token r.replacement text

/-- What all guests share. -/
structure Host where
  /-- The events posted so far. -/
  events : List Event := []
  /-- Applied to what guests write to the terminal. -/
  rewriter : Option Rewriter := none
  stdin : Option Stdin := none
  /-- Input that was received but not read yet. -/
  pending : List UInt8 := []
  /-- The failure recorded last. -/
  fault : Option Failure := none
  /-- The memory of the guest that runs. -/
  guest : Option Memory := none
  files : FileSystem := .empty
  deriving Inhabited

namespace Host

variable {α : Type}

/-- Posts an event. -/
def post (event : Event) (h : Host) : Host := { h with events := h.events ++ [event] }

/-- Shows text on the terminal; empty text posts no event. -/
def emit (text : String) (h : Host) : Host := if text = "" then h else h.post (.write text)

/-- The events posted so far, and the host without them. -/
def takeEvents (h : Host) : List Event × Host := (h.events, { h with events := [] })

/-- Installs a rewriter, or none. -/
def setRewriter (rewriter : Option Rewriter) (h : Host) : Host := { h with rewriter }

/-- Records a failure in place of the one recorded before. -/
def recordFault (failure : Failure) (h : Host) : Host := { h with fault := some failure }

/-- The recorded failure, and the host without it. -/
def takeFault (h : Host) : Option Failure × Host := (h.fault, { h with fault := none })

/-- The failure of a store that gives up. -/
def abort : Failure := .aborted "abort() called"

/-- Binds the memory of the guest that is about to run. -/
def bind (memory : Memory) (h : Host) : Host := { h with guest := some memory }

/-- Unbinds the guest's memory. -/
def unbind (h : Host) : Host := { h with guest := none }

/-- Runs an operation on the file system. -/
def onFiles (x : Op FileSystem α) : Op Host α := Op.onPart files (fun files h => { h with files }) x

/-- Runs an operation on the file store. -/
def onStore (x : Op FileStore α) : Op Host α := onFiles (FileSystem.onStore x)

/-- The memory of a guest, or the failure that there is none. -/
def attachedGuest : Option Memory → Except Failure Memory
  | some m => .ok m
  | none => .error (.instantiation "no guest memory attached")

/-- The memory of the store, or the failure that there is none. -/
def attachedStore : Option Memory → Except Failure Memory
  | some m => .ok m
  | none => .error (.instantiation "filesystem engine memory not attached")

/-- The memory of the guest that runs. -/
def guestMemory : Op Host Memory := do attachedGuest (← get).guest

/-- Writes into the memory of the guest that runs. -/
def writeGuest (address : Nat) (data : List UInt8) : Op Host Unit := do
  let memory ← guestMemory
  let memory ← memory.write address data
  modify fun h => { h with guest := some memory }

end Host

end ToolchainHost
