import ToolchainHost.Files.System

/-!
# Contents given as runs

Contents may be longer than a list of their bytes can be. They are given as runs then, and the bytes are written out
only where they fit.

* `Run`: a byte that is repeated. `Run.expand` is what runs stand for, `Run.total` how long that is.
* `FileSystem.addRuns`: adds a file with such contents.
-/

namespace ToolchainHost

/-- A byte and how often it is repeated. -/
structure Run where
  byte : UInt8
  count : Nat
  deriving DecidableEq, Repr, Inhabited

namespace Run

/-- The bytes of runs. -/
def expand (runs : List Run) : List UInt8 := runs.flatMap fun r => List.replicate r.count r.byte

/-- The number of bytes of runs. -/
def total (runs : List Run) : Nat := runs.foldr (fun r n => r.count + n) 0

end Run

/-- Writes runs into the store's memory. -/
def FileStore.writeRuns (address : Nat) (runs : List Run) : Op FileStore Unit := do
  let s ← get
  if s.memory.InRange address (Run.total runs) then write address (Run.expand runs)
  else throw (s.memory.refusal address (Run.total runs))

/-- Adds a file, or replaces its contents. -/
def FileSystem.addRuns (path : String) (runs : List Run) : Op FileSystem Unit := do
  let path := Path.normalize path
  if (← get).kindOf path = some .directory then throw (.pathConflict path .directory)
  let length ← stage path
  let number ← onStore (FileStore.addFileNode length (Run.total runs % Word.count))
  let address ← (← get).store.fileAddress number
  onStore (FileStore.writeRuns address runs)
  register path .file

end ToolchainHost
