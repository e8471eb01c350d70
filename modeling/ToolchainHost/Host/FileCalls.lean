import ToolchainHost.Files.Store.Descriptors
import ToolchainHost.Host.Stdio
import ToolchainHost.Host.Transfer

/-!
# File calls of guests

The calls by which a guest uses files. All addresses are in the guest's memory; descriptors below three are the
terminal.

* `Host.pathOpen`, `Host.fileClose`: open and close a file.
* `Host.fileWrite`, `Host.fileRead`: move the segments of a guest to and from a file at the descriptor's position.
-/

namespace ToolchainHost.Host

open Interface (Errno)

/-- Brings the segment list of a guest into the scratch area. A list too long for it has no answer. -/
def guestSegments (list count : Nat) : Op Host (Option (List Segment)) := do
  let size := count * Segment.width
  if FileStore.scratchLimit < size then return none
  copyIn FileStore.scratch list size
  let data ← (← get).files.store.memory.read FileStore.scratch size
  return some (Segment.decodeAll data)

/-- Stores a word in the guest, by way of the scratch area. -/
def storeWord (out value : Nat) : Op Host Unit := do
  onStore (FileStore.write FileStore.scratch (Bytes.ofNat 4 value))
  copyOut out FileStore.scratch 4

/-- Opens the file whose path is `length` bytes at `path` and stores its descriptor at `out`. -/
def pathOpen (path length flags out : Nat) : Op Host Errno := do
  if Interface.pathLimit < length then return .invalid
  copyIn FileStore.pathBuffer path length
  let name ← (← get).files.store.stagedPath length
  match ← onStore (FileStore.openTarget name flags) with
  | .error e => return e
  | .ok index =>
    let descriptor ← onStore (FileStore.openNode index)
    storeWord out descriptor
    return .success

/-- Closes a descriptor. -/
def fileClose (descriptor : Int) : Op Host Errno := onStore (FileStore.close descriptor)

/-- Whether a file can be written from `position` on for the length of all segments. -/
def staysAddressable (position : Nat) : List Segment → Bool
  | [] => true
  | s :: rest => position + s.length < Word.count && staysAddressable (position + s.length) rest

/-- Writes segments into the file with an index from `position` on; gives the position behind them and the
number of bytes. -/
def writeSegments (index : Nat) : List Segment → (position total : Nat) → Op Host (Nat × Nat)
  | [], position, total => return (position, total)
  | s :: rest, position, total => do
    let stop ← Word.add position s.length
    let n ← onStore (FileStore.reserve index stop)
    copyIn (← Word.add n.address position) s.address s.length
    onStore (FileStore.extend index stop)
    writeSegments index rest stop (← Word.add total s.length)

/-- Writes the segments of a guest to a descriptor and stores the number of bytes at `out`. -/
def fileWrite (descriptor : Int) (list count out : Nat) : Op Host Errno := do
  if Interface.isStandard descriptor then
    let _ ← write descriptor list count out
    return .success
  match (← get).files.store.openFile? descriptor with
  | none => return .badDescriptor
  | some file =>
    match ← guestSegments list count with
    | none => return .invalid
    | some segments =>
      if !staysAddressable file.position segments then return .invalid
      let (position, total) ← writeSegments file.node segments file.position 0
      onStore (FileStore.setPosition descriptor position)
      storeWord out total
      return .success

/-- Reads the file `n` from `position` on into segments, up to the first that gets nothing; gives the position
behind what was read and the number of bytes. -/
def readSegments (n : Node) : List Segment → (position total : Nat) → Op Host (Nat × Nat)
  | [], position, total => return (position, total)
  | s :: rest, position, total => do
    let count := min s.length (n.size - position)
    if count = 0 then return (position, total)
    copyOut s.address (← Word.add n.address position) count
    readSegments n rest (← Word.add position count) (← Word.add total count)

/-- Reads from a descriptor into the segments of a guest and stores the number of bytes at `out`. -/
def fileRead (descriptor : Int) (list count out : Nat) : Op Host Errno := do
  if descriptor = 0 then
    let _ ← read descriptor list count out
    return .success
  match (← get).files.store.openFile? descriptor with
  | none => return .badDescriptor
  | some file =>
    match ← guestSegments list count with
    | none => return .invalid
    | some segments =>
      let n ← onStore (FileStore.nodeAt file.node)
      let (position, total) ← readSegments n segments file.position 0
      onStore (FileStore.setPosition descriptor position)
      storeWord out total
      return .success

end ToolchainHost.Host
