import ToolchainHost.Files.Slots
import ToolchainHost.Interface
import ToolchainHost.Memory.Basic
import ToolchainHost.Path

/-!
# The file store

The store keeps the contents of all files in one memory of its own:

```text
0x0010  path buffer
0x0410  scratch area for segment lists and results
0x1000  contents, handed out upwards and never taken back
```

* `FileStore`: the memory, the nodes and the open files.
* `FileStore.allocate`: room for contents. It only ever takes from the end.
-/

namespace ToolchainHost

/-- A named node. A file's contents fill the first `size` bytes of the `capacity` bytes at `address`. -/
structure Node where
  path : String
  kind : NodeKind
  address : Nat
  size : Nat
  capacity : Nat
  deriving DecidableEq, Repr, Inhabited

/-- An open file: which node it is and where the next byte is read or written. -/
structure OpenFile where
  node : Nat
  position : Nat
  deriving DecidableEq, Repr, Inhabited

/-- The store of files. -/
structure FileStore where
  memory : Memory
  nodes : List Node
  opened : Slots OpenFile
  /-- The end of the contents handed out so far. -/
  top : Nat
  deriving Inhabited

namespace FileStore

/-- The address of the path buffer. -/
def pathBuffer : Nat := 0x10

/-- The address of the scratch area. -/
def scratch : Nat := pathBuffer + Interface.pathLimit

/-- The number of bytes of the scratch area. -/
def scratchLimit : Nat := 1024

/-- Where contents begin. -/
def heapBase : Nat := 0x1000

/-- The least capacity of a file that has grown. -/
def leastCapacity : Nat := 64

/-- A store without nodes, in a memory of one page. -/
def empty : FileStore := ⟨.ofPages 1, [], {}, heapBase⟩

/-- The number of nodes. -/
def nodeCount (s : FileStore) : Nat := s.nodes.length

/-- The index of the node with a path. -/
def indexOf? (s : FileStore) (path : String) : Option Nat := s.nodes.findIdx? fun n => n.path == path

/-- The pages missing for memory to reach `stop`. -/
def missingPages (s : FileStore) (stop : Nat) : Nat :=
  (stop - s.memory.size + (Memory.pageSize - 1)) / Memory.pageSize

/-- Hands out `size` bytes at an address divisible by eight; memory grows as needed. -/
def allocate (size : Nat) : Op FileStore Nat := do
  let s ← get
  let rounded ← Word.add s.top 7
  let address := rounded / 8 * 8
  let stop := address + size
  if Word.count ≤ stop then throw (.aborted s!"out of memory allocating {size} bytes")
  set { s with memory := s.memory.grow (s.missingPages stop), top := stop }
  return address

/-- Writes into the store's memory. -/
def write (address : Nat) (data : List UInt8) : Op FileStore Unit := do
  let s ← get
  set { s with memory := ← s.memory.write address data }

end FileStore

end ToolchainHost
