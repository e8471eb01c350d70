import ToolchainHost.Files.Store.Basic

/-!
# Nodes of the file store

A path is passed to the store in the path buffer. The nodes are numbered from one; a node keeps its number and
its kind.

* `addDirectoryNode`, `addFileNode`, `findNode`: the nodes by path.
* `fileAddress`, `fileSize`: where a file's contents lie.
* `reserve`, `extend`: a file that is written behind its end. One that outgrows its place is moved.
-/

namespace ToolchainHost.FileStore

/-- The path in the first `length` bytes of the path buffer, in the spelling of the nodes. -/
def stagedPath (s : FileStore) (length : Nat) : Except Failure String := do
  if Interface.pathLimit < length then throw (.pathTooLong length Interface.pathLimit)
  return Path.normalize (← s.memory.readText pathBuffer (some length))

/-- The node with a number. -/
def node (s : FileStore) (number : Nat) : Except Failure Node :=
  match number with
  | 0 => .error (.notFound s!"inode {number}")
  | index + 1 =>
    match s.nodes[index]? with
    | some n => .ok n
    | none => .error (.notFound s!"inode {number}")

/-- The node with a number, if it is a file. -/
def fileNode (s : FileStore) (number : Nat) : Except Failure Node := do
  let n ← s.node number
  if n.kind ≠ .file then throw (.notFound s!"inode {number} is a directory")
  return n

/-- Where a file's contents lie. -/
def fileAddress (s : FileStore) (number : Nat) : Except Failure Nat := return (← s.fileNode number).address

/-- The length of a file's contents. -/
def fileSize (s : FileStore) (number : Nat) : Except Failure Nat := return (← s.fileNode number).size

/-- Adds a node and gives its number. -/
def insertNode (n : Node) : Op FileStore Nat := do
  let s ← get
  set { s with nodes := s.nodes ++ [n] }
  return s.nodes.length + 1

/-- Replaces the node with an index. -/
def setNode (index : Nat) (n : Node) : Op FileStore Unit :=
  modify fun s => { s with nodes := s.nodes.set index n }

/-- The node with an index that is known to be in use. -/
def nodeAt (index : Nat) : Op FileStore Node := do
  match (← get).nodes[index]? with
  | some n => return n
  | none => throw .crash

/-- Makes a directory of the staged path and gives its number; a directory that exists is kept. -/
def addDirectoryNode (length : Nat) : Op FileStore Nat := do
  let s ← get
  let path ← s.stagedPath length
  match s.indexOf? path with
  | some index =>
    let n ← nodeAt index
    if n.kind = .file then throw (.pathConflict path n.kind)
    return index + 1
  | none => insertNode ⟨path, .directory, 0, 0, 0⟩

/-- Makes a file of the staged path with room for `size` bytes and gives its number. A file that exists keeps
its place if the new size fits there. -/
def addFileNode (length size : Nat) : Op FileStore Nat := do
  let s ← get
  let path ← s.stagedPath length
  match s.indexOf? path with
  | some index =>
    let n ← nodeAt index
    if n.kind = .directory then throw (.pathConflict path n.kind)
    if size ≤ n.capacity then setNode index { n with size }
    else
      let address ← allocate size
      setNode index ⟨path, .file, address, size, size⟩
    return index + 1
  | none =>
    let address ← allocate size
    insertNode ⟨path, .file, address, size, size⟩

/-- The number of the node with the staged path. -/
def findNode (s : FileStore) (length : Nat) : Except Failure (Option Nat) := do
  let path ← s.stagedPath length
  return (s.indexOf? path).map (· + 1)

/-- The capacity given to a file that has to hold `needed` bytes. -/
def grownCapacity (n : Node) (needed : Nat) : Nat :=
  max (max needed (min (2 * n.capacity) (Word.count - 1))) leastCapacity

/-- Makes room for `needed` bytes in the file with an index; a file that does not fit is moved. -/
def reserve (index needed : Nat) : Op FileStore Node := do
  let n ← nodeAt index
  if needed ≤ n.capacity then return n
  let capacity := grownCapacity n needed
  let address ← allocate capacity
  let contents ← (← get).memory.read n.address n.size
  write address contents
  let moved := { n with address, capacity }
  setNode index moved
  return moved

/-- Lengthens the file with an index to `size` bytes if it is shorter. -/
def extend (index size : Nat) : Op FileStore Unit := do
  let n ← nodeAt index
  setNode index { n with size := max n.size size }

end ToolchainHost.FileStore
