import ToolchainHost.Files.Store.Nodes

/-!
# The file system as the host sees it

The host registers the files and directories it adds, and finds those that guests made in the store.

* `addFile`, `addDirectory`: add a node under its normal path.
* `contents`, `fileExists`, `kindOf`, `entries`: what is there.
-/

namespace ToolchainHost

/-- The store and the nodes that the host added to it. -/
structure FileSystem where
  store : FileStore
  /-- The kinds of the nodes the host added, sorted by path. -/
  registered : List (String × NodeKind)
  deriving Inhabited

namespace FileSystem

/-- A file system without nodes. -/
def empty : FileSystem := ⟨.empty, []⟩

/-- Puts a node at its place in nodes sorted by path; a node with the same path is replaced. -/
def insertSorted (path : String) (kind : NodeKind) : List (String × NodeKind) → List (String × NodeKind)
  | [] => [(path, kind)]
  | (p, k) :: rest =>
    if path < p then (path, kind) :: (p, k) :: rest
    else if path = p then (path, kind) :: rest
    else (p, k) :: insertSorted path kind rest

/-- The nodes the host added, in the order of their paths. -/
def entries (fs : FileSystem) : List (String × NodeKind) := fs.registered

/-- The kind of a node that the host added. -/
def kindOf (fs : FileSystem) (path : String) : Option NodeKind :=
  (fs.registered.find? fun n => n.1 == Path.normalize path).map (·.2)

/-- Runs an operation on the store. -/
def onStore {α : Type} (x : Op FileStore α) : Op FileSystem α :=
  Op.onPart store (fun store fs => { fs with store }) x

/-- Registers a node. -/
def register (path : String) (kind : NodeKind) : Op FileSystem Unit :=
  modify fun fs => { fs with registered := insertSorted path kind fs.registered }

/-- Puts a path into the path buffer and gives its length. -/
def stage (path : String) : Op FileSystem Nat := do
  let bytes := Utf8.encode path
  if Interface.pathLimit < bytes.length then throw (.pathTooLong bytes.length Interface.pathLimit)
  onStore (FileStore.write FileStore.pathBuffer bytes)
  return bytes.length

/-- Adds a directory; one that the host added before is left as it is. -/
def addDirectory (path : String) : Op FileSystem Unit := do
  let path := Path.normalize path
  match (← get).kindOf path with
  | some .directory => return
  | some .file => throw (.pathConflict path .file)
  | none =>
    let length ← stage path
    let _ ← onStore (FileStore.addDirectoryNode length)
    register path .directory

/-- Adds a file, or replaces its contents. -/
def addFile (path : String) (contents : List UInt8) : Op FileSystem Unit := do
  let path := Path.normalize path
  if (← get).kindOf path = some .directory then throw (.pathConflict path .directory)
  let length ← stage path
  let number ← onStore (FileStore.addFileNode length (contents.length % Word.count))
  let address ← (← get).store.fileAddress number
  onStore (FileStore.write address contents)
  register path .file

/-- The contents of a file, whoever made it. -/
def contents (path : String) : Op FileSystem (List UInt8) := do
  let path := Path.normalize path
  if (← get).kindOf path = some .directory then throw (.notFound path)
  let length ← stage path
  let store := (← get).store
  match ← store.findNode length with
  | none => throw (.notFound path)
  | some number =>
    let address ← store.fileAddress number
    let size ← store.fileSize number
    store.memory.read address size

/-- Whether there is a node with this path, whoever made it. -/
def fileExists (path : String) : Op FileSystem Bool := do
  let path := Path.normalize path
  if ((← get).kindOf path).isSome then return true
  let length ← stage path
  return (← (← get).store.findNode length).isSome

end FileSystem

end ToolchainHost
