/-!
# Directory trees

Paths as an operating system reads them, and the trees they lead through.

* `pieces`: what stands between the slashes of a path.
* `components`: what a path says: where it starts, the names it goes through and where it goes up.
* `join`: a path taken from a directory.
* `Tree`: directories and files. There are no links.
* `Tree.at?`, `Tree.plant`: what names lead to, and a file put there.
* `Tree.walk`, `Tree.locate`: where a path leads to.
* `Tree.read`: the contents of the file a path leads to.
-/

namespace ToolchainHost

/-! ### Paths -/

/-- What stands between slashes. -/
def pieces : List Char → List (List Char)
  | [] => [[]]
  | c :: cs =>
    if c = '/' then [] :: pieces cs
    else
      match pieces cs with
      | p :: rest => (c :: p) :: rest
      | [] => [[c]]

/-- A component of a path. -/
inductive Component where
  | root
  | here
  | up
  | name (text : String)
  deriving DecidableEq, Repr

namespace Component

/-- What a piece says, wherever it stands. An empty one and a dot say nothing. -/
def ofPiece? (piece : List Char) : Option Component :=
  if piece = [] ∨ piece = ['.'] then none
  else if piece = ['.', '.'] then some .up
  else some (.name (String.ofList piece))

/-- The name that a component is, if it is one. -/
def name? : Component → Option String
  | name text => some text
  | _ => none

end Component

/-- Where a path starts: at the root with a slash in front, and at the directory itself with a dot in front. -/
def start (path : List Char) : List Component :=
  if path.head? = some '/' then [.root]
  else if (pieces path).head? = some ['.'] then [.here]
  else []

/-- The components of a path. Empty pieces, and dots that are not in front, are dropped. -/
def components (path : String) : List Component :=
  start path.toList ++ (pieces path.toList).filterMap Component.ofPiece?

/-- The path `path` as seen from `directory`. -/
def join (directory path : String) : String :=
  if path.toList.head? = some '/' then path
  else if directory = "" ∨ directory.toList.getLast? = some '/' then directory ++ path
  else directory ++ "/" ++ path

/-! ### Trees -/

/-- A directory tree. -/
inductive Tree where
  | file (contents : List UInt8)
  | directory (entries : List (String × Tree))
  deriving Inhabited

namespace Tree

/-- What a directory has. A file has nothing. -/
def entries : Tree → List (String × Tree)
  | file _ => []
  | directory entries => entries

/-- What is found by following names from the root. -/
def at? (world : Tree) : List String → Option Tree
  | [] => some world
  | name :: names => (world.entries.lookup name).bind (at? · names)

/-- The tree with a file where the names lead to, and directories on the way there. -/
def plant (contents : List UInt8) : List String → Tree → Tree
  | [], _ => file contents
  | name :: names, world =>
    let below := plant contents names ((world.entries.lookup name).getD (directory []))
    directory ((name, below) :: world.entries)

/-- One step of a walk. It is made from a directory, goes up or to an entry, and stays for an empty piece or a dot. At
the root there is nothing to go up to. -/
def step (world : Tree) (place : List String) (piece : List Char) : Option (List String) :=
  match world.at? place with
  | some (directory entries) =>
    match Component.ofPiece? piece with
    | some (.name name) => (entries.lookup name).map fun _ => place ++ [name]
    | some .up => some place.dropLast
    | _ => some place
  | _ => none

/-- The place a path leads to from `place`. -/
def walk (world : Tree) (place : List String) (path : String) : Option (List String) :=
  (pieces path.toList).foldlM world.step (if path.toList.head? = some '/' then [] else place)

/-- Where a path leads to. An empty one leads nowhere, and neither does one with a NUL. -/
def locate (world : Tree) (place : List String) (path : String) : Option (List String) :=
  if path = "" ∨ '\x00' ∈ path.toList then none else world.walk place path

/-- The contents of the file a path leads to. -/
def read (world : Tree) (place : List String) (path : String) : Option (List UInt8) :=
  match (world.locate place path).bind world.at? with
  | some (file contents) => some contents
  | _ => none

end Tree

end ToolchainHost
