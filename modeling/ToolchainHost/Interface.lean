/-!
# The interface between host and modules

The names and numbers both sides agree on: what a guest must export and may import, what the file store's module
offers, error numbers, open flags and descriptors.
-/

namespace ToolchainHost.Interface

/-- The export that holds a guest's memory. -/
def memoryExport : String := "memory"

/-- The export that starts a guest. -/
def startExport : String := "_start"

/-- The exports every guest has. -/
def guestExports : List String := [memoryExport, startExport]

/-- The import space of the process surface. -/
def processSpace : String := "wasi_unstable"

/-- The import space of the file store. -/
def storeSpace : String := "env"

/-- The import spaces. -/
def spaces : List String := [processSpace, storeSpace]

/-- The clock call, which guests are not given. -/
def clockCall : String := "clock_time_get"

/-- The polling call, which guests are not given. -/
def pollCall : String := "poll_oneoff"

/-- The calls of the process surface. -/
def processCalls : List String :=
  ["proc_exit", "environ_sizes_get", "environ_get", "args_sizes_get", "args_get", "random_get", clockCall,
    pollCall, "fd_write", "fd_read"]

/-- What the file store's module exports. -/
def storeExports : List String :=
  ["init", "GetPathBuf", "AddDirectoryNode", "AddFileNode", "FindNode", "GetFileNodeAddress", "GetFileNodeSize"]

/-- What the file store's module imports. -/
def storeImports : List String := ["abort", "host_write", "host_read", "memfs_log", "copy_in", "copy_out"]

/-- The number of bytes of the path buffer. -/
def pathLimit : Nat := 1024

/-- The descriptors of standard input, output and errors. -/
def standardDescriptors : List Int := [0, 1, 2]

/-- Whether a descriptor is one of the three standard ones. -/
def isStandard (descriptor : Int) : Bool := standardDescriptors.contains descriptor

/-- What a file call answers to its guest. -/
inductive Errno where
  | success
  | badDescriptor
  | invalid
  | noEntry
  deriving DecidableEq, Repr, Inhabited

/-- The error numbers in order. -/
def Errno.all : List Errno := [.success, .badDescriptor, .invalid, .noEntry]

/-- The number of an answer. -/
def Errno.code : Errno → Nat
  | .success => 0
  | .badDescriptor => 8
  | .invalid => 28
  | .noEntry => 44

/-- The open flag that creates a missing file. -/
def createFlag : Nat := 1

/-- The open flag that empties an existing file. -/
def truncateFlag : Nat := 8

/-- Whether all bits of `flag` are set in `flags`. -/
def hasFlag (flags flag : Nat) : Bool := flags / flag % 2 == 1

/-- The exit code by which a guest asks to be entered again. -/
def continueCode : Int := 0xC0C0A

end ToolchainHost.Interface
