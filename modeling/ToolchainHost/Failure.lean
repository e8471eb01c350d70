/-!
# Failures

* `Failure`: every cause for which an operation of the host, a guest or the toolchain gives up.
* `Failure.message`: the line a user reads, the only place where a failure is worded.
* `Failure.inStage`: blames a failure on a stage of the toolchain, once: a failure that already names its stage
  keeps it.
* `Op σ α`: an operation on a state `σ`. It keeps the state it has reached also where it fails.
-/

namespace ToolchainHost

/-- What a path names. -/
inductive NodeKind where
  | file
  | directory
  deriving DecidableEq, Repr, Inhabited

/-- The word for a kind of node. -/
def NodeKind.name : NodeKind → String
  | .file => "file"
  | .directory => "directory"

/-- The steps from a source to a finished run. -/
inductive Stage where
  | compile
  | link
  | run
  deriving DecidableEq, Repr, Inhabited

/-- The word for a stage. -/
def Stage.name : Stage → String
  | .compile => "compile"
  | .link => "link"
  | .run => "run"

/-- The causes of failure. -/
inductive Failure where
  /-- A header or entry of an archive cannot be used. -/
  | archiveFormat (offset : Nat) (reason : String)
  /-- No node has this path. -/
  | notFound (path : String)
  /-- The path is taken by a node of the other kind. -/
  | pathConflict (path : String) (existing : NodeKind)
  /-- The path does not fit the path buffer. -/
  | pathTooLong (length limit : Nat)
  /-- A system call that guests are deliberately not given. -/
  | unsupportedSyscall (space name : String)
  /-- A descriptor that the call does not serve. -/
  | badDescriptor (syscall : String) (descriptor : Int)
  /-- An access that ends behind the end of memory. -/
  | outOfBounds (address size memorySize : Nat)
  /-- A guest faulted; the terminal already shows it. -/
  | guestTrap (reason : String)
  /-- A guest exited with a failing code; the terminal already shows it. -/
  | guestExit (code : Int)
  /-- A stage failed and the stages after it were not run. -/
  | stageFailed (stage : Stage) (cause : Failure)
  /-- The bytes are no module. -/
  | invalidModule (reason : String)
  /-- The module lacks an export every guest must have. -/
  | missingExport (name : String)
  /-- No instance could be made, or the instance cannot be entered. -/
  | instantiation (reason : String)
  /-- A module or an archive could not be fetched. -/
  | fetch (name reason : String)
  /-- The handshake over standard input went wrong. -/
  | mailbox (reason : String)
  /-- The file store gave up. -/
  | aborted (reason : String)
  /-- The command line names no tool and no binary. -/
  | commandNotFound (name : String)
  /-- A request came before the toolchain was ready. -/
  | notInitialized
  /-- A message could not be understood. -/
  | protocol (reason : String)
  /-- The host broke off: a sum of two words left the 32-bit range, or an index named nothing. -/
  | crash
  deriving DecidableEq, Repr, Inhabited

namespace Failure

/-- The line a user reads. -/
def message : Failure → String
  | archiveFormat offset reason => s!"malformed archive at offset {offset}: {reason}"
  | notFound path => s!"no such file: {path}"
  | pathConflict path existing => s!"path already registered as a {existing.name}: {path}"
  | pathTooLong length limit => s!"path of {length} bytes exceeds the {limit} byte limit"
  | unsupportedSyscall space name => s!"unsupported syscall: {space}.{name}"
  | badDescriptor syscall descriptor => s!"{syscall} called with unsupported descriptor {descriptor}"
  | outOfBounds address size memorySize =>
    s!"memory access out of bounds: address {address} + size {size} > memory size {memorySize}"
  | guestTrap reason => reason
  | guestExit code => s!"process exited with code {code}."
  | stageFailed stage cause => s!"{stage.name} failed: {cause.message}"
  | invalidModule reason => s!"invalid WASM module: {reason}"
  | missingExport name => s!"missing required export: '{name}'"
  | instantiation reason => s!"module instantiation failed: {reason}"
  | fetch name reason => s!"failed to fetch {name}: {reason}"
  | mailbox reason => s!"stdin mailbox: {reason}"
  | aborted reason => s!"filesystem engine aborted: {reason}"
  | commandNotFound name => s!"command not found: {name}"
  | notInitialized => "toolchain is not initialized"
  | protocol reason => s!"bad message: {reason}"
  | crash => "the host broke off"

/-- Whether the terminal already shows a failure when it is returned. -/
def isReported : Failure → Bool
  | guestTrap _ => true
  | guestExit _ => true
  | stageFailed _ cause => cause.isReported
  | _ => false

/-- Blames a failure on a stage, unless it already names one. -/
def inStage (stage : Stage) : Failure → Failure
  | stageFailed s cause => stageFailed s cause
  | cause => stageFailed stage cause

theorem inStage_inStage (s t : Stage) (f : Failure) : (f.inStage s).inStage t = f.inStage s := by
  cases f <;> rfl

theorem isReported_inStage (s : Stage) (f : Failure) : (f.inStage s).isReported = f.isReported := by
  cases f <;> rfl

end Failure

/-- An operation on a state; the state it has reached is kept also where it fails. -/
abbrev Op (σ α : Type) := EStateM Failure σ α

namespace Op

variable {σ τ α : Type}

/-- An outcome that does not touch the state. -/
def ofExcept : Except Failure α → Op σ α
  | .ok a => pure a
  | .error e => throw e

instance : MonadLift (Except Failure) (EStateM Failure σ) := ⟨ofExcept⟩

/-- Runs an operation and hands over its outcome instead of failing. -/
def attempt (x : Op σ α) : Op σ (Except Failure α) := fun s =>
  match x s with
  | .ok a s => .ok (.ok a) s
  | .error e s => .ok (.error e) s

/-- Runs an operation on a part of the state. -/
def onPart (get : σ → τ) (put : τ → σ → σ) (x : Op τ α) : Op σ α := fun s =>
  match x (get s) with
  | .ok a t => .ok a (put t s)
  | .error e t => .error e (put t s)

/-- Blames a failure of an operation on a stage. -/
def inStage (stage : Stage) (x : Op σ α) : Op σ α := fun s =>
  match x s with
  | .ok a s => .ok a s
  | .error e s => .error (e.inStage stage) s

end Op

end ToolchainHost
