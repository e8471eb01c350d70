import ToolchainHost.Guest.ProcessState

/-!
# Guests as programs

A guest touches its own memory and asks the host for services; what it does next depends on the answers. So the
behaviour of a guest that comes to an end is a tree: at each node a call, and a branch for every answer.

* `HostCall`: the calls, and `HostCall.Answer`, what each answers.
* `Program α`: a guest's behaviour that ends with an `α`.
* `HostCall.perform`, `Program.run`: what a call and a guest do to the host.
-/

namespace ToolchainHost

open Interface (Errno)

/-- What a guest can do besides computing. -/
inductive HostCall where
  /-- Reads its own memory. -/
  | load (address count : Nat)
  /-- Reads a text in its own memory. -/
  | loadText (address : Nat) (count : Option Nat)
  /-- Writes its own memory. -/
  | save (address : Nat) (data : List UInt8)
  /-- Asks for the size of its memory. -/
  | memorySize
  /-- Adds pages to its memory. -/
  | growMemory (pages : Nat)
  | argumentSizes (count size : Nat)
  | arguments (pointers strings : Nat)
  | environSizes (count size : Nat)
  | environ (pointers strings : Nat)
  | randomBytes (address count : Nat)
  | clock
  | poll
  | exit (code : Int)
  | pathOpen (path length flags out : Nat)
  | fileClose (descriptor : Int)
  | fileWrite (descriptor : Int) (list count out : Nat)
  | fileRead (descriptor : Int) (list count out : Nat)
  /-- Records a failure with its process. -/
  | recordFault (failure : Failure)
  /-- Records a failure with the host. -/
  | recordHostFault (failure : Failure)

/-- What a call answers. -/
def HostCall.Answer : HostCall → Type
  | load .. => Except Failure (List UInt8)
  | loadText .. => Except Failure String
  | save .. => Except Failure Unit
  | memorySize => Nat
  | growMemory _ => Nat
  | exit _ => Unit
  | recordFault _ => String
  | recordHostFault _ => String
  | _ => Except Failure Errno

namespace HostCall

variable {α : Type}

/-- The outcome of an operation, with the state it leaves. -/
def outcome (x : Op Running α) (r : Running) : Except Failure α × Running :=
  match x r with
  | .ok a r => (.ok a, r)
  | .error e r => (.error e, r)

/-- The answer of a call and what it does to the guest's process and to the host. -/
def perform : (call : HostCall) → Running → call.Answer × Running
  | load address count, r => outcome (do (← Running.memory).read address count) r
  | loadText address count, r => outcome (do (← Running.memory).readText address count) r
  | save address data, r => outcome (Running.store address data) r
  | memorySize, r => ((r.host.guest.map Memory.size).getD 0, r)
  | growMemory pages, r =>
    ((r.host.guest.map Memory.pages).getD 0,
      { r with host := { r.host with guest := r.host.guest.map (·.grow pages) } })
  | argumentSizes count size, r => outcome (Running.argumentSizes count size) r
  | arguments pointers strings, r => outcome (Running.arguments pointers strings) r
  | environSizes count size, r => outcome (Running.environSizes count size) r
  | environ pointers strings, r => outcome (Running.environ pointers strings) r
  | randomBytes address count, r => outcome (Running.randomBytes address count) r
  | clock, r => outcome Running.clock r
  | poll, r => outcome Running.poll r
  | exit code, r => ((), { r with process := r.process.exit code })
  | pathOpen path length flags out, r => outcome (Running.onHost (Host.pathOpen path length flags out)) r
  | fileClose descriptor, r => outcome (Running.onHost (Host.fileClose descriptor)) r
  | fileWrite descriptor list count out, r =>
    outcome (Running.onHost (Host.fileWrite descriptor list count out)) r
  | fileRead descriptor list count out, r =>
    outcome (Running.onHost (Host.fileRead descriptor list count out)) r
  | recordFault failure, r => (failure.message, { r with process := r.process.recordFault failure })
  | recordHostFault failure, r => (failure.message, { r with host := r.host.recordFault failure })

end HostCall

/-- The behaviour of a guest that ends with an `α`. -/
inductive Program (α : Type) where
  | done (value : α)
  | perform (call : HostCall) (next : call.Answer → Program α)

namespace Program

variable {α β : Type}

instance [Inhabited α] : Inhabited (Program α) := ⟨done default⟩

/-- Goes on with another behaviour. -/
def bind : Program α → (α → Program β) → Program β
  | done a, f => f a
  | perform call next, f => perform call fun answer => (next answer).bind f

instance : Monad Program where
  pure := done
  bind := bind

/-- One call. -/
def ofCall (call : HostCall) : Program call.Answer := perform call done

/-- Runs a guest to its end. -/
def run : Program α → Running → α × Running
  | done a, r => (a, r)
  | perform call next, r =>
    let (answer, r) := call.perform r
    (next answer).run r

end Program

end ToolchainHost
