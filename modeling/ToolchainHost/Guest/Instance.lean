import ToolchainHost.Guest.Engine

/-!
# Guest instances

An instance is started once. It may be entered again only while its last entry ended with the continue code.

* `Instance.enter`: one entry. The guest's memory is bound to the host for just as long.
* `Instance.start`, `Instance.invoke`: the start function and any other export, if the life of the instance
  allows it; a refused call changes nothing.
* `Launch.run`: a new instance, started, with failures shown on the terminal.
-/

namespace ToolchainHost

/-- An instance whose code is in state `γ`. -/
structure Instance (γ : Type) where
  code : γ
  process : ProcessState
  memory : Memory
  /-- How the last entry ended, if there was one. -/
  ended : Option Termination := none
  deriving Inhabited

namespace Instance

variable {σ μ γ : Type}

/-- Whether the instance may be entered again. -/
def allowsScheduling (i : Instance γ) : Bool :=
  match i.ended with
  | some t => t.allowsScheduling
  | none => false

/-- The failure that explains a trap: the process's, else the host's. It takes the place of the engine's message. -/
def explain (trap : Trap) (p : ProcessState) (h : Host) : Trap × ProcessState × Host :=
  match p.takeFault with
  | (some failure, p) => ({ trap with message := failure.message }, p, h)
  | (none, p) =>
    match h.takeFault with
    | (some failure, h) => ({ trap with message := failure.message }, p, h)
    | (none, h) => (trap, p, h)

/-- How an entry ended. A recorded exit counts, whether the call then returned or unwound. -/
def conclude (outcome : Except Trap Unit) (p : ProcessState) (h : Host) : Termination × ProcessState × Host :=
  match p.exitCode, outcome with
  | some code, _ => (.exit code, p, h)
  | none, .ok () => (.normal 0, p, h)
  | none, .error trap =>
    let (trap, p, h) := explain trap p h
    (.trap trap, p, h)

/-- Calls an export with the guest's memory bound to the host. -/
def enter (engine : Engine σ μ γ) (name : String) (i : Instance γ) (h : Host) :
    Termination × Instance γ × Host :=
  let ((outcome, code), r) := (engine.call name i.code).run ⟨i.process, h.bind i.memory⟩
  let (termination, process, host) := conclude outcome r.process r.host.unbind
  (termination, ⟨code, process, r.host.guest.getD i.memory, some termination⟩, host)

/-- Calls the start function of an instance that has not been entered yet. -/
def start (engine : Engine σ μ γ) : Op (Instance γ × Host) Termination := do
  let (i, h) ← get
  if i.ended.isSome then throw (.instantiation "instance already started")
  let (termination, i, h) := enter engine Interface.startExport i h
  set (i, h)
  return termination

/-- Calls an export of an instance that asked to be entered again. -/
def invoke (engine : Engine σ μ γ) (name : String) : Op (Instance γ × Host) Termination := do
  let (i, h) ← get
  if !i.allowsScheduling then
    throw (.instantiation s!"guest may not be scheduled again to call {name}")
  let (termination, i, h) := enter engine name { i with process := i.process.clearExit } h
  set (i, h)
  return termination

end Instance

/-- What a new instance is given. -/
structure Launch where
  program : String
  arguments : List String
  /-- The environment variable. -/
  environ : String
  seed : UInt64 := 0x9E3779B97F4A7C15
  deriving Inhabited

namespace Launch

variable {σ μ γ : Type}

/-- Makes an instance of a module. -/
def instantiate (engine : Engine σ μ γ) (module : μ) (launch : Launch) : Op σ (Instance γ) := do
  let (memory, code) ← engine.instantiate module
  let memory ← memory
  return {
    code, memory
    process := .new (launch.program :: launch.arguments) launch.environ launch.seed }

/-- Shows a trap or a failing exit on the terminal and turns it into a failure. -/
def report (termination : Termination) : Op Host Termination := do
  match termination with
  | .normal _ => return termination
  | .trap trap =>
    modify (Host.emit trap.render)
    throw (.guestTrap trap.message)
  | .exit code =>
    if code = 0 ∨ termination.allowsScheduling then return termination
    else
      modify (Host.emit (Failure.guestExit code).render)
      throw (.guestExit code)

/-- Starts a new instance and reports how it ended. -/
def run (engine : Engine σ μ γ) (module : μ) (launch : Launch) : Op (σ × Host) Termination := do
  let i ← Op.onPart Prod.fst (fun s p => (s, p.2)) (launch.instantiate engine module)
  let (s, h) ← get
  let (termination, _, h) := i.enter engine Interface.startExport h
  set (s, h)
  Op.onPart Prod.snd (fun h p => (p.1, h)) (report termination)

end Launch

end ToolchainHost
