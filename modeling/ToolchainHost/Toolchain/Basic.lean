import ToolchainHost.Archive.Loader
import ToolchainHost.Command.Driver
import ToolchainHost.Command.Words
import ToolchainHost.Config
import ToolchainHost.Guest.Instance
import ToolchainHost.Module.Check

/-!
# The toolchain

The compiler and the linker are guests. Each stage reads its input from the files and leaves its output there.

* `Toolchain.boot`: a file store filled from the archive.
* `Toolchain.runTool`: a tool by its module's name, compiled at most once.
* `Toolchain.require`: fails if there is no node with a path.
-/

namespace ToolchainHost

/-- A booted toolchain on an engine with states `σ` and modules `μ`. -/
structure Toolchain (σ μ : Type) where
  config : Config
  engine : σ
  host : Host
  /-- The modules compiled by name. -/
  cache : List (String × μ) := []
  /-- The number of guests started, which varies their random bytes. -/
  launches : Nat := 0

namespace Toolchain

variable {σ μ γ α : Type}

/-- Runs an operation on the engine. -/
def onEngine (x : Op σ α) : Op (Toolchain σ μ) α := Op.onPart engine (fun engine t => { t with engine }) x

/-- Runs an operation on the host. -/
def onHost (x : Op Host α) : Op (Toolchain σ μ) α := Op.onPart host (fun host t => { t with host }) x

/-- Runs an operation on the files. -/
def onFiles (x : Op FileSystem α) : Op (Toolchain σ μ) α := onHost (Host.onFiles x)

/-- Makes the file store ready and fills it from the archive. The state is the engine and the host. -/
def boot (engine : Engine σ μ γ) (config : Config) : Op (σ × Host) (Toolchain σ μ) := do
  let onEngine {α : Type} (x : Op σ α) : Op (σ × Host) α := Op.onPart Prod.fst (fun s p => (s, p.2)) x
  onEngine (engine.instantiateStore config.memfsModule)
  modify fun (s, h) => (s, { h with files := .empty })
  let data ← onEngine (engine.fetch config.sysrootArchive)
  let loadFiles : Op FileSystem Archive.Summary :=
    Op.onPart (fun files => (⟨0, files⟩ : Archive.Loading)) (fun l _ => l.files) (Archive.load data)
  let _ ← Op.onPart Prod.snd (fun h p => (p.1, h)) (Host.onFiles loadFiles)
  let (s, host) ← get
  return { config, engine := s, host }

/-- The cached module with a name. -/
def cached? (t : Toolchain σ μ) (name : String) : Option μ := (t.cache.find? fun m => m.1 == name).map (·.2)

/-- The module with a name, compiled at its first use. A failed compilation is not remembered. -/
def getModule (engine : Engine σ μ γ) (name : String) : Op (Toolchain σ μ) μ := do
  match (← get).cached? name with
  | some module => return module
  | none =>
    let module ← onEngine (engine.compileNamed name)
    modify fun t => { t with cache := t.cache ++ [(name, module)] }
    return module

/-- Shows a command before it runs, if the configuration asks for it. -/
def echo (program : String) (arguments : List String) : Op (Toolchain σ μ) Unit :=
  modify fun t =>
    if t.config.echoCommands then
      { t with host := t.host.emit ("> " ++ program ++ " " ++ " ".intercalate arguments ++ "\n") }
    else t

/-- The seed of the guest started as number `launch`. -/
def seedOf (launch : Nat) : UInt64 := 0x2545F4914F6CDD1D * UInt64.ofNat launch

/-- Runs a module as a new guest. -/
def launch (engine : Engine σ μ γ) (module : μ) (program : String) (arguments : List String) :
    Op (Toolchain σ μ) Termination := do
  let t ← get
  let launches := t.launches + 1
  set { t with launches }
  let request : Launch := { program, arguments, environ := t.config.environ, seed := seedOf launches }
  Op.onPart (fun t : Toolchain σ μ => (t.engine, t.host))
    (fun p t => { t with engine := p.1, host := p.2 }) (request.run engine module)

/-- Runs a tool by the name of its module. -/
def runTool (engine : Engine σ μ γ) (moduleName program : String) (arguments : List String) :
    Op (Toolchain σ μ) Termination := do
  let module ← getModule engine moduleName
  echo program arguments
  launch engine module program arguments

/-- Fails if there is no node with a path. -/
def require (path : String) : Op (Toolchain σ μ) Unit := do
  if !(← onFiles (FileSystem.fileExists path)) then throw (.notFound path)

end Toolchain

end ToolchainHost
