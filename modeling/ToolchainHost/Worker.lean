import ToolchainHost.Request
import ToolchainHost.Toolchain.CommandLine

/-!
# The worker

The worker answers requests. It boots the toolchain at the first `init`; every other request ends with one
completion event, whatever came of it. A failure that the terminal does not show yet is shown here.

* `Worker`: the state between requests.
* `Worker.handle`: one request.
-/

namespace ToolchainHost

/-- What an interpreter made of a source: bytes for the terminal, or a value without text. -/
inductive InterpreterOutput where
  | text (bytes : List UInt8)
  | silent
  deriving DecidableEq, Repr, Inhabited

/-- An interpreter: a file's name and source lead to an output or to a traceback. -/
abbrev Interpreter := (fileName source : String) → Except String InterpreterOutput

/-- A worker whose engine has states `σ` and modules `μ`. -/
inductive Worker (σ μ : Type) where
  /-- Nothing was booted yet. -/
  | waiting (engine : σ) (host : Host)
  /-- Booting failed, and the engine is gone. -/
  | stranded (host : Host)
  /-- The toolchain is ready. -/
  | ready (toolchain : Toolchain σ μ)

namespace Worker

variable {σ μ γ : Type}

/-- The host of a worker. -/
def host : Worker σ μ → Host
  | waiting _ host => host
  | stranded host => host
  | ready toolchain => toolchain.host

/-- The worker with another host. -/
def setHost (host : Host) : Worker σ μ → Worker σ μ
  | waiting engine _ => waiting engine host
  | stranded _ => stranded host
  | ready toolchain => ready { toolchain with host }

/-- Whether the toolchain is ready. -/
def isReady : Worker σ μ → Bool
  | ready _ => true
  | _ => false

/-- Posts an event. -/
def post (event : Event) : Op (Worker σ μ) Unit := modify fun w => w.setHost (w.host.post event)

/-- Shows text on the terminal. -/
def emit (text : String) : Op (Worker σ μ) Unit := modify fun w => w.setHost (w.host.emit text)

/-- Runs an operation on the toolchain, which must be ready. -/
def onToolchain {α : Type} (x : Op (Toolchain σ μ) α) : Op (Worker σ μ) α := fun w =>
  match w with
  | ready toolchain =>
    match x toolchain with
    | .ok a toolchain => .ok a (ready toolchain)
    | .error e toolchain => .error e (ready toolchain)
  | w => .error .notInitialized w

/-- Boots the toolchain and says that it is ready. An engine boots once; after a failed boot there is none. -/
def init (engine : Engine σ μ γ) (config : Config) : Op (Worker σ μ) Unit := do
  match ← get with
  | ready _ => post .ready
  | stranded _ => throw .notInitialized
  | waiting state host =>
    match Toolchain.boot engine config (state, host) with
    | .ok toolchain _ =>
      set (ready toolchain : Worker σ μ)
      post .ready
    | .error e (_, host) =>
      set (stranded host : Worker σ μ)
      emit e.render
      throw e

/-- Writes the files that come with a request. -/
def writeFiles (files : List SourceFile) : Op (Toolchain σ μ) Unit :=
  files.forM fun f => Toolchain.onFiles (FileSystem.addFile f.name (Utf8.encode f.contents))

/-- What stands for the file's name in a traceback. -/
def executionToken : String := "<exec>"

/-- Interprets a source and shows what came of it. -/
def interpret (interpreter : Option Interpreter) (fileName source : String) : Op (Toolchain σ μ) Unit := do
  match interpreter with
  | none => throw (.commandNotFound "python")
  | some interpreter =>
    match interpreter fileName source with
    | .ok (.text bytes) => Toolchain.onHost (modify (Host.emit (Utf8.decode bytes)))
    | .ok .silent => return
    | .error traceback =>
      let traceback := Rewriter.apply ⟨executionToken, fileName⟩ traceback
      Toolchain.onHost (modify (Host.emit (highlight traceback)))
      throw (.guestTrap traceback)

/-- The text of the active file: as it came with the request, or else as it lies in the files. -/
def sourceText (active : String) (files : List SourceFile) : Op (Toolchain σ μ) String := do
  match files.find? fun f => f.name == active with
  | some f => return f.contents
  | none => return Utf8.decode (← Toolchain.onFiles (FileSystem.contents active))

/-- Runs the active file. -/
def runSource (engine : Engine σ μ γ) (interpreter : Option Interpreter) (active : String)
    (files : List SourceFile) : Op (Toolchain σ μ) Unit := do
  writeFiles files
  let source ← sourceText active files
  match Language.ofPath? active with
  | some .python => interpret interpreter active source
  | some _ =>
    let _ ← Toolchain.compileLinkRun engine active source []
  | none => throw (.commandNotFound active)

/-- Runs command lines up to the first that fails. -/
def runCommand (engine : Engine σ μ γ) (active : String) (lines : List String) (files : List SourceFile) :
    Op (Toolchain σ μ) Unit := do
  writeFiles files
  lines.forM fun line =>
    Toolchain.runCommandLine engine (Command.fillIn line (Path.baseName active))

/-- Shows a failure that the terminal does not show yet, and ends the request. -/
def finish (outcome : Except Failure Unit) (completion : Event) : Op (Worker σ μ) Unit := do
  if let .error e := outcome then
    if !e.isReported then emit e.render
  post completion
  outcome

/-- Answers one request. The outcome has been shown already. -/
def handle (engine : Engine σ μ γ) (interpreter : Option Interpreter) (request : Request) :
    Op (Worker σ μ) Unit := do
  match request with
  | .init config => init engine (config.getD {})
  | .runSource active files =>
    finish (← Op.attempt (onToolchain (runSource engine interpreter active files))) .runCompleted
  | .runCommand token active lines files =>
    finish (← Op.attempt (onToolchain (runCommand engine active lines files))) (.commandCompleted token)

end Worker

end ToolchainHost
