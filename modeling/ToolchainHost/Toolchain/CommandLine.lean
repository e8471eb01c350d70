import ToolchainHost.Toolchain.Stages

/-!
# Command lines

A line names the compiler driver, the linker, `run`, or a program in the files.

`runCommandLine` runs one line.
-/

namespace ToolchainHost.Toolchain

open Command (DriverLine)

variable {σ μ γ : Type}

/-- Whether a path names something that can be run. -/
def isBinary (path : String) : Op (Toolchain σ μ) Bool := do
  if (← get).host.files.kindOf path = some .directory then return false
  onFiles (FileSystem.fileExists path)

/-- Where the object of a source goes. -/
def objectFor (line : DriverLine) (source : String) : String :=
  match line.output, line.compileOnly with
  | some output, true => output
  | _, _ => Path.object source

/-- Compiles the sources of a driver line one after the other; gives their objects. -/
def compileSources (engine : Engine σ μ γ) (line : DriverLine) :
    List (String × Language) → Op (Toolchain σ μ) (List String)
  | [] => return []
  | (source, language) :: rest => do
    let object := objectFor line source
    compileFile engine source object language line.optLevel
    return object :: (← compileSources engine line rest)

/-- Runs a driver line: a front-end line as it is, any other by compiling its sources and linking. -/
def drive (engine : Engine σ μ γ) (language : Language) (arguments : List String) :
    Op (Toolchain σ μ) Unit := do
  if arguments.contains "-cc1" then
    let _ ← Op.inStage .compile (runTool engine (← get).config.clangModule "clang" arguments)
  else
    match DriverLine.parse language arguments with
    | .error e => throw (.stageFailed .compile (.protocol e.message))
    | .ok line =>
      let compiled ← compileSources engine line line.sources
      if !line.compileOnly then
        linkObjects engine (line.objects ++ compiled) (line.output.getD "a.out")

/-- Runs the words of a command line. -/
def runWords (engine : Engine σ μ γ) : List String → Op (Toolchain σ μ) Unit
  | [] => return
  | "clang" :: arguments => drive engine .c arguments
  | "clang++" :: arguments => drive engine .cxx arguments
  | "wasm-ld" :: arguments => link arguments
  | "lld" :: arguments => link arguments
  | ["run"] => throw (.commandNotFound "run")
  | "run" :: binary :: arguments => run binary arguments
  | name :: arguments => do
    if ← isBinary name then run name arguments else throw (.commandNotFound name)
where
  /-- Runs the linker with arguments as they are. -/
  link (arguments : List String) : Op (Toolchain σ μ) Unit := do
    let _ ← Op.inStage .link (runTool engine (← get).config.lldModule "wasm-ld" arguments)
  /-- Runs a program that is in the files. -/
  run (binary : String) (arguments : List String) : Op (Toolchain σ μ) Unit := do
    let _ ← runBinary engine binary arguments

/-- Runs a command line; an empty one does nothing. -/
def runCommandLine (engine : Engine σ μ γ) (line : String) : Op (Toolchain σ μ) Unit :=
  runWords engine (Command.words line)

end ToolchainHost.Toolchain
