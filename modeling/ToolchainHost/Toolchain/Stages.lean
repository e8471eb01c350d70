import ToolchainHost.Toolchain.Basic

/-!
# Compile, link and run

* `compileFile`, `linkObjects`, `runBinary`: the three stages, each of which blames itself for its failures.
* `compileLinkRun`: all three for one source.
-/

namespace ToolchainHost.Toolchain

variable {σ μ γ : Type}

/-- The arguments of the compiler front end. -/
def frontEndArguments (config : Config) (source object language optLevel : String) : List String :=
  ["-cc1", "-emit-obj", "-disable-free", "-isysroot", "/",
    "-internal-isystem", "/include/c++/v1",
    "-internal-isystem", "/include",
    "-internal-isystem", "/lib/clang/" ++ config.clangVersion ++ "/include",
    "-ferror-limit", toString config.errorLimit,
    "-fmessage-length", toString config.messageLength,
    "-fcolor-diagnostics", "-O" ++ optLevel,
    "-o", object, "-x", language, source]

/-- The arguments of the linker. -/
def linkerArguments (config : Config) (objects : List String) (output : String) : List String :=
  ["--no-threads", "--export-dynamic", "-z", "stack-size=" ++ toString config.stackSize,
    "-L" ++ config.libDir, config.libDir ++ "/crt1.o"] ++
  objects ++ config.libs.map ("-l" ++ ·) ++ ["-o", output]

/-- Compiles a source that is in the files. While the front end runs, the source's path is shown as its base
name. -/
def compileStage (engine : Engine σ μ γ) (source object : String) (language : Language)
    (optLevel : Option String) : Op (Toolchain σ μ) Unit := do
  require source
  let some languageName := language.frontEndName? | throw (.commandNotFound s!"compiler for {source}")
  let config := (← get).config
  let arguments := frontEndArguments config source object languageName (optLevel.getD config.optLevel)
  modify fun t => { t with host := t.host.setRewriter (some ⟨source, Path.baseName source⟩) }
  let outcome ← Op.attempt (runTool engine config.clangModule "clang" arguments)
  modify fun t => { t with host := t.host.setRewriter none }
  let _ ← outcome
  require object

/-- Compiles a source that is in the files. -/
def compileFile (engine : Engine σ μ γ) (source object : String) (language : Language)
    (optLevel : Option String) : Op (Toolchain σ μ) Unit :=
  Op.inStage .compile (compileStage engine source object language optLevel)

/-- Writes a source and compiles it. -/
def compile (engine : Engine σ μ γ) (source text object : String) (language : Language) :
    Op (Toolchain σ μ) Unit := do
  Op.inStage .compile (onFiles (FileSystem.addFile source (Utf8.encode text)))
  compileFile engine source object language none

/-- Links objects that are in the files. -/
def linkStage (engine : Engine σ μ γ) (objects : List String) (output : String) :
    Op (Toolchain σ μ) Unit := do
  objects.forM require
  let config := (← get).config
  let _ ← runTool engine config.lldModule "wasm-ld" (linkerArguments config objects output)
  require output

/-- Links objects that are in the files. -/
def linkObjects (engine : Engine σ μ γ) (objects : List String) (output : String) :
    Op (Toolchain σ μ) Unit :=
  Op.inStage .link (linkStage engine objects output)

/-- Checks and runs a program that is in the files. Programs change between runs and are never cached. -/
def runStage (engine : Engine σ μ γ) (binary : String) (arguments : List String) :
    Op (Toolchain σ μ) Termination := do
  require binary
  let bytes ← onFiles (FileSystem.contents binary)
  Module.check bytes
  let module ← onEngine (engine.compileBytes bytes)
  let program := Path.baseName binary
  echo program arguments
  launch engine module program arguments

/-- Checks and runs a program that is in the files. -/
def runBinary (engine : Engine σ μ γ) (binary : String) (arguments : List String) :
    Op (Toolchain σ μ) Termination :=
  Op.inStage .run (runStage engine binary arguments)

/-- Compiles, links and runs one source. -/
def compileLinkRun (engine : Engine σ μ γ) (source text : String) (arguments : List String) :
    Op (Toolchain σ μ) Termination := do
  let language := (Language.ofPath? source).getD .c
  compile engine source text (Path.object source) language
  linkObjects engine [Path.object source] (Path.binary source)
  runBinary engine (Path.binary source) arguments

end ToolchainHost.Toolchain
