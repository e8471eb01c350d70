import ToolchainHost.Language

/-!
# Compiler driver lines

The driver understands `-c`, `-o`, `-O` and inputs. `DriverLine.parse` sorts the arguments of a line, or says
why it cannot.
-/

namespace ToolchainHost.Command

/-- The reasons for which a driver line is refused. -/
inductive DriverError where
  | missingOutput
  | unsupportedFlag (flag : String)
  | notCompiled (path : String)
  | noInput
  | outputForMany
  deriving DecidableEq, Repr

/-- The wording of a refusal. -/
def DriverError.message : DriverError → String
  | missingOutput => "missing path after -o"
  | unsupportedFlag flag => s!"unsupported driver flag {flag}"
  | notCompiled path => s!"{path} is not a C or C++ source"
  | noInput => "no input files"
  | outputForMany => "cannot specify -o with -c and multiple sources"

/-- A driver line, sorted. -/
structure DriverLine where
  /-- Stop after the objects. -/
  compileOnly : Bool := false
  output : Option String := none
  /-- What follows `-O`. -/
  optLevel : Option String := none
  /-- The sources in order, each with its language. -/
  sources : List (String × Language) := []
  /-- The objects in order, which go straight to the linker. -/
  objects : List String := []
  deriving DecidableEq, Inhabited

namespace DriverLine

/-- Sorts one argument that is not `-o` into a line; `fallback` is the language of sources whose extension
tells none. -/
def takeArgument (fallback : Language) (line : DriverLine) (argument : String) : Except DriverError DriverLine :=
  if argument = "-c" then .ok { line with compileOnly := true }
  else if ['-', 'O'].isPrefixOf argument.toList then
    .ok { line with optLevel := some (String.ofList (argument.toList.drop 2)) }
  else if ['-'].isPrefixOf argument.toList then .error (.unsupportedFlag argument)
  else if ['.', 'o'].isSuffixOf argument.toList then .ok { line with objects := line.objects ++ [argument] }
  else
    let language := (Language.ofPath? argument).getD fallback
    if language = .python then .error (.notCompiled argument)
    else .ok { line with sources := line.sources ++ [(argument, language)] }

/-- Sorts the arguments from left to right; `-o` takes the argument after it, whatever it is. -/
def collect (fallback : Language) (line : DriverLine) : List String → Except DriverError DriverLine
  | [] => .ok line
  | "-o" :: [] => .error .missingOutput
  | "-o" :: path :: rest => collect fallback { line with output := some path } rest
  | argument :: rest =>
    match takeArgument fallback line argument with
    | .ok line => collect fallback line rest
    | .error e => .error e

/-- Sorts the arguments and checks that the line makes sense. -/
def parse (fallback : Language) (arguments : List String) : Except DriverError DriverLine := do
  let line ← collect fallback {} arguments
  if line.sources.isEmpty && line.objects.isEmpty then throw .noInput
  if line.compileOnly && line.output.isSome && 1 < line.sources.length then throw .outputForMany
  return line

end DriverLine

end ToolchainHost.Command
