import ToolchainHost.Json.Parser

/-!
# Configuration

Every setting has a default.

* `Config.toJson`: writes the settings by name.
* `Config.ofJson?`: reads settings from an object, by name, or from an array, by place.
* `Config.parse?`: reads them from a text, where the values of unknown names only have to be JSON.
-/

namespace ToolchainHost

/-- The settings of a toolchain. -/
structure Config where
  /-- The module of the compiler front end. -/
  clangModule : String := "clang"
  /-- The module of the linker. -/
  lldModule : String := "lld"
  /-- The module of the file store. -/
  memfsModule : String := "memfs"
  /-- The archive with headers and libraries. -/
  sysrootArchive : String := "sysroot.tar"
  /-- The version that names the directory of the compiler's own headers. -/
  clangVersion : String := "8.0.1"
  optLevel : String := "2"
  errorLimit : Nat := 19
  messageLength : Nat := 80
  /-- The stack reserved by the linker, in bytes. -/
  stackSize : Nat := 1048576
  /-- Where the start object and the libraries lie. -/
  libDir : String := "lib/wasm32-wasi"
  /-- The libraries every program is linked with. -/
  libs : List String := ["c", "c++", "c++abi"]
  envKey : String := "PWD"
  envValue : String := "/"
  /-- The longest input, in bytes. -/
  stdinCapacity : Nat := 4096
  /-- Show each command before it runs. -/
  echoCommands : Bool := false
  showTiming : Bool := true
  deriving DecidableEq, Repr, Inhabited

namespace Config

/-- The one variable that guests see. -/
def environ (c : Config) : String := s!"{c.envKey}={c.envValue}"

/-- The settings by name, in order. -/
def toJson (c : Config) : Json :=
  let text (name value : String) : String × Json := (name, .string value)
  let nat (name : String) (value : Nat) : String × Json := (name, .number (.int value))
  .object [text "clangModule" c.clangModule, text "lldModule" c.lldModule, text "memfsModule" c.memfsModule,
    text "sysrootArchive" c.sysrootArchive, text "clangVersion" c.clangVersion, text "optLevel" c.optLevel,
    nat "errorLimit" c.errorLimit, nat "messageLength" c.messageLength, nat "stackSize" c.stackSize,
    text "libDir" c.libDir, ("libs", .array (c.libs.map .string)), text "envKey" c.envKey,
    text "envValue" c.envValue, nat "stdinCapacity" c.stdinCapacity, ("echoCommands", .bool c.echoCommands),
    ("showTiming", .bool c.showTiming)]

/-- Reads a text. -/
def text? : Json → Option String
  | .string s => some s
  | _ => none

/-- Reads a truth value. -/
def bool? : Json → Option Bool
  | .bool b => some b
  | _ => none

/-- Reads a number below `limit`. -/
def nat? (limit : Nat) : Json → Option Nat
  | .number (.int n) => if 0 ≤ n ∧ n < limit then some n.toNat else none
  | _ => none

/-- Reads a list of texts. -/
def texts? : Json → Option (List String)
  | .array items => items.mapM text?
  | _ => none

/-- The bound of the 32-bit settings. -/
def wordLimit : Nat := 4294967296

/-- The bound of the 64-bit settings. -/
def longLimit : Nat := 18446744073709551616

/-- The settings by name, in order: how each is put into a configuration. -/
def setters : List (String × (Json → Config → Option Config)) := [
  ("clangModule", fun v c => (text? v).map ({ c with clangModule := · })),
  ("lldModule", fun v c => (text? v).map ({ c with lldModule := · })),
  ("memfsModule", fun v c => (text? v).map ({ c with memfsModule := · })),
  ("sysrootArchive", fun v c => (text? v).map ({ c with sysrootArchive := · })),
  ("clangVersion", fun v c => (text? v).map ({ c with clangVersion := · })),
  ("optLevel", fun v c => (text? v).map ({ c with optLevel := · })),
  ("errorLimit", fun v c => (nat? wordLimit v).map ({ c with errorLimit := · })),
  ("messageLength", fun v c => (nat? wordLimit v).map ({ c with messageLength := · })),
  ("stackSize", fun v c => (nat? wordLimit v).map ({ c with stackSize := · })),
  ("libDir", fun v c => (text? v).map ({ c with libDir := · })),
  ("libs", fun v c => (texts? v).map ({ c with libs := · })),
  ("envKey", fun v c => (text? v).map ({ c with envKey := · })),
  ("envValue", fun v c => (text? v).map ({ c with envValue := · })),
  ("stdinCapacity", fun v c => (nat? longLimit v).map ({ c with stdinCapacity := · })),
  ("echoCommands", fun v c => (bool? v).map ({ c with echoCommands := · })),
  ("showTiming", fun v c => (bool? v).map ({ c with showTiming := · }))]

/-- Whether a setting has this name. -/
def isKnown (name : String) : Bool := setters.any fun s => s.1 == name

/-- Puts a member into a configuration; unknown names are passed over. -/
def setField (c : Config) (name : String) (value : Json) : Option Config :=
  match setters.find? fun s => s.1 == name with
  | some (_, set) => set value c
  | none => some c

/-- Puts members into a configuration, no setting twice; `seen` are the names met so far. -/
def setFields (seen : List String) (c : Config) : List (String × Json) → Option Config
  | [] => some c
  | (name, value) :: rest =>
    if isKnown name && seen.contains name then none
    else (setField c name value).bind fun c => setFields (name :: seen) c rest

/-- Puts items into a configuration by place; there may be fewer than settings but not more. -/
def setItems (c : Config) : List (String × (Json → Config → Option Config)) → List Json → Option Config
  | _, [] => some c
  | [], _ :: _ => none
  | (_, set) :: setters, value :: rest => (set value c).bind fun c => setItems c setters rest

/-- Reads a configuration from a value. -/
def ofJson? : Json → Option Config
  | .object fields => setFields [] {} fields
  | .array items => setItems {} setters items
  | _ => none

/-- Reads a configuration from a text. -/
def parse? (text : String) : Option Config :=
  let limitsOf (name : String) : Json.Limits := if isKnown name then .strict else ⟨text.length, true⟩
  (Json.parseWith? limitsOf text).bind ofJson?

end Config

end ToolchainHost
