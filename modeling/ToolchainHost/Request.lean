import ToolchainHost.Config
import ToolchainHost.Failure

/-!
# Requests

What the page asks of the host. A message is an object whose member `id` names the request, or an array that
starts with that name and lists the request's parts in order.

`Request.parse?` reads a message.
-/

namespace ToolchainHost

/-- A file that comes with a request. -/
structure SourceFile where
  name : String
  contents : String
  deriving DecidableEq, Repr, Inhabited

/-- What the page asks of the host. -/
inductive Request where
  /-- Load the toolchain. -/
  | init (config : Option Config)
  /-- Compile, link and run the active file, or interpret it. -/
  | runSource (active : String) (files : List SourceFile)
  /-- Run command lines; the token comes back when they are done. -/
  | runCommand (token : Json) (active : String) (lines : List String) (files : List SourceFile)
  deriving Repr, Inhabited

namespace Request

/-- The values of the members called `names`, each of which may be given once; other members are passed over. -/
def members? (names : List String) (fields : List (String × Json)) : Option (List (Option Json)) :=
  names.mapM fun name =>
    match fields.filter fun f => f.1 == name with
    | [] => some none
    | [(_, v)] => some (some v)
    | _ => none

/-- Reads a file. -/
def file? : Json → Option SourceFile
  | .array [.string name, .string contents] => some ⟨name, contents⟩
  | .object fields =>
    match members? ["name", "contents"] fields with
    | some [some (.string name), some (.string contents)] => some ⟨name, contents⟩
    | _ => none
  | _ => none

/-- Reads a list of files. -/
def files? : Json → Option (List SourceFile)
  | .array items => items.mapM file?
  | _ => none

/-- Reads a configuration that may be null. -/
def config? : Json → Option (Option Config)
  | .null => some none
  | v => (Config.ofJson? v).map some

/-- The names of a request's parts, in order. -/
def partNames : (id : String) → Option (List String)
  | "init" => some ["config"]
  | "runSource" => some ["activeFileName", "files"]
  | "runCommand" => some ["token", "activeFileName", "commandLines", "files"]
  | _ => none

/-- Puts a request together from its parts. -/
def ofParts? (id : String) (parts : List (Option Json)) : Option Request :=
  match id, parts with
  | "init", [] => some (.init none)
  | "init", [none] => some (.init none)
  | "init", [some config] => (config? config).map .init
  | "runSource", [some (.string active), some files] => (files? files).map (.runSource active)
  | "runCommand", [some token, some (.string active), some lines, some files] => do
    return .runCommand token.canonical active (← Config.texts? lines) (← files? files)
  | _, _ => none

/-- Reads a request from a value. -/
def ofJson? : Json → Option Request
  | .array (.string id :: items) => ofParts? id (items.map some)
  | .object fields =>
    match members? ["id"] fields with
    | some [some (.string id)] => do
      ofParts? id (← members? (← partNames id) fields)
    | _ => none
  | _ => none

/-- Reads a request from a message. -/
def parse? (message : String) : Option Request := (Json.parse? .strict message).bind ofJson?

/-- Reads a request, or refuses the message. -/
def parse (message : String) : Except Failure Request :=
  match parse? message with
  | some r => .ok r
  | none => .error (.protocol "message not understood")

end Request

end ToolchainHost
