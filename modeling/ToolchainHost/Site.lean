import ToolchainHost.Outcome
import ToolchainHost.Text.Replace
import ToolchainHost.Text.Utf8
import ToolchainHost.Tree

/-!
# The development site

Answers to requests for files below one directory.

* `Site.resolve`: the path that a URL path stands for. One that names the directory itself or climbs out of it has
  none.
* `Site.contentType`: the type of a file, by its extension; tool modules have none.
* `Site.serve`: the answer to a URL path.
* `Site.respond`: the answer to a URL.
-/

namespace ToolchainHost.Site

/-! ### Paths -/

/-- The path of a URL: what comes before the query. -/
def pathOf (url : String) : String := String.ofList (url.toList.takeWhile (· != '?'))

/-- The URL path without leading slashes; an empty one means the start page. -/
def relative (urlPath : String) : String :=
  let rest := String.ofList (urlPath.toList.dropWhile (· == '/'))
  if rest = "" then "index.html" else rest

/-- The path below `root` that a URL path stands for, unless it says something other than names. -/
def resolve (root urlPath : String) : Option String :=
  if (components (relative urlPath)).all (·.name?.isSome) then some (join root (relative urlPath)) else none

/-! ### Types -/

/-- The extension of a file name: what follows its last dot, unless that dot is in front. -/
def extension? (name : String) : Option String :=
  match Text.splitLast '.' name.toList with
  | some (stem, extension) => if stem = [] then none else some (String.ofList extension)
  | none => none

/-- The file name of a path: the name it ends with. -/
def fileName? (path : String) : Option String := (components path).getLast?.bind Component.name?

/-- The type of a file with the extension. -/
def contentType : Option String → String
  | none => "application/wasm"
  | some extension =>
    match extension with
    | "html" => "text/html; charset=utf-8"
    | "js" => "application/javascript"
    | "wasm" => "application/wasm"
    | "css" => "text/css"
    | "json" => "application/json"
    | "tar" => "application/x-tar"
    | "svg" => "image/svg+xml"
    | "ico" => "image/x-icon"
    | _ => "application/octet-stream"

/-- The type of the file with the path. -/
def typeOf (path : String) : String := contentType ((fileName? path).bind extension?)

/-! ### Answers -/

/-- The headers that isolate the page from others, as shared memory demands. -/
def isolationHeaders : List (String × String) :=
  [("Cross-Origin-Opener-Policy", "same-origin"), ("Cross-Origin-Embedder-Policy", "require-corp")]

/-- An answer. -/
structure Answer where
  status : Nat
  headers : List (String × String)
  body : List UInt8
  deriving DecidableEq, Repr, Inhabited

/-- The answer with a file's contents. -/
def Answer.found (type : String) (contents : List UInt8) : Answer :=
  ⟨200, ("Content-Type", type) :: isolationHeaders, contents⟩

/-- The answer if there is no such file. -/
def Answer.notFound : Answer :=
  ⟨404, ("Content-Type", "text/plain") :: isolationHeaders, Utf8.encode "404 Not Found"⟩

variable {m : Type → Type} [Monad m] (read : String → m (Option (List UInt8)))

/-- The answer with the file that has the path, if it can be read. -/
def serveFile (path : String) : m Answer := do
  match ← read path with
  | some contents => return .found (typeOf path) contents
  | none => return .notFound

/-- The answer to a URL path for the files below `root`. -/
def serve (root urlPath : String) : m Answer :=
  match resolve root urlPath with
  | some path => serveFile read path
  | none => return .notFound

/-- The answer to a URL for the files below `root`. -/
def respond (root url : String) : m Answer := serve read root (pathOf url)

/-- What comes of starting the site on a port that is taken. -/
def portTaken : Outcome := .failure

end ToolchainHost.Site
