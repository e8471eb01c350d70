import ToolchainHost.Text.Blank
import ToolchainHost.Text.Replace

/-!
# Paths

* `Path.normalize`: the spelling under which a node is stored: no leading `./`, no trailing slash.
* `Path.baseName`: the last component.
* `Path.withExtension`: the path of what is made from a source.
-/

namespace ToolchainHost.Path

/-- Drops every leading `./`. -/
def dropDotSlashes : List Char → List Char
  | '.' :: '/' :: cs => dropDotSlashes cs
  | cs => cs

/-- The spelling under which a node is stored: every leading `./` and the trailing slashes are dropped, and a
path of slashes alone is the root. -/
def normalizeChars (path : List Char) : List Char :=
  let rest := dropDotSlashes path
  let name := Text.dropEndWhile (· == '/') rest
  if name = [] ∧ rest ≠ [] then ['/'] else name

/-- The spelling under which a node is stored. -/
def normalize (path : String) : String := String.ofList (normalizeChars path.toList)

/-- What follows the last slash. -/
def baseNameChars (path : List Char) : List Char := (path.reverse.takeWhile (· != '/')).reverse

/-- What follows the last slash. -/
def baseName (path : String) : String := String.ofList (baseNameChars path.toList)

/-- What follows the last dot of the base name, if it has one. -/
def extension? (path : String) : Option String :=
  (Text.splitLast '.' (baseNameChars path.toList)).map fun parts => String.ofList parts.2

/-- The path with what follows its last dot replaced. A path without a dot, or with nothing before its only
dot, gets the extension appended. -/
def withExtension (path extension : String) : String :=
  match Text.splitLast '.' path.toList with
  | some (stem, _) => if stem = [] then path ++ "." ++ extension else String.ofList stem ++ "." ++ extension
  | none => path ++ "." ++ extension

/-- The path of the object made from a source. -/
def object (source : String) : String := withExtension source "o"

/-- The path of the program made from a source. -/
def binary (source : String) : String := withExtension source "wasm"

end ToolchainHost.Path
