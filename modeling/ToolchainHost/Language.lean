import ToolchainHost.Path

/-!
# Source languages

A source's language is decided by the extension of its base name.
-/

namespace ToolchainHost

/-- The languages of sources. -/
inductive Language where
  | c
  | cxx
  | python
  deriving DecidableEq, Repr, Inhabited

namespace Language

/-- The name of a language. -/
def name : Language → String
  | c => "c"
  | cxx => "c++"
  | python => "python"

/-- The language of an extension. A capital `C` means C++, a small one C. -/
def ofExtension? : String → Option Language
  | "c" => some c
  | "cc" | "cpp" | "cxx" | "C" => some cxx
  | "py" => some python
  | _ => none

/-- The language of a file, by its extension. -/
def ofPath? (path : String) : Option Language := (Path.extension? path).bind ofExtension?

/-- What the compiler front end calls the language; interpreted languages have no such name. -/
def frontEndName? : Language → Option String
  | c => some "c"
  | cxx => some "c++"
  | python => none

end Language

end ToolchainHost
