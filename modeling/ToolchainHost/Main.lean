import ToolchainHost.Listing
import ToolchainHost.Site

/-!
# Command line

* `list ARCHIVE` prints what an archive holds.
* `site URL [ROOT]` prints how the development site answers a URL for the files below a directory.

Files are read and text is printed here and nowhere else in the library.
-/

namespace ToolchainHost.CommandLine

/-- The bytes of a file, unless it cannot be read. -/
def fileBytes? (path : String) : IO (Option (List UInt8)) := do
  let .ok bytes ← (IO.FS.readBinFile path).toBaseIO | return none
  return some bytes.data.toList

/-- Lists an archive. -/
def list (path : String) : IO Outcome := do
  match ← fileBytes? path with
  | some data => return Listing.ofArchive data
  | none => return .failure

/-- Answers one request for the files below a directory. -/
def site (url root : String) : IO Outcome := do
  let answer ← Site.respond fileBytes? root url
  let lines := toString answer.status :: answer.headers.map fun (name, value) => name ++ ": " ++ value
  return .success ("\n".intercalate lines ++ "\n\n" ++ Utf8.decode answer.body)

/-- Runs a command line. -/
def run : List String → IO Outcome
  | ["list", archive] => list archive
  | ["site", url] => site url "."
  | ["site", url, root] => site url root
  | _ => return .usage

end ToolchainHost.CommandLine

/-- Runs a command line and ends with its exit code. -/
def main (arguments : List String) : IO UInt32 := do
  let outcome ← ToolchainHost.CommandLine.run arguments
  if outcome = .usage then IO.eprintln "usage: list ARCHIVE | site URL [ROOT]"
  IO.print outcome.output
  return UInt32.ofNat outcome.code
