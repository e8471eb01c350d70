import ToolchainHost.Archive.Loader
import ToolchainHost.Outcome

/-!
# Listing an archive

`Listing.ofArchive` loads an archive as booting does and prints one line for every node and a line of totals.
-/

namespace ToolchainHost.Listing

/-- A text at the right end of ten columns. -/
def column (s : String) : String := String.ofList (List.replicate (10 - s.length) ' ') ++ s

/-- What was printed so far, and the files. -/
abbrev Printing := String × FileSystem

/-- Prints the line of a node. -/
def printNode (path : String) (kind : NodeKind) : Op Printing Unit := do
  match kind with
  | .directory => modify fun (out, fs) => (out ++ "d " ++ column "-" ++ "  " ++ path ++ "/\n", fs)
  | .file =>
    let contents ← Op.onPart Prod.snd (fun fs p => (p.1, fs)) (FileSystem.contents path)
    modify fun (out, fs) => (out ++ "f " ++ column (toString contents.length) ++ "  " ++ path ++ "\n", fs)

/-- The line of totals. -/
def totals (summary : Archive.Summary) (offset length nodes : Nat) : String :=
  s!"{summary.files} files, {summary.directories} directories, {summary.bytes} bytes " ++
    s!"({offset} of {length} archive bytes read, {nodes} nodes)\n"

/-- Lists what an archive holds. -/
def ofArchive (data : List UInt8) : Outcome :=
  match Archive.load data ⟨0, .empty⟩ with
  | .error _ _ => .failure
  | .ok summary loading =>
    match loading.files.entries.forM (fun n => printNode n.1 n.2) ("", loading.files) with
    | .error _ (out, _) => ⟨1, out⟩
    | .ok _ (out, files) =>
      .success (out ++ totals summary loading.offset data.length files.store.nodeCount)

end ToolchainHost.Listing
