import ToolchainHost.Archive.Header
import ToolchainHost.Files.System
import ToolchainHost.Text.Hex

/-!
# Loading archives

Entries are added to the file system one by one. A loader remembers how far it has come, so that a longer
archive can be loaded from there on.

* `entryAt`: the entry at an offset and the offset behind it.
* `load`: adds all entries from the loader's offset on.
-/

namespace ToolchainHost.Archive

/-- An entry of an archive. -/
inductive Entry where
  | file (path : String) (contents : List UInt8)
  | directory (path : String)
  deriving DecidableEq, Repr, Inhabited

/-- The types of entries that are accepted. -/
inductive EntryType where
  | file
  | directory
  deriving DecidableEq, Repr

/-- The type of a flag: a NUL or a zero for files, a five for directories. -/
def EntryType.ofFlag? (flag : UInt8) : Option EntryType :=
  if flag = 0x00 ∨ flag = 0x30 then some .file
  else if flag = 0x35 then some .directory
  else none

/-- How a flag is shown: control bytes and bytes beyond ASCII in hexadecimal, quotes and backslashes escaped. -/
def showFlag (flag : UInt8) : String :=
  if flag = 9 then "\\t"
  else if flag = 13 then "\\r"
  else if flag = 10 then "\\n"
  else if flag = 39 then "\\'"
  else if flag = 34 then "\\\""
  else if flag = 92 then "\\\\"
  else if 32 ≤ flag ∧ flag < 127 then String.ofList [Char.ofNat flag.toNat]
  else "\\x" ++ Hex.encode [flag]

/-- The number of blocks that `size` bytes take. -/
def blocksFor (size : Nat) : Nat := (size + (blockSize - 1)) / blockSize

/-- The entry of a header at `offset`, and the offset behind it. -/
def entryOf (data : List UInt8) (offset : Nat) (header : Header) : Except Failure (Entry × Nat) :=
  let start := offset + blockSize
  match EntryType.ofFlag? header.flag with
  | some .file =>
    if start + header.size ≤ data.length then
      .ok (.file header.path (field data start header.size), start + blocksFor header.size * blockSize)
    else
      .error (.archiveFormat offset
        s!"{header.path} declares {header.size} bytes but the archive ends first")
  | some .directory => .ok (.directory header.path, start)
  | none =>
    let flag := showFlag header.flag
    .error (.archiveFormat offset s!"unsupported type flag '{flag}' for {header.path}")

/-- The entry at an offset and the offset behind it, unless the archive ends there. -/
def entryAt (data : List UInt8) (offset : Nat) : Except Failure (Option (Entry × Nat)) :=
  match Header.at? data offset with
  | .error e => .error e
  | .ok none => .ok none
  | .ok (some header) =>
    match entryOf data offset header with
    | .ok entry => .ok (some entry)
    | .error e => .error e

theorem blockAt?_eq_some {data block : List UInt8} {offset : Nat} (h : blockAt? data offset = some block) :
    offset + blockSize ≤ data.length := by
  unfold blockAt? at h
  split at h
  · assumption
  · cases h

theorem length_of_headerAt {data : List UInt8} {offset : Nat} {header : Header}
    (h : Header.at? data offset = .ok (some header)) : offset + blockSize ≤ data.length := by
  unfold Header.at? at h
  split at h
  · cases h
  · rename_i block hb
    exact blockAt?_eq_some hb

theorem le_of_entryOf {data : List UInt8} {offset next : Nat} {header : Header} {entry : Entry}
    (h : entryOf data offset header = .ok (entry, next)) : offset + blockSize ≤ next := by
  unfold entryOf at h
  dsimp only at h
  split at h
  · split at h
    · injection h with h; injection h with _ h; omega
    · cases h
  · injection h with h; injection h with _ h; omega
  · cases h

/-- An entry lies behind its offset, and its header within the archive. -/
theorem le_of_entryAt {data : List UInt8} {offset next : Nat} {entry : Entry}
    (h : entryAt data offset = .ok (some (entry, next))) :
    offset + blockSize ≤ next ∧ offset + blockSize ≤ data.length := by
  unfold entryAt at h
  split at h
  · cases h
  · cases h
  · rename_i header hh
    split at h
    · rename_i e he
      injection h with h; injection h with h; subst h
      exact ⟨le_of_entryOf he, length_of_headerAt hh⟩
    · cases h

/-- Counts of what was added. -/
structure Summary where
  files : Nat := 0
  directories : Nat := 0
  /-- The bytes of all files. -/
  bytes : Nat := 0
  deriving DecidableEq, Repr, Inhabited

/-- The counts with one more entry. -/
def Summary.add (s : Summary) : Entry → Summary
  | .file _ contents => { s with files := s.files + 1, bytes := s.bytes + contents.length }
  | .directory _ => { s with directories := s.directories + 1 }

/-- Adds an entry to the file system. -/
def Entry.add : Entry → Op FileSystem Unit
  | file path contents => FileSystem.addFile path contents
  | directory path => FileSystem.addDirectory path

/-- A loader and the file system it fills. -/
structure Loading where
  /-- How far the loader has come. -/
  offset : Nat
  files : FileSystem
  deriving Inhabited

/-- Adds the entries from `offset` on to what `summary` counts. -/
def loadFrom (data : List UInt8) (offset : Nat) (summary : Summary) : Op Loading Summary :=
  match _h : entryAt data offset with
  | .error e => throw e
  | .ok none => return summary
  | .ok (some (entry, next)) => do
    Op.onPart Loading.files (fun files l => { l with files }) entry.add
    modify fun l => { l with offset := next }
    loadFrom data next (summary.add entry)
  termination_by data.length - offset
  decreasing_by
    have := le_of_entryAt _h
    simp only [blockSize] at this
    omega

/-- Adds the entries of an archive from the loader's offset on. -/
def load (data : List UInt8) : Op Loading Summary := do loadFrom data (← get).offset {}

end ToolchainHost.Archive
