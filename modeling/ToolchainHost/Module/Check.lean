import ToolchainHost.Interface
import ToolchainHost.Module.Leb128
import ToolchainHost.Text.Utf8

/-!
# The check of a linked program

A module is a preamble and sections, each an identifier, a length and a body. The export sections must list the
memory and the start function. The check is made before the engine sees the bytes.

* `exports bytes`: the exports that the sections list.
* `check bytes`: accepts a module that exports what every guest must.
-/

namespace ToolchainHost.Module

/-- The four bytes every module starts with. -/
def magic : List UInt8 := [0x00, 0x61, 0x73, 0x6D]

/-- The version behind the magic bytes. -/
def version : List UInt8 := [0x01, 0x00, 0x00, 0x00]

/-- The identifier of export sections. -/
def exportSection : UInt8 := 7

/-- An entry of an export section. -/
structure Export where
  name : List UInt8
  kind : UInt8
  deriving DecidableEq, Inhabited

/-- The export that holds the memory. -/
def memoryEntry : Export := ⟨Utf8.encode Interface.memoryExport, 2⟩

/-- The export of the start function. -/
def startEntry : Export := ⟨Utf8.encode Interface.startExport, 0⟩

/-- Reads one export: its name, its kind and its index. -/
def readExport (bytes : List UInt8) : Except Failure (Export × List UInt8) := do
  let (name, rest) ← readSized "export name" bytes
  let (kind, rest) ← readByte rest
  let (_, rest) ← readWord rest
  return (⟨name, kind⟩, rest)

/-- Reads `count` exports; bytes behind them are allowed. -/
def readExports : (count : Nat) → List UInt8 → Except Failure (List Export)
  | 0, _ => .ok []
  | count + 1, bytes =>
    match readExport bytes with
    | .ok (entry, rest) =>
      match readExports count rest with
      | .ok entries => .ok (entry :: entries)
      | .error e => .error e
    | .error e => .error e

/-- The exports that one section lists. Only the body of an export section is read, and it may be empty. -/
def sectionExports (identifier : UInt8) (body : List UInt8) : Except Failure (List Export) :=
  if identifier ≠ exportSection ∨ body = [] then .ok []
  else
    match readWord body with
    | .ok (count, rest) => readExports count rest
    | .error e => .error e

/-- The exports that the sections list. -/
def exports : (sections : List UInt8) → Except Failure (List Export)
  | [] => .ok []
  | identifier :: bytes =>
    match _h : readSized "section" bytes with
    | .error e => .error e
    | .ok (body, rest) =>
      match sectionExports identifier body with
      | .error e => .error e
      | .ok entries =>
        match exports rest with
        | .ok more => .ok (entries ++ more)
        | .error e => .error e
  termination_by sections => sections.length
  decreasing_by
    have := length_lt_of_readSized _h
    simp; omega

/-- Accepts the bytes of a module that exports its memory and its start function. -/
def check (bytes : List UInt8) : Except Failure Unit := do
  if bytes.length < (magic ++ version).length then invalid "module too small"
  if bytes.take 4 ≠ magic then invalid "invalid magic number"
  if (bytes.drop 4).take 4 ≠ version then invalid "unsupported WASM version"
  let entries ← exports (bytes.drop 8)
  if memoryEntry ∉ entries then throw (.missingExport Interface.memoryExport)
  if startEntry ∉ entries then throw (.missingExport Interface.startExport)

end ToolchainHost.Module
