import ToolchainHost.Files.Store.Nodes

/-!
# Open files

A descriptor is the number of a slot, shifted past the three standard ones.

* `openTarget`, `openNode`: what a path is opened as, and the descriptor for it.
* `openFile?`, `setPosition`: the file behind a descriptor and the position in it.
* `close`: gives the descriptor back.
-/

namespace ToolchainHost.FileStore

/-- The first descriptor of opened files. -/
def firstDescriptor : Nat := 3

/-- The slot of a descriptor; the standard and the negative ones have none. -/
def slotOf? (descriptor : Int) : Option Nat :=
  if firstDescriptor ≤ descriptor then some (descriptor - firstDescriptor).toNat else none

/-- The open file of a descriptor. -/
def openFile? (s : FileStore) (descriptor : Int) : Option OpenFile :=
  (slotOf? descriptor).bind s.opened.get?

/-- Moves the position of a descriptor. -/
def setPosition (descriptor : Int) (position : Nat) : Op FileStore Unit :=
  match slotOf? descriptor with
  | some slot => modify fun s => { s with opened := s.opened.modify slot fun f => { f with position } }
  | none => pure ()

/-- Opens the file with an index and gives its descriptor. -/
def openNode (index : Nat) : Op FileStore Nat := do
  let s ← get
  set { s with opened := s.opened.insert ⟨index, 0⟩ }
  return s.opened.nextSlot + firstDescriptor

/-- Closes a descriptor. -/
def close (descriptor : Int) : Op FileStore Interface.Errno := do
  let s ← get
  match slotOf? descriptor with
  | some slot =>
    if (s.opened.get? slot).isSome then
      set { s with opened := s.opened.erase slot }
      return .success
    else return .badDescriptor
  | none => return .badDescriptor

/-- What opening the path finds: an existing file, emptied if the flags say so, or a new one; or why there is
nothing to open. -/
def openTarget (path : String) (flags : Nat) : Op FileStore (Except Interface.Errno Nat) := do
  let s ← get
  match s.indexOf? path with
  | some index =>
    let n ← nodeAt index
    if n.kind = .directory then return .error .invalid
    if Interface.hasFlag flags Interface.truncateFlag then setNode index { n with size := 0 }
    return .ok index
  | none =>
    if Interface.hasFlag flags Interface.createFlag then
      let number ← insertNode ⟨path, .file, heapBase, 0, 0⟩
      return .ok (number - 1)
    else return .error .noEntry

end ToolchainHost.FileStore
