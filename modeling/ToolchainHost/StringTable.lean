import ToolchainHost.Bytes
import ToolchainHost.Text.Utf8

/-!
# String tables

A guest gets its arguments and its environment in two areas: the strings one after the other, each ended by a
NUL, and a list of their addresses.
-/

namespace ToolchainHost

/-- The strings of a table in order. -/
structure StringTable where
  entries : List String
  deriving DecidableEq, Inhabited

namespace StringTable

/-- The number of strings. -/
def count (t : StringTable) : Nat := t.entries.length

/-- The bytes of the strings, each ended by a NUL. -/
def strings (t : StringTable) : List UInt8 := t.entries.flatMap fun s => Utf8.encode s ++ [0]

/-- The number of bytes of the strings. -/
def size (t : StringTable) : Nat := t.strings.length

/-- Where each of `entries` starts if the first starts at `offset`. -/
def offsetsFrom (offset : Nat) : List String → List Nat
  | [] => []
  | s :: rest => offset :: offsetsFrom (offset + (Utf8.encode s).length + 1) rest

/-- Where each string starts, counted from the first. -/
def offsets (t : StringTable) : List Nat := offsetsFrom 0 t.entries

/-- The packed list of the addresses of strings that lie from `base` on. An offset is cut to a word before it is
added. -/
def pointers (t : StringTable) (base : Nat) : Except Failure (List UInt8) :=
  return (← t.offsets.mapM fun offset => Word.add base (offset % Word.count)).flatMap (Bytes.ofNat 4)

end StringTable

end ToolchainHost
