import ToolchainHost.Bytes

/-!
# Scatter and gather lists

A guest hands over the places of data as a packed list of segments, each an address and a length of four bytes.

* `Segment.decodeAll`: the segments of a packed list; a last piece shorter than a segment is left out.
* `Segment.encodeAll`: the packed list.
-/

namespace ToolchainHost

/-- A run of guest memory. -/
structure Segment where
  address : Nat
  length : Nat
  deriving DecidableEq, Repr, Inhabited

namespace Segment

/-- The number of bytes a segment takes in a packed list. -/
def width : Nat := 8

/-- The segments of a packed list. -/
def decodeAll : List UInt8 → List Segment
  | a :: b :: c :: d :: e :: f :: g :: h :: rest =>
    ⟨Bytes.toNat [a, b, c, d], Bytes.toNat [e, f, g, h]⟩ :: decodeAll rest
  | _ => []

/-- The packed list of segments. -/
def encodeAll (segments : List Segment) : List UInt8 :=
  segments.flatMap fun s => Bytes.ofNat 4 s.address ++ Bytes.ofNat 4 s.length

/-- The number of bytes that segments cover together. -/
def total : List Segment → Nat
  | [] => 0
  | s :: rest => s.length + total rest

end Segment

end ToolchainHost
