import ToolchainHost.Bytes
import ToolchainHost.Text.Utf8

/-!
# Linear memory

A flat run of bytes that grows by whole pages. An access succeeds iff it ends at or before the end of memory;
a refused write leaves the memory as it was.

* `Memory.byte`, `Memory.span`, `Memory.put`: one byte, a run of bytes, and the memory after a write.
* `Memory.read`, `Memory.write`: the same for those who have to stay within memory.
* `Memory.readText`: a text, which ends at its first NUL.
* `Memory.grow`: more pages of zeros.
-/

namespace ToolchainHost

/-- The unit in which memory grows. -/
def Memory.pageSize : Nat := 65536

/-- The bytes of a page. -/
abbrev Memory.Page := Vector UInt8 Memory.pageSize

/-- The bytes of a guest or of the file store. Added pages are kept apart: those not written yet share one page of
zeros. -/
structure Memory where
  /-- The bytes at first. -/
  bytes : Array UInt8
  /-- The pages added behind them. -/
  added : Array Memory.Page
  deriving DecidableEq, Inhabited

namespace Memory

namespace Page

/-- A page of zeros. -/
def blank : Page := Vector.replicate pageSize 0

/-- The byte at an offset into pages, zero behind the last one. -/
def byte (pages : Array Page) (offset : Nat) : UInt8 :=
  match pages[offset / pageSize]? with
  | some p => p.toArray.getD (offset % pageSize) 0
  | none => 0

/-- The pages with another byte at an offset. Behind the last one they stay the same. -/
def setByte (pages : Array Page) (offset : Nat) (b : UInt8) : Array Page :=
  pages.modify (offset / pageSize) fun p => p.setIfInBounds (offset % pageSize) b

end Page

/-- Memory of `pages` pages of zeros. -/
def ofPages (pages : Nat) : Memory := ⟨Array.replicate (pages * pageSize) 0, #[]⟩

/-- The number of bytes. -/
def size (m : Memory) : Nat := m.bytes.size + pageSize * m.added.size

/-- The number of whole pages. -/
def pages (m : Memory) : Nat := m.size / pageSize

/-- Memory with `delta` more pages of zeros. -/
def grow (m : Memory) (delta : Nat) : Memory := { m with added := m.added ++ Array.replicate delta Page.blank }

/-- The byte at an address, zero behind the end. -/
def byte (m : Memory) (i : Nat) : UInt8 :=
  if i < m.bytes.size then m.bytes.getD i 0 else Page.byte m.added (i - m.bytes.size)

/-- The memory with another byte at an address. Behind the end it stays the same. -/
def setByte (m : Memory) (i : Nat) (b : UInt8) : Memory :=
  if i < m.bytes.size then { m with bytes := m.bytes.setIfInBounds i b }
  else { m with added := Page.setByte m.added (i - m.bytes.size) b }

/-- The bytes from an address on. -/
def span (m : Memory) (address count : Nat) : List UInt8 := (List.range count).map fun k => m.byte (address + k)

/-- The memory with `data` at `address`. -/
def put (m : Memory) (address : Nat) : (data : List UInt8) → Memory
  | [] => m
  | b :: bs => put (m.setByte address b) (address + 1) bs

/-- Whether `count` bytes at `address` lie within memory. -/
def InRange (m : Memory) (address count : Nat) : Prop := address + count ≤ m.size

instance (m : Memory) (address count : Nat) : Decidable (m.InRange address count) :=
  inferInstanceAs (Decidable (_ ≤ _))

/-- The refusal of an access to `count` bytes at `address`. -/
def refusal (m : Memory) (address count : Nat) : Failure := .outOfBounds address count m.size

/-- The `count` bytes at `address`. -/
def read (m : Memory) (address count : Nat) : Except Failure (List UInt8) :=
  if m.InRange address count then .ok (m.span address count) else .error (m.refusal address count)

/-- Puts `data` at `address`. -/
def write (m : Memory) (address : Nat) (data : List UInt8) : Except Failure Memory :=
  if m.InRange address data.length then .ok (m.put address data) else .error (m.refusal address data.length)

/-- The word at `address`. -/
def readWord (m : Memory) (address : Nat) : Except Failure Nat :=
  return Bytes.toNat (← m.read address 4)

/-- The text of the bytes before the first NUL. -/
def textOf (bytes : List UInt8) : String := Utf8.decode (bytes.takeWhile (· != 0))

/-- The text at `address`, which ends at a NUL or after `count` bytes; without a count, at the end of memory. -/
def readText (m : Memory) (address : Nat) (count : Option Nat) : Except Failure String :=
  match count with
  | some n => return textOf (← m.read address n)
  | none =>
    if address ≤ m.size then return textOf (← m.read address (m.size - address))
    else .error (m.refusal address 1)

/-! ### Sizes -/

theorem size_ofPages (n : Nat) : (ofPages n).size = n * pageSize := by simp [ofPages, size]

theorem size_grow (m : Memory) (n : Nat) : (m.grow n).size = m.size + n * pageSize := by
  simp only [grow, size, Array.size_append, Array.size_replicate, Nat.mul_add, Nat.add_assoc, Nat.mul_comm n]

theorem size_setByte (m : Memory) (i : Nat) (b : UInt8) : (m.setByte i b).size = m.size := by
  unfold setByte
  split <;> simp [size, Page.setByte]

@[simp] theorem size_put (m : Memory) (address : Nat) (data : List UInt8) : (m.put address data).size = m.size := by
  induction data generalizing m address with
  | nil => rfl
  | cons b bs ih => rw [put, ih, size_setByte]

end Memory

end ToolchainHost
