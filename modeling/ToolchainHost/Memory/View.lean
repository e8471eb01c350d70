import ToolchainHost.Memory.Basic

/-!
# Views of a growing memory

Whoever looks at a memory remembers its length. Growth, or a replacement of the store by one of the same
size, makes what is remembered stale. So every access first brings the view up to date, and only then is it
checked against the length that the view remembers.

* `LinearMemory`: what views need of the store behind them.
* `Views`: a family of views of one store. Clones of a view share what they remember.
* `View.revalidate`: brings a view up to date and says whether it was stale.
* `View.readBytes`, `View.writeBytes` and the rest: the accesses.
* `Backing`: a store in plain memory, with and without replacement.
-/

namespace ToolchainHost

/-- What views need of a store with states `β`. The ranges it is given have been checked. -/
structure LinearMemory (β : Type) where
  /-- The number of bytes at present. -/
  size : β → Nat
  /-- Whether the store was replaced behind its views by one of the same size. -/
  isDetached : β → Bool
  /-- Derives the access to the bytes anew. -/
  rebind : β → β
  /-- The bytes from an address on. -/
  read : β → (address count : Nat) → List UInt8
  /-- The store with bytes from an address on. -/
  write : β → (address : Nat) → (data : List UInt8) → β

/-- One view: the store it looks at, and the cell in which it remembers a length. -/
structure View (β : Type) where
  store : LinearMemory β
  cell : Nat

/-- A family of views of one store. -/
structure Views (β : Type) where
  /-- The state of the store. -/
  backing : β
  /-- The remembered lengths. -/
  lengths : List Nat := []
  views : List (View β) := []

namespace Views

variable {β : Type}

/-- The view with index `i`. -/
def viewAt (i : Nat) : Op (Views β) (View β) := do
  match (← get).views[i]? with
  | some v => return v
  | none => throw .crash

/-- The length that a view remembers. -/
def remembered (vs : Views β) (v : View β) : Nat := vs.lengths.getD v.cell 0

/-- Adds a view that remembers the present length in a cell of its own; also gives its index. -/
def add (vs : Views β) (store : LinearMemory β) : Nat × Views β :=
  (vs.views.length,
    { vs with
      lengths := vs.lengths ++ [store.size vs.backing]
      views := vs.views ++ [⟨store, vs.lengths.length⟩] })

/-- Adds a view that shares the cell of another one; also gives its index. -/
def clone (vs : Views β) (v : View β) : Nat × Views β := (vs.views.length, { vs with views := vs.views ++ [v] })

/-- Whether a view no longer tracks its store. -/
def IsStale (vs : Views β) (v : View β) : Prop :=
  vs.remembered v ≠ v.store.size vs.backing ∨ v.store.isDetached vs.backing = true

instance (vs : Views β) (v : View β) : Decidable (vs.IsStale v) := inferInstanceAs (Decidable (_ ∨ _))

/-- The family with a view brought up to date. -/
def renewed (vs : Views β) (v : View β) : Views β :=
  if vs.IsStale v then
    { vs with
      backing := v.store.rebind vs.backing
      lengths := vs.lengths.set v.cell (v.store.size vs.backing) }
  else vs

/-- Whether a store must not be touched for `count` bytes at `address`. -/
def Forbids (vs : Views β) (v : View β) (address count : Nat) : Prop :=
  v.store.isDetached vs.backing = true ∨ v.store.size vs.backing < address + count

instance (vs : Views β) (v : View β) (address count : Nat) : Decidable (vs.Forbids v address count) :=
  inferInstanceAs (Decidable (_ ∨ _))

end Views

namespace View

variable {β : Type} (v : View β)

/-- Brings a view up to date; says whether it was stale. -/
def revalidate : Op (Views β) Bool := do
  let vs ← get
  set (vs.renewed v)
  return decide (vs.IsStale v)

/-- The number of bytes. -/
def size : Op (Views β) Nat := do
  let _ ← v.revalidate
  return (← get).remembered v

/-- Fails unless `count` bytes at `address` lie within the length that the view remembers. -/
def check (address count : Nat) : Op (Views β) Unit := do
  let size ← v.size
  if size < address + count then throw (.outOfBounds address count size)

/-- Reads bytes of the store. A store that is detached or too short breaks the host off. -/
def load (address count : Nat) : Op (Views β) (List UInt8) := do
  let vs ← get
  if vs.Forbids v address count then throw .crash
  return v.store.read vs.backing address count

/-- Writes bytes to the store. A store that is detached or too short breaks the host off. -/
def save (address : Nat) (data : List UInt8) : Op (Views β) Unit := do
  let vs ← get
  if vs.Forbids v address data.length then throw .crash
  set { vs with backing := v.store.write vs.backing address data }

/-- The `count` bytes at `address`. -/
def readBytes (address count : Nat) : Op (Views β) (List UInt8) := do
  v.check address count
  v.load address count

/-- The byte at `address`. -/
def readByte (address : Nat) : Op (Views β) UInt8 := return (← v.readBytes address 1).headD 0

/-- The word at `address`. -/
def readWord (address : Nat) : Op (Views β) Nat := return Bytes.toNat (← v.readBytes address 4)

/-- The text at `address`, which ends at a NUL or after `count` bytes; without a count, at the end of memory. -/
def readText (address : Nat) : (count : Option Nat) → Op (Views β) String
  | some count => return Memory.textOf (← v.readBytes address count)
  | none => do
    let size ← v.size
    if size < address then throw (.outOfBounds address 1 size)
    return Memory.textOf (← v.readBytes address (size - address))

/-- Puts `data` at `address`; gives the number of bytes. -/
def writeBytes (address : Nat) (data : List UInt8) : Op (Views β) Nat := do
  v.check address data.length
  v.save address data
  return data.length

/-- Stores a number in `width` bytes. -/
def writeNumber (width address value : Nat) : Op (Views β) Unit := do
  let _ ← v.writeBytes address (Bytes.ofNat width value)

/-- Stores a text and a NUL behind it; gives the number of bytes. -/
def writeText (address : Nat) (text : String) : Op (Views β) Nat := do
  let bytes := Utf8.encode text
  v.check address (bytes.length + 1)
  v.save address bytes
  v.save (address + bytes.length) [0]
  return bytes.length + 1

end View

/-! ### Stores in plain memory -/

/-- A memory that may be replaced behind its views. -/
structure Backing where
  memory : Memory
  /-- The memory was replaced by one of the same size, and views of the old one are void. -/
  detached : Bool := false
  /-- How often a replaceable view was renewed. -/
  renewals : Nat := 0
  deriving Inhabited

namespace Backing

/-- The bytes from an address on. -/
def read (b : Backing) (address count : Nat) : List UInt8 := b.memory.span address count

/-- The memory with bytes from an address on. -/
def write (b : Backing) (address : Nat) (data : List UInt8) : Backing :=
  { b with memory := b.memory.put address data }

/-- The memory as a store that cannot be replaced. -/
def fixed : LinearMemory Backing := ⟨(·.memory.size), fun _ => false, id, read, write⟩

/-- The memory as a store that can be replaced. -/
def replaceable : LinearMemory Backing where
  size b := b.memory.size
  isDetached b := b.detached
  rebind b := { b with detached := false, renewals := b.renewals + 1 }
  read := read
  write := write

/-- Adds pages; gives the page count before. -/
def grow (b : Backing) (pages : Nat) : Nat × Backing := (b.memory.pages, { b with memory := b.memory.grow pages })

/-- Replaces the memory by one of the same size and contents. -/
def detach (b : Backing) : Backing := { b with detached := true }

end Backing

namespace Views

/-- One view of a memory that cannot be replaced. -/
def ofMemory (m : Memory) : Views Backing := (Views.add { backing := { memory := m } } Backing.fixed).2

/-- How a view is shown in diagnostics. -/
def describe {β : Type} (vs : Views β) (v : View β) : String :=
  "MemoryView \x7b bound_len: " ++ toString (vs.remembered v) ++ " \x7d"

end Views

end ToolchainHost
