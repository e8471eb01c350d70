import ToolchainHost.Host.Basic

/-!
# Standard input and output

* `Host.write`: gathers the segments of a guest into one payload, which becomes one event.
* `Host.read`: scatters pending input over the segments of a guest. If none is pending, it asks the page for a
  payload and waits.
-/

namespace ToolchainHost.Host

/-- The segments of the list at `list`. -/
def segmentsAt (memory : Memory) (list count : Nat) : Except Failure (List Segment) :=
  return Segment.decodeAll (← memory.read list (count * Segment.width))

/-- The bytes of segments, one after the other. -/
def gather (memory : Memory) : List Segment → Except Failure (List UInt8)
  | [] => .ok []
  | s :: rest =>
    match memory.read s.address s.length with
    | .error e => .error e
    | .ok data =>
      match gather memory rest with
      | .ok more => .ok (data ++ more)
      | .error e => .error e

/-- The terminal text of a payload. -/
def textOf (rewriter : Option Rewriter) (payload : List UInt8) : String :=
  match rewriter with
  | some r => r.apply (Utf8.decode payload)
  | none => Utf8.decode payload

/-- Writes the segments of a guest to the terminal and stores the number of bytes at `out`. -/
def write (descriptor : Int) (list count out : Nat) : Op Host Nat := do
  if !Interface.isStandard descriptor then throw (.badDescriptor "host_write" descriptor)
  let memory ← guestMemory
  let payload ← gather memory (← segmentsAt memory list count)
  modify fun h => h.emit (textOf h.rewriter payload)
  let total := payload.length % Word.count
  writeGuest out (Bytes.ofNat 4 total)
  return total

/-- Asks the page for input and waits for it, if there is a page to ask. -/
def receive : Op Host Unit := do
  match (← get).stdin with
  | none => return
  | some stdin =>
    let (payload, stdin) := stdin.wait
    modify fun h => { h.post .readStdinRequest with stdin := some stdin }
    let payload ← payload
    modify fun h => { h with pending := h.pending ++ payload }

/-- Moves pending input into segments until one of the two runs out; gives the number of bytes moved. -/
def scatter : List Segment → (total : Nat) → Op Host Nat
  | [], total => return total
  | s :: rest, total => do
    let h ← get
    if h.pending = [] then return total
    let chunk := h.pending.take s.length
    set { h with pending := h.pending.drop s.length }
    writeGuest s.address chunk
    scatter rest (← Word.add total chunk.length)

/-- Reads pending input into the segments of a guest and stores the number of bytes at `out`. -/
def read (descriptor : Int) (list count out : Nat) : Op Host Nat := do
  if descriptor ≠ 0 then throw (.badDescriptor "host_read" descriptor)
  let memory ← guestMemory
  let segments ← segmentsAt memory list count
  if (← get).pending = [] then receive
  let total ← scatter segments 0
  writeGuest out (Bytes.ofNat 4 total)
  return total

end ToolchainHost.Host
