import ToolchainHost.Failure

/-!
# The mailbox of standard input

One payload is in flight at a time. A delivery is refused while the last one waits, and taking a payload
clears the region it lay in.

* `Mailbox.deliver`, `Mailbox.receive`: the two sides of the handshake.
* `Stdin`: a mailbox together with the deliveries that are still to come. `Stdin.wait` is a read that blocks.
-/

namespace ToolchainHost

/-- A region for one payload. -/
structure Mailbox where
  /-- A payload waits to be taken. -/
  signalled : Bool
  /-- The length of the waiting payload. -/
  length : Nat
  region : List UInt8
  deriving DecidableEq, Inhabited

namespace Mailbox

/-- An empty mailbox for payloads of at most `capacity` bytes. -/
def ofCapacity (capacity : Nat) : Mailbox := ⟨false, 0, List.replicate capacity 0⟩

/-- The length of the longest payload. -/
def capacity (b : Mailbox) : Nat := b.region.length

/-- Puts a payload into an empty mailbox; a refused delivery changes nothing. -/
def deliver (b : Mailbox) (payload : List UInt8) : Except Failure Mailbox :=
  if b.signalled then .error (.mailbox "previous input has not been consumed")
  else if b.capacity < payload.length then
    .error (.mailbox s!"input of {payload.length} bytes exceeds the {b.capacity} byte mailbox")
  else .ok ⟨true, payload.length, payload ++ b.region.drop payload.length⟩

/-- Takes the waiting payload, if any, and clears its place. -/
def receive (b : Mailbox) : Option (List UInt8 × Mailbox) :=
  if b.signalled then
    some (b.region.take b.length, ⟨false, 0, List.replicate b.length 0 ++ b.region.drop b.length⟩)
  else none

end Mailbox

/-- A mailbox and the payloads that will be delivered to those who wait for one. -/
structure Stdin where
  mailbox : Mailbox
  arrivals : List (List UInt8) := []
  deriving DecidableEq, Inhabited

namespace Stdin

/-- Blocks for a payload. If none waits, the next arrival is delivered first; a wait that no arrival ends fails. -/
def wait (s : Stdin) : Except Failure (List UInt8) × Stdin :=
  match s.mailbox.receive with
  | some (payload, mailbox) => (.ok payload, { s with mailbox })
  | none =>
    match s.arrivals with
    | [] => (.error (.mailbox "queue is empty"), s)
    | next :: arrivals =>
      match s.mailbox.deliver next with
      | .error e => (.error e, { s with arrivals })
      | .ok mailbox =>
        match mailbox.receive with
        | some (payload, mailbox) => (.ok payload, { mailbox, arrivals })
        | none => (.ok [], { mailbox, arrivals })

end Stdin

end ToolchainHost
