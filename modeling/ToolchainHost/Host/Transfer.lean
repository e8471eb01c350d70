import ToolchainHost.Host.Basic

/-!
# Between guest and store

The store and the guest that runs have disjoint memories. All bytes that pass between them are copied here.

* `Transfer.copyIn`, `Transfer.copyOut`: the two directions on given memories.
* `Host.copyIn`, `Host.copyOut`: the same on the host's.
-/

namespace ToolchainHost

namespace Transfer

/-- Copies `size` bytes of the guest at `source` to `target` in the store; gives the store's new memory. -/
def copyIn (guest store : Option Memory) (target source size : Nat) : Except Failure Memory := do
  let data ← (← Host.attachedGuest guest).read source size
  (← Host.attachedStore store).write target data

/-- Copies `size` bytes of the store at `source` to `target` in the guest; gives the guest's new memory. -/
def copyOut (guest store : Option Memory) (target source size : Nat) : Except Failure Memory := do
  let data ← (← Host.attachedStore store).read source size
  (← Host.attachedGuest guest).write target data

/-- What the store has to say; the text goes to no guest and no page. -/
def log (store : Option Memory) (address count : Nat) : Except Failure String := do
  (← Host.attachedStore store).readText address (some count)

end Transfer

namespace Host

/-- Copies bytes of the guest that runs into the store. -/
def copyIn (target source size : Nat) : Op Host Unit := do
  let h ← get
  let memory ← Transfer.copyIn h.guest (some h.files.store.memory) target source size
  onStore (modify fun s => { s with memory })

/-- Copies bytes of the store to the guest that runs. -/
def copyOut (target source size : Nat) : Op Host Unit := do
  let h ← get
  let memory ← Transfer.copyOut h.guest (some h.files.store.memory) target source size
  modify fun h => { h with guest := some memory }

end Host

end ToolchainHost
