import ToolchainHost.Proofs.Guest.Calls

/-!
# What a run leaves on record

A cell that only some calls write holds, after a run, what was written last, or else what it held before. A guest
has three such cells: its exit code, the failure recorded with its process, and the one recorded with the host.

* `Program.calls`: the calls of a run, in order.
* `Program.register_run`: a cell after a run.
-/

namespace ToolchainHost.Program

variable {α β : Type}

/-- The calls that a guest makes, in order. -/
def calls : Program α → Running → List HostCall
  | done _, _ => []
  | perform call next, r => call :: (next (call.perform r).1).calls (call.perform r).2

/-- The states that the calls of a guest find, and the one in which it ends. -/
def states : Program α → Running → List Running
  | done _, r => [r]
  | perform call next, r => r :: (next (call.perform r).1).states (call.perform r).2

/-- The codes that a guest exits with, in order. -/
def exits (p : Program α) (r : Running) : List Int := (p.calls r).filterMap HostCall.exit?

/-- The failures that a guest records with its process, in order. -/
def faults (p : Program α) (r : Running) : List Failure := (p.calls r).filterMap HostCall.fault?

/-- The failures that a guest records with the host, in order. -/
def hostFaults (p : Program α) (r : Running) : List Failure := (p.calls r).filterMap HostCall.hostFault?

/-- **A cell** that every call either writes or leaves alone holds what was written last. -/
theorem register_run (cell : Running → Option β) (written : HostCall → Option β)
    (hcell : ∀ call r, cell (call.perform r).2 = (written call).or (cell r)) (p : Program α) (r : Running) :
    cell (p.run r).2 = ((p.calls r).filterMap written).getLast?.or (cell r) := by
  induction p generalizing r with
  | done a => rfl
  | perform call next ih =>
    -- the rest of the run finds in the cell what the first call has left there
    have hrest : cell ((perform call next).run r).2 =
        (((next (call.perform r).1).calls (call.perform r).2).filterMap written).getLast?.or
          ((written call).or (cell r)) := by
      rw [← hcell call r]
      exact ih _ _
    rw [hrest, calls, List.filterMap_cons]
    cases written call with
    | none => rfl
    | some b =>
      dsimp only
      rw [List.getLast?_cons]
      cases (List.filterMap written _).getLast? with
      | none => rfl
      | some b' => rfl

theorem exitCode_run (p : Program α) (r : Running) :
    (p.run r).2.process.exitCode = (p.exits r).getLast?.or r.process.exitCode :=
  register_run (·.process.exitCode) _ (fun call r => (call.records_perform r).exitCode) p r

theorem fault_run (p : Program α) (r : Running) :
    (p.run r).2.process.fault = (p.faults r).getLast?.or r.process.fault :=
  register_run (·.process.fault) _ (fun call r => (call.records_perform r).fault) p r

theorem hostFault_run (p : Program α) (r : Running) :
    (p.run r).2.host.fault = (p.hostFaults r).getLast?.or r.host.fault :=
  register_run (·.host.fault) _ (fun call r => (call.records_perform r).hostFault) p r

end ToolchainHost.Program
