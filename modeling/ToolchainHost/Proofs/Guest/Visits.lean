import Mathlib.Logic.Function.Basic
import ToolchainHost.Guest.Instance
import ToolchainHost.Proofs.Guest.Trace

/-!
# Visits to guests

A guest is visited to be started or to have another export called. A visit that its life allows is an entry into
its code; any other is refused.

* `Instance.Entry`: an entry, with what its code does and how it ends.
* `Instance.Entry.ends`: how an entry ends and what it leaves on record, told from what its code did.
* `Instance.Visit.Admits`: the visits that are allowed.
* `Community`: guests that share a host, visited one after another.
* `Engine.ofGuest`: an engine with one guest.
-/

namespace ToolchainHost

variable {σ μ γ ι : Type}

/-- The engine of a guest that is loaded already. -/
def Engine.ofGuest (code : γ) (call : String → γ → Program (Except Trap Unit × γ)) : Engine Unit Unit γ where
  fetch _ := pure []
  compileNamed _ := pure ()
  compileBytes _ := pure ()
  instantiateStore _ := pure ()
  instantiate _ := pure (.ok (Memory.ofPages 1), code)
  call := call

namespace Instance

/-! ### Entries -/

/-- An entry into a guest by the export with a name. -/
structure Entry (γ : Type) where
  name : String
  guest : Instance γ
  host : Host

namespace Entry

variable (engine : Engine σ μ γ) (e : Entry γ)

/-- What the guest does. -/
def program : Program (Except Trap Unit × γ) := engine.call e.name e.guest.code

/-- What the guest finds. -/
def found : Running := ⟨e.guest.process, e.host.bind e.guest.memory⟩

/-- The code returns, or it unwinds with a trap of the engine's. -/
def outcome : Except Trap Unit := ((e.program engine).run e.found).1.1

/-- The codes that the guest exits with in this entry. -/
def exits : List Int := (e.program engine).exits e.found

/-- The failures that are recorded with the process in this entry. -/
def faults : List Failure := (e.program engine).faults e.found

/-- The failures that are recorded with the host in this entry. -/
def hostFaults : List Failure := (e.program engine).hostFaults e.found

/-- How the entry ends. -/
def termination : Termination := (e.guest.enter engine e.name e.host).1

/-- The guest after the entry. -/
def guestAfter : Instance γ := (e.guest.enter engine e.name e.host).2.1

/-- The host after the entry. -/
def hostAfter : Host := (e.guest.enter engine e.name e.host).2.2

/-- The process's failure that is on record when the code has ended. -/
def processFault : Option Failure := (e.faults engine).getLast?.or e.guest.process.fault

/-- The host's failure that is on record when the code has ended. -/
def hostFault : Option Failure := (e.hostFaults engine).getLast?.or e.host.fault

/-- The message of a trap: the text of the process's failure, else that of the host's, else the engine's own. -/
def message (trap : Trap) : String :=
  (((e.processFault engine).or (e.hostFault engine)).map Failure.message).getD trap.message

end Entry

/-- An explanation takes the process's failure off the record, and the host's if there was none. -/
lemma explain_eq (trap : Trap) (p : ProcessState) (h : Host) :
    explain trap p h = ({ trap with message := ((p.fault.or h.fault).map Failure.message).getD trap.message },
      { p with fault := none }, { h with fault := if p.fault.isSome then h.fault else none }) := by
  unfold explain ProcessState.takeFault Host.takeFault
  cases p.fault with
  | some failure => rfl
  | none =>
    cases h.fault with
    | some failure => rfl
    | none => rfl

namespace Entry

variable {engine : Engine σ μ γ} {e : Entry γ}

/-- How an entry ends, and which failures it leaves on record with the process and with the host. -/
inductive Ends (engine : Engine σ μ γ) (e : Entry γ) : Termination → (fault hostFault : Option Failure) → Prop where
  /-- The guest exited; whether its code then returned or unwound does not matter. -/
  | exited {code : Int} (hx : (e.exits engine).getLast? = some code) :
      Ends engine e (.exit code) (e.processFault engine) (e.hostFault engine)
  | returned (hx : e.exits engine = []) (ho : e.outcome engine = .ok ()) :
      Ends engine e (.normal 0) (e.processFault engine) (e.hostFault engine)
  /-- Only a trap takes the failures off the record, and the host's only if the process had none. -/
  | unwound {trap : Trap} (hx : e.exits engine = []) (ho : e.outcome engine = .error trap) :
      Ends engine e (.trap { trap with message := e.message engine trap }) none
        (if (e.processFault engine).isSome then e.hostFault engine else none)

/-- What is concluded from what the code left behind. -/
lemma enter_eq (engine : Engine σ μ γ) (e : Entry γ) :
    (e.termination engine, (e.guestAfter engine).process, e.hostAfter engine) =
      conclude (e.outcome engine) ((e.program engine).run e.found).2.process
        ((e.program engine).run e.found).2.host.unbind := rfl

/-- **An entry** of a guest that has no exit on record ends as its code says. -/
theorem ends (engine : Engine σ μ γ) (hnone : e.guest.process.exitCode = none) :
    e.Ends engine (e.termination engine) (e.guestAfter engine).process.fault (e.hostAfter engine).fault := by
  have hcode : ((e.program engine).run e.found).2.process.exitCode = (e.exits engine).getLast? := by
    rw [Program.exitCode_run]
    show Option.or _ e.guest.process.exitCode = _
    rw [hnone, Option.or_none, exits]
  have hfault : ((e.program engine).run e.found).2.process.fault = e.processFault engine :=
    Program.fault_run _ _
  have hhost : ((e.program engine).run e.found).2.host.unbind.fault = e.hostFault engine :=
    Program.hostFault_run _ _
  have h := enter_eq engine e
  generalize (e.program engine).run e.found = result at hcode hfault hhost h
  generalize result.2.process = p at hcode hfault h
  generalize result.2.host.unbind = host at hhost h
  unfold conclude at h
  rw [hcode] at h
  -- a recorded exit comes first, and only then what the code itself ended with
  cases hlast : (e.exits engine).getLast? with
  | some code =>
    rw [hlast] at h
    simp only [Prod.mk.injEq] at h
    obtain ⟨ht, hp, hh⟩ := h
    rw [ht, hp, hh, hfault, hhost]
    exact .exited hlast
  | none =>
    have hx : e.exits engine = [] := List.getLast?_eq_none_iff.1 hlast
    rw [hlast] at h
    cases ho : e.outcome engine with
    | ok u =>
      simp only [ho, Prod.mk.injEq] at h
      obtain ⟨ht, hp, hh⟩ := h
      rw [ht, hp, hh, hfault, hhost]
      exact .returned hx ho
    | error trap =>
      simp only [ho, explain_eq, hfault, hhost, Prod.mk.injEq] at h
      obtain ⟨ht, hp, hh⟩ := h
      rw [ht, hp, hh]
      exact .unwound hx ho

/-- What a trap tells. -/
lemma Ends.of_trap {t : Trap} {fault hostFault : Option Failure} (he : e.Ends engine (.trap t) fault hostFault) :
    ∃ trap, e.outcome engine = .error trap ∧ t = { trap with message := e.message engine trap } := by
  cases he with
  | @unwound trap hx ho => exact ⟨trap, ho, rfl⟩

lemma ended_guestAfter : (e.guestAfter engine).ended = some (e.termination engine) := rfl

/-- No guest is bound after an entry. -/
lemma guest_hostAfter : (e.hostAfter engine).guest = none := by
  have h : e.hostAfter engine = (conclude (e.outcome engine) ((e.program engine).run e.found).2.process
      ((e.program engine).run e.found).2.host.unbind).2.2 := rfl
  rw [h]
  unfold conclude
  split
  · rfl
  · rfl
  · rw [explain_eq]
    rfl

/-- An entry, told from the run of its code. -/
lemma enter_of_run {outcome : Except Trap Unit} {code : γ} {r : Running}
    (hrun : (e.program engine).run e.found = ((outcome, code), r)) :
    e.guest.enter engine e.name e.host =
      let (termination, process, host) := conclude outcome r.process r.host.unbind
      (termination, ⟨code, process, r.host.guest.getD e.guest.memory, some termination⟩, host) := by
  have hrun : (engine.call e.name e.guest.code).run ⟨e.guest.process, e.host.bind e.guest.memory⟩ =
      ((outcome, code), r) := hrun
  rw [enter, hrun]

end Entry

/-! ### Visits -/

/-- What is asked of a guest. -/
inductive Visit where
  | start
  | invoke (name : String)
  deriving DecidableEq

namespace Visit

/-- How a guest is visited. -/
def run (engine : Engine σ μ γ) : Visit → Op (Instance γ × Host) Termination
  | start => Instance.start engine
  | invoke name => Instance.invoke engine name

/-- The export that is called. -/
def exportName : Visit → String
  | start => Interface.startExport
  | invoke name => name

/-- The guest's life allows the visit. -/
def Admits : Visit → Instance γ → Prop
  | start, i => i.ended = none
  | invoke _, i => i.allowsScheduling = true

instance : (v : Visit) → (i : Instance γ) → Decidable (v.Admits i)
  | start, i => inferInstanceAs (Decidable (i.ended = none))
  | invoke _, i => inferInstanceAs (Decidable (i.allowsScheduling = true))

/-- The answer to a visit that is not allowed. -/
def refusal : Visit → Failure
  | start => .instantiation "instance already started"
  | invoke name => .instantiation s!"guest may not be scheduled again to call {name}"

/-- The guest as its code finds it: a new exit does not mix with an old one. -/
def prepared : Visit → Instance γ → Instance γ
  | start, i => i
  | invoke _, i => { i with process := i.process.clearExit }

/-- The entry that is made if the visit is allowed. -/
def entry (v : Visit) (i : Instance γ) (h : Host) : Entry γ := ⟨v.exportName, v.prepared i, h⟩

variable {engine : Engine σ μ γ} {v : Visit} {i : Instance γ} {h : Host}

/-- The code of a guest is entered without an exit on record if a guest that was never entered has none. -/
lemma exitCode_prepared (hfresh : i.ended = none → i.process.exitCode = none) (ha : v.Admits i) :
    (v.prepared i).process.exitCode = none := by
  cases v with
  | start => exact hfresh ha
  | invoke name => rfl

/-- A visit that is allowed is an entry. -/
lemma run_of_admits (engine : Engine σ μ γ) (h : Host) (ha : v.Admits i) :
    v.run engine (i, h) = .ok ((v.entry i h).termination engine)
      ((v.entry i h).guestAfter engine, (v.entry i h).hostAfter engine) := by
  cases v with
  | start =>
    have hended : i.ended.isSome = false := by rw [show i.ended = none from ha, Option.isSome_none]
    show Instance.start engine (i, h) = _
    rw [Instance.start, Op.get_bind_apply]
    dsimp only
    rw [hended]
    rfl
  | invoke name =>
    have hallows : i.allowsScheduling = true := ha
    show Instance.invoke engine name (i, h) = _
    rw [Instance.invoke, Op.get_bind_apply]
    dsimp only
    rw [hallows]
    rfl

/-- A visit that is not allowed changes nothing. -/
lemma run_of_not_admits (engine : Engine σ μ γ) (h : Host) (ha : ¬ v.Admits i) :
    v.run engine (i, h) = .error v.refusal (i, h) := by
  cases v with
  | start =>
    have hended : i.ended.isSome = true := Option.isSome_iff_ne_none.2 ha
    show Instance.start engine (i, h) = _
    rw [Instance.start, Op.get_bind_apply]
    dsimp only
    rw [hended]
    rfl
  | invoke name =>
    have hallows : i.allowsScheduling = false := Bool.not_eq_true _ ▸ ha
    show Instance.invoke engine name (i, h) = _
    rw [Instance.invoke, Op.get_bind_apply]
    dsimp only
    rw [hallows]
    rfl

end Visit

end Instance

/-! ### Guests that share a host -/

open Instance (Visit)

/-- Guests that share a host. -/
structure Community (ι γ : Type) where
  guests : ι → Instance γ
  host : Host

namespace Community

variable [DecidableEq ι]

/-- The community with another state of one guest and of the host. -/
def put (k : ι) (p : Instance γ × Host) (c : Community ι γ) : Community ι γ := ⟨Function.update c.guests k p.1, p.2⟩

/-- Visits one of the guests. -/
def visit (engine : Engine σ μ γ) (k : ι) (v : Visit) : Op (Community ι γ) Termination :=
  Op.onPart (fun c => (c.guests k, c.host)) (put k) (v.run engine)

/-- The entry that a visit to a guest makes if it is allowed. -/
def entry (c : Community ι γ) (k : ι) (v : Visit) : Instance.Entry γ := v.entry (c.guests k) c.host

/-- The community after visits, also where they are refused. -/
def afterVisits (engine : Engine σ μ γ) (c : Community ι γ) (visits : List (ι × Visit)) : Community ι γ :=
  visits.foldl (fun c (k, v) => Op.after (visit engine k v) c) c

variable {engine : Engine σ μ γ} {c : Community ι γ} {k : ι} {v : Visit}

lemma guests_put_self (k : ι) (p : Instance γ × Host) (c : Community ι γ) : (c.put k p).guests k = p.1 :=
  Function.update_self ..

lemma guests_put_of_ne {j k : ι} (hj : j ≠ k) (p : Instance γ × Host) (c : Community ι γ) :
    (c.put k p).guests j = c.guests j := Function.update_of_ne hj ..

lemma visit_of_admits (engine : Engine σ μ γ) (ha : v.Admits (c.guests k)) :
    visit engine k v c = .ok ((c.entry k v).termination engine)
      (c.put k ((c.entry k v).guestAfter engine, (c.entry k v).hostAfter engine)) :=
  Op.onPart_of_ok (Visit.run_of_admits engine c.host ha)

lemma visit_of_not_admits (engine : Engine σ μ γ) (ha : ¬ v.Admits (c.guests k)) :
    visit engine k v c = .error v.refusal c := by
  have hput : c.put k (c.guests k, c.host) = c := by rw [put, Function.update_eq_self]
  have hrefused : visit engine k v c = .error v.refusal (c.put k (c.guests k, c.host)) :=
    Op.onPart_of_error (Visit.run_of_not_admits engine c.host ha)
  rw [hrefused, hput]

lemma afterVisits_concat (c : Community ι γ) (visits : List (ι × Visit)) (k : ι) (v : Visit) :
    c.afterVisits engine (visits ++ [(k, v)]) = Op.after (visit engine k v) (c.afterVisits engine visits) :=
  List.foldl_append ..

end Community

end ToolchainHost
