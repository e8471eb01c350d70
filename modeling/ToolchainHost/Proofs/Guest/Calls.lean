import ToolchainHost.Guest.Program
import ToolchainHost.Proofs.Host.Steps

/-!
# What guests can do

A guest can post text and ask for input, as often as it likes. It cannot end the request it runs for, and it cannot
unbind its memory. Exits and failures are on record only where the guest puts them.

* `HostCall.exit?`, `HostCall.fault?`, `HostCall.hostFault?`: what a call puts on record.
* `HostCall.records_perform`: one call.
* `Program.continues_run`: a whole run does not end the request.
-/

namespace ToolchainHost

variable {α : Type}

/-! ### Calls on files -/

namespace Host

/-- The files have nothing to say. -/
lemma allows_serves : Allows FileStore.Anyhow Serves :=
  ⟨FileStore.allows_anyhow, fun _ => ⟨continues_of_eq rfl, rfl, id⟩, fun h m => serves_bind m h⟩

lemma serves_fileWrite (descriptor : Int) (list count out : Nat) :
    Op.Within Serves (fileWrite descriptor list count out) :=
  allows_serves.within_fileWrite fun _ =>
    (within_write descriptor list count out).mono fun _ _ => UsesTerminal.serves

lemma serves_fileRead (descriptor : Int) (list count out : Nat) :
    Op.Within Serves (fileRead descriptor list count out) :=
  allows_serves.within_fileRead fun _ =>
    (within_read descriptor list count out).mono fun _ _ => UsesTerminal.serves

end Host

/-! ### Calls on the process -/

namespace Running

/-- What most calls of a guest are good for: the host serves, and of the process only the random generator moves. -/
structure Serves (r r' : Running) : Prop where
  host : r.host.Serves r'.host
  process : ∃ random, r'.process = { r.process with random }

instance : IsPreorder Running Serves where
  refl r := ⟨refl_of Host.Serves r.host, r.process.random, rfl⟩
  trans r r' r'' h1 h2 := by
    obtain ⟨x, hx⟩ := h1.process
    obtain ⟨y, hy⟩ := h2.process
    exact ⟨trans_of Host.Serves h1.host h2.host, y, by rw [hy, hx]⟩

lemma serves_onHost {x : Op Host α} (hx : Op.Within Host.Serves x) : Op.Within Serves (onHost x) :=
  Op.within_onPart fun r => ⟨hx r.host, r.process.random, rfl⟩

/-! What every relation allows that allows the guest's memory to be written. -/

section Surface

variable {R : Running → Running → Prop} [IsPreorder Running R]

lemma within_memory : Op.Within R memory := by
  refine Op.within_get.bind fun r => ?_
  cases r.host.guest with
  | none => exact Op.within_throw _
  | some m => exact Op.within_pure _

variable (hbind : ∀ r m, R r { r with host := r.host.bind m })

include hbind

lemma within_store (address : Nat) (data : List UInt8) : Op.Within R (store address data) :=
  within_memory.bind fun _ => (Op.within_lift _).bind fun _ => Op.within_modify fun r => hbind r _

lemma within_tableSizes (table : StringTable) (count size : Nat) : Op.Within R (tableSizes table count size) :=
  within_memory.bind fun _ => (within_store hbind _ _).bind fun _ => (within_store hbind _ _).bind fun _ =>
    Op.within_pure _

lemma within_tableEntries (table : StringTable) (pointers strings : Nat) :
    Op.Within R (tableEntries table pointers strings) :=
  within_memory.bind fun _ => (Op.within_lift _).bind fun _ => (within_store hbind _ _).bind fun _ =>
    (within_store hbind _ _).bind fun _ => Op.within_pure _

lemma within_randomBytes (hdraw : ∀ r random, R r { r with process := { r.process with random } })
    (address count : Nat) : Op.Within R (randomBytes address count) := by
  intro r
  unfold randomBytes
  rw [Op.after_congr (Op.get_bind_apply _ r)]
  cases ProcessState.draw ((count + 7) / 8) r.process.random with
  | mk data random =>
    have hstore := (within_store hbind address (data.take count)).bind fun _ => Op.within_pure Interface.Errno.success
    exact trans_of R (hdraw r random) (hstore _)

end Surface

lemma serves_bind (r : Running) (m : Memory) : Serves r { r with host := r.host.bind m } :=
  ⟨Host.serves_bind m r.host, r.process.random, rfl⟩

lemma serves_draw (r : Running) (random : UInt64) : Serves r { r with process := { r.process with random } } :=
  ⟨refl_of Host.Serves r.host, random, rfl⟩

end Running

/-! ### What is on record -/

namespace HostCall

/-- The code that a call exits with. -/
def exit? : HostCall → Option Int
  | exit code => some code
  | _ => none

/-- The failure that a call records with the process. -/
def fault? : HostCall → Option Failure
  | recordFault failure => some failure
  | _ => none

/-- The failure that a call records with the host. -/
def hostFault? : HostCall → Option Failure
  | recordHostFault failure => some failure
  | _ => none

/-- Whether a call does no more than to write the guest's memory and to draw random bytes. -/
def staysInside : HostCall → Bool
  | growMemory _ | exit _ | pathOpen .. | fileClose _ | fileWrite .. | fileRead .. => false
  | recordFault _ | recordHostFault _ => false
  | _ => true

/-- What a call puts on record, and what it leaves as it was. -/
structure Records (call : HostCall) (r r' : Running) : Prop where
  exitCode : r'.process.exitCode = call.exit?.or r.process.exitCode
  fault : r'.process.fault = call.fault?.or r.process.fault
  hostFault : r'.host.fault = call.hostFault?.or r.host.fault
  bound : r.host.guest.isSome = true → r'.host.guest.isSome = true
  continues : r.host.Continues r'.host

/-- A call that only serves puts nothing on record. -/
lemma records_of_serves {call : HostCall} {r r' : Running} (he : call.exit? = none) (hf : call.fault? = none)
    (hh : call.hostFault? = none) (hs : Running.Serves r r') : call.Records r r' := by
  obtain ⟨random, hp⟩ := hs.process
  refine ⟨?_, ?_, ?_, hs.host.bound, hs.host.continues⟩
  · rw [he, Option.none_or, hp]
  · rw [hf, Option.none_or, hp]
  · rw [hh, Option.none_or, hs.host.fault]

lemma outcome_snd (x : Op Running α) (r : Running) : (outcome x r).2 = Op.after x r := by
  unfold outcome Op.after
  cases x r <;> rfl

lemma within_outcome {R : Running → Running → Prop} {x : Op Running α} (hx : Op.Within R x) (r : Running) :
    R r (outcome x r).2 := by
  rw [outcome_snd]
  exact hx r

/-- A call that stays inside and draws no random bytes goes as far as writing the memory does. -/
lemma within_perform_undrawn {R : Running → Running → Prop} [IsPreorder Running R]
    (hbind : ∀ r m, R r { r with host := r.host.bind m }) {call : HostCall} (hc : call.staysInside = true)
    (hd : ∀ address count, call ≠ .randomBytes address count) (r : Running) : R r (call.perform r).2 := by
  have hsizes (table : Running → StringTable) (count size : Nat) :
      Op.Within R (do Running.tableSizes (table (← get)) count size) :=
    Op.within_get.bind fun _ => Running.within_tableSizes hbind _ _ _
  have hentries (table : Running → StringTable) (pointers strings : Nat) :
      Op.Within R (do Running.tableEntries (table (← get)) pointers strings) :=
    Op.within_get.bind fun _ => Running.within_tableEntries hbind _ _ _
  cases call with
  | load address count => exact within_outcome (Running.within_memory.bind fun _ => Op.within_lift _) r
  | loadText address count => exact within_outcome (Running.within_memory.bind fun _ => Op.within_lift _) r
  | save address data => exact within_outcome (Running.within_store hbind address data) r
  | memorySize => exact refl_of R r
  | argumentSizes count size => exact within_outcome (hsizes (·.process.arguments) count size) r
  | arguments pointers strings => exact within_outcome (hentries (·.process.arguments) pointers strings) r
  | environSizes count size => exact within_outcome (hsizes (·.process.environ) count size) r
  | environ pointers strings => exact within_outcome (hentries (·.process.environ) pointers strings) r
  | randomBytes address count => exact absurd rfl (hd address count)
  | clock => exact within_outcome (Op.within_throw _) r
  | poll => exact within_outcome (Op.within_throw _) r
  | _ => cases hc

/-- A call that stays inside goes as far as writing the memory and drawing random bytes do. -/
lemma within_perform {R : Running → Running → Prop} [IsPreorder Running R]
    (hbind : ∀ r m, R r { r with host := r.host.bind m })
    (hdraw : ∀ r random, R r { r with process := { r.process with random } }) {call : HostCall}
    (hc : call.staysInside = true) (r : Running) : R r (call.perform r).2 := by
  by_cases hd : ∃ address count, call = .randomBytes address count
  · obtain ⟨address, count, rfl⟩ := hd
    exact within_outcome (Running.within_randomBytes hbind hdraw address count) r
  · exact within_perform_undrawn hbind hc (fun address count h => hd ⟨address, count, h⟩) r

/-- **Every call** puts on record what it says, and serves otherwise. -/
theorem records_perform (call : HostCall) (r : Running) : call.Records r (call.perform r).2 := by
  have hfiles {α : Type} {x : Op Host α} (hx : Op.Within Host.Serves x) :
      Running.Serves r (outcome (Running.onHost x) r).2 := within_outcome (Running.serves_onHost hx) r
  cases call with
  | growMemory pages =>
    refine ⟨rfl, rfl, rfl, fun hb => ?_, Host.continues_of_eq rfl⟩
    exact (Option.isSome_map ..).trans hb
  | exit code => exact ⟨rfl, rfl, rfl, id, Host.continues_of_eq rfl⟩
  | pathOpen path length flags out =>
    exact records_of_serves rfl rfl rfl (hfiles (Host.allows_serves.within_pathOpen path length flags out))
  | fileClose descriptor =>
    exact records_of_serves rfl rfl rfl (hfiles (Host.allows_serves.within_fileClose descriptor))
  | fileWrite descriptor list count out =>
    exact records_of_serves rfl rfl rfl (hfiles (Host.serves_fileWrite descriptor list count out))
  | fileRead descriptor list count out =>
    exact records_of_serves rfl rfl rfl (hfiles (Host.serves_fileRead descriptor list count out))
  | recordFault failure => exact ⟨rfl, rfl, rfl, id, Host.continues_of_eq rfl⟩
  | recordHostFault failure => exact ⟨rfl, rfl, rfl, id, Host.continues_of_eq rfl⟩
  | _ => exact records_of_serves rfl rfl rfl (within_perform Running.serves_bind Running.serves_draw rfl r)

end HostCall

/-- **A guest does not end the request it runs for**, whatever it does. -/
theorem Program.continues_run (p : Program α) (r : Running) : r.host.Continues (p.run r).2.host := by
  induction p generalizing r with
  | done a => exact refl_of Host.Continues r.host
  | perform call next ih => exact (call.records_perform r).continues.trans (ih _ _)

end ToolchainHost
