import Mathlib.Order.Defs.Unbundled
import ToolchainHost.Host.Stdio
import ToolchainHost.Proofs.Operation

/-!
# The terminal

What the calls of a guest that use the terminal can do at most.

* `SameFiles`: no file was touched.
* `Continues`: events were posted, but none that ends a request.
* `Serves`: so much for events, no failure was recorded, and the guest is still bound.
* `UsesTerminal`: the host served a guest without touching a file.
-/

namespace ToolchainHost.Host

variable {h h' h'' : Host}

/-- The hosts have the same files. -/
def SameFiles (h h' : Host) : Prop := h'.files = h.files

/-- Events were posted, and none of them ends a request. -/
def Continues (h h' : Host) : Prop :=
  ∃ events, h'.events = h.events ++ events ∧ ∀ e ∈ events, e.isCompletion = false

/-- What a call of a guest is good for: no request ends, no failure is recorded, and a guest that is bound stays
bound. -/
structure Serves (h h' : Host) : Prop where
  continues : Continues h h'
  fault : h'.fault = h.fault
  bound : h.guest.isSome = true → h'.guest.isSome = true

/-- What the terminal is good for: it serves, and the files stay as they are. -/
structure UsesTerminal (h h' : Host) : Prop where
  files : SameFiles h h'
  serves : Serves h h'

lemma continues_of_eq (h1 : h'.events = h.events) : Continues h h' := ⟨[], by simpa using h1, by simp⟩

lemma Continues.trans (h1 : Continues h h') (h2 : Continues h' h'') : Continues h h'' := by
  obtain ⟨first, hfirst, hno⟩ := h1
  obtain ⟨second, hsecond, hno'⟩ := h2
  refine ⟨first ++ second, by rw [hsecond, hfirst, List.append_assoc], ?_⟩
  intro e he
  obtain he | he := List.mem_append.1 he
  · exact hno e he
  · exact hno' e he

lemma continues_post {event : Event} (he : event.isCompletion = false) (h : Host) : Continues h (h.post event) := by
  refine ⟨[event], rfl, ?_⟩
  intro e hmem
  rw [List.mem_singleton.1 hmem]
  exact he

lemma continues_emit (text : String) (h : Host) : Continues h (h.emit text) := by
  unfold emit
  split_ifs
  · exact continues_of_eq rfl
  · exact continues_post rfl h

lemma sameFiles_emit (text : String) (h : Host) : SameFiles h (h.emit text) := by
  unfold emit
  split_ifs
  · rfl
  · rfl

instance : IsPreorder Host Continues where
  refl _ := continues_of_eq rfl
  trans _ _ _ := Continues.trans

instance : IsPreorder Host Serves where
  refl _ := ⟨continues_of_eq rfl, rfl, id⟩
  trans _ _ _ h1 h2 := ⟨h1.continues.trans h2.continues, h2.fault.trans h1.fault, h2.bound ∘ h1.bound⟩

instance : IsPreorder Host UsesTerminal where
  refl h := ⟨rfl, refl_of Serves h⟩
  trans _ _ _ h1 h2 := ⟨Eq.trans h2.files h1.files, trans_of Serves h1.serves h2.serves⟩

/-- The memory of the guest is written. -/
lemma serves_bind (m : Memory) (h : Host) : Serves h { h with guest := some m } :=
  ⟨continues_of_eq rfl, rfl, fun _ => rfl⟩

lemma serves_emit (text : String) (h : Host) : Serves h (h.emit text) := by
  refine ⟨continues_emit text h, ?_, ?_⟩
  · unfold emit
    split_ifs
    · rfl
    · rfl
  · unfold emit
    split_ifs
    · exact id
    · exact id

/-! ### The calls -/

/-- The relation allows what reading takes: the guest's memory is written, input is moved, and the page is asked. -/
structure AllowsInput (R : Host → Host → Prop) : Prop where
  guest (h : Host) (m : Memory) : R h { h with guest := some m }
  pending (h : Host) (pending : List UInt8) : R h { h with pending }
  ask (h : Host) (stdin : Stdin) : R h { h.post .readStdinRequest with stdin := some stdin }

section Calls

variable {R : Host → Host → Prop} [IsPreorder Host R] (hR : AllowsInput R)

lemma within_guestMemory : Op.Within R guestMemory := Op.within_get.bind fun _ => Op.within_lift _

include hR

lemma AllowsInput.within_writeGuest (address : Nat) (data : List UInt8) : Op.Within R (writeGuest address data) :=
  within_guestMemory.bind fun _ => (Op.within_lift _).bind fun _ => Op.within_modify fun h => hR.guest h _

/-- Writing to the terminal is posting text. -/
lemma AllowsInput.within_write (hemit : ∀ text h, R h (h.emit text)) (descriptor : Int) (list count out : Nat) :
    Op.Within R (write descriptor list count out) := by
  unfold write
  dsimp only
  refine Op.Within.ite (Op.within_throw_bind _ _) ?_
  exact within_guestMemory.bind fun memory => (Op.within_lift _).bind fun segments =>
    (Op.within_lift _).bind fun payload => (Op.within_modify fun h => hemit _ h).bind fun _ =>
      (hR.within_writeGuest _ _).bind fun _ => Op.within_pure _

lemma AllowsInput.within_receive : Op.Within R receive := by
  intro h
  unfold receive
  rw [Op.after_congr (Op.get_bind_apply _ h)]
  split
  · exact refl_of R h
  · refine Op.Within.bind (R := R) (Op.within_modify fun h => hR.ask h _) (fun _ => ?_) h
    exact (Op.within_lift _).bind fun _ => Op.within_modify fun h => hR.pending h _

lemma AllowsInput.within_scatter (segments : List Segment) (total : Nat) : Op.Within R (scatter segments total) := by
  induction segments generalizing total with
  | nil => exact Op.within_pure _
  | cons s rest ih =>
    intro h
    unfold scatter
    rw [Op.after_congr (Op.get_bind_apply _ h)]
    split_ifs
    · exact refl_of R h
    · rw [Op.after_congr (Op.set_bind_apply _ _ h)]
      have hrest : Op.Within R (do
          writeGuest s.address (h.pending.take s.length)
          scatter rest (← Word.add total (h.pending.take s.length).length)) :=
        (hR.within_writeGuest _ _).bind fun _ => (Op.within_lift _).bind fun _ => ih _
      exact trans_of R (hR.pending h _) (hrest _)

/-- Reading from the terminal. -/
lemma AllowsInput.within_read (descriptor : Int) (list count out : Nat) :
    Op.Within R (read descriptor list count out) := by
  have hrest (segments : List Segment) : Op.Within R (do
      let total ← scatter segments 0
      writeGuest out (Bytes.ofNat 4 total)
      return total) :=
    (hR.within_scatter _ _).bind fun total => (hR.within_writeGuest _ _).bind fun _ => Op.within_pure _
  unfold read
  dsimp only
  refine Op.Within.ite (Op.within_throw_bind _ _) ?_
  refine within_guestMemory.bind fun memory => (Op.within_lift _).bind fun segments => Op.within_get.bind fun h => ?_
  exact Op.Within.ite (hR.within_receive.bind fun _ => hrest segments) (hrest segments)

end Calls

lemma allowsInput_usesTerminal : AllowsInput UsesTerminal where
  guest h m := ⟨rfl, serves_bind m h⟩
  pending _ _ := ⟨rfl, continues_of_eq rfl, rfl, id⟩
  ask h _ := ⟨rfl, continues_post rfl h, rfl, id⟩

/-- **Writing to the terminal** serves and touches no file. -/
theorem within_write (descriptor : Int) (list count out : Nat) :
    Op.Within UsesTerminal (write descriptor list count out) :=
  allowsInput_usesTerminal.within_write (fun text h => ⟨sameFiles_emit text h, serves_emit text h⟩) descriptor list
    count out

/-- **Reading from the terminal** serves and touches no file. -/
theorem within_read (descriptor : Int) (list count out : Nat) :
    Op.Within UsesTerminal (read descriptor list count out) :=
  allowsInput_usesTerminal.within_read descriptor list count out

end ToolchainHost.Host
