import ToolchainHost.Proofs.Guest.Visits
import ToolchainHost.Proofs.Host.Output

/-!
# What guests show

A guest shows text by writing to a standard descriptor, and in no other way. Every write that the host can gather is one
text: its bytes, decoded and rewritten.

* `HostCall.payload?`, `Program.payloads`: the bytes that a call hands over, and those of a run.
* `Host.Mute`: no text was shown.
* `HostCall.shows_perform`, `Program.shows_run`: the texts of one call, and of a whole run.
* `Instance.Entry.shows`: the texts of an entry.
-/

namespace ToolchainHost

variable {σ μ γ α : Type}

/-- The text that is shown with an event. -/
def Event.shown? : Event → Option String
  | write text => some text
  | _ => none

/-- The texts that a host has shown. -/
def Host.texts (h : Host) : List String := h.events.filterMap Event.shown?

/-- The texts that payloads become. Nothing is shown for a payload without text. -/
def textsOf (rewriter : Option Rewriter) (payloads : List (List UInt8)) : List String :=
  (payloads.map (Host.textOf rewriter)).filter (· ≠ "")

/-- The bytes that a guest hands over with a segment list, if it has the list and the segments. -/
def Host.payload? (m : Memory) (list count : Nat) : Option (List UInt8) :=
  if m.InRange list (count * Segment.width) ∧ ∀ s ∈ segmentsOf m list count, m.InRange s.address s.length then
    some (payloadAt m list count)
  else none

/-- The bytes that a call hands over for the terminal. -/
def HostCall.payload? (r : Running) : HostCall → Option (List UInt8)
  | fileWrite descriptor list count _ =>
    if Interface.isStandard descriptor then r.host.guest.bind fun m => Host.payload? m list count else none
  | _ => none

/-- The bytes that a guest hands over for the terminal, write by write. -/
def Program.payloads : Program α → Running → List (List UInt8)
  | done _, _ => []
  | perform call next, r => (call.payload? r).toList ++ (next (call.perform r).1).payloads (call.perform r).2

lemma textsOf_append (rewriter : Option Rewriter) (payloads payloads' : List (List UInt8)) :
    textsOf rewriter (payloads ++ payloads') = textsOf rewriter payloads ++ textsOf rewriter payloads' := by
  simp [textsOf]

namespace Host

variable {h h' : Host}

/-- No text was shown, and texts are rewritten as before. -/
structure Mute (h h' : Host) : Prop where
  texts : h'.texts = h.texts
  rewriter : h'.rewriter = h.rewriter

instance : IsPreorder Host Mute where
  refl _ := ⟨rfl, rfl⟩
  trans _ _ _ h1 h2 := ⟨h2.texts.trans h1.texts, h2.rewriter.trans h1.rewriter⟩

/-- The texts of the payloads were shown. -/
structure Shows (payloads : List (List UInt8)) (h h' : Host) : Prop where
  texts : h'.texts = h.texts ++ textsOf h.rewriter payloads
  rewriter : h'.rewriter = h.rewriter

lemma Mute.shows (hm : Mute h h') : Shows [] h h' := ⟨by rw [hm.texts, textsOf]; simp, hm.rewriter⟩

lemma Shows.trans {h'' : Host} {payloads payloads' : List (List UInt8)} (h1 : Shows payloads h h')
    (h2 : Shows payloads' h' h'') : Shows (payloads ++ payloads') h h'' where
  texts := by rw [h2.texts, h1.texts, h1.rewriter, textsOf_append, List.append_assoc]
  rewriter := h2.rewriter.trans h1.rewriter

lemma shows_emit (payload : List UInt8) (h : Host) : Shows [payload] h (h.emit (textOf h.rewriter payload)) := by
  by_cases hempty : textOf h.rewriter payload = ""
  · rw [emit, if_pos hempty]
    exact ⟨by simp [textsOf, hempty], rfl⟩
  · rw [emit, if_neg hempty]
    exact ⟨by simp [textsOf, hempty, texts, post, Event.shown?], rfl⟩

/-! ### Calls -/

lemma allowsInput_mute : AllowsInput Mute where
  guest _ _ := ⟨rfl, rfl⟩
  pending _ _ := ⟨rfl, rfl⟩
  ask _ _ := ⟨by simp [texts, post, Event.shown?], rfl⟩

lemma allows_mute : Allows FileStore.Anyhow Mute :=
  ⟨FileStore.allows_anyhow, fun _ => ⟨rfl, rfl⟩, fun _ _ => ⟨rfl, rfl⟩⟩

/-- **A write to the terminal** shows the text of its payload if it can be gathered, and nothing else, also where the
number of bytes cannot be stored. -/
theorem shows_write {descriptor : Int} (hd : Interface.isStandard descriptor = true) (list count out : Nat) (h : Host) :
    Shows (h.guest.bind fun m => payload? m list count).toList h (Op.after (write descriptor list count out) h) := by
  rw [write]
  simp only [hd, Bool.not_true, Bool.false_eq_true, if_false]
  cases hg : h.guest with
  | none =>
    have hx : guestMemory h = .error (.instantiation "no guest memory attached") h := by
      rw [guestMemory, Op.get_bind_apply, hg]
      rfl
    rw [Op.after_bind_of_error hx]
    exact (refl_of Mute h).shows
  | some m =>
    rw [Op.after_bind_of_ok (guestMemory_eq_ok.2 ⟨hg, rfl⟩), Option.bind_some]
    cases hs : segmentsAt m list count with
    | error e =>
      have hn : payload? m list count = none := by
        refine if_neg fun hp => ?_
        rw [segmentsAt_eq_ok.2 ⟨hp.1, rfl⟩] at hs
        cases hs
      rw [hn, Op.after_of_error (Op.lift_error_bind ..)]
      exact (refl_of Mute h).shows
    | ok segments =>
      obtain ⟨hl, rfl⟩ := segmentsAt_eq_ok.1 hs
      rw [Op.after_congr (Op.lift_ok_bind ..)]
      cases hp : gather m (segmentsOf m list count) with
      | error e =>
        have hn : payload? m list count = none := by
          refine if_neg fun hall => ?_
          rw [gather_eq_ok.2 ⟨hall.2, rfl⟩] at hp
          cases hp
        rw [hn, Op.after_of_error (Op.lift_error_bind ..)]
        exact (refl_of Mute h).shows
      | ok payload =>
        obtain ⟨hall, rfl⟩ := gather_eq_ok.1 hp
        have hpayload : payload? m list count = some (payloadAt m list count) := if_pos ⟨hl, hall⟩
        have hstore (n : Nat) : Op.Within Mute (do
            writeGuest out (Bytes.ofNat 4 n)
            return n : Op Host Nat) := (allowsInput_mute.within_writeGuest _ _).bind fun _ => Op.within_pure _
        rw [Op.after_congr (Op.lift_ok_bind ..), Op.after_congr (Op.modify_bind_apply ..), hpayload]
        exact (shows_emit _ h).trans (hstore _ _).shows

end Host

/-- The host has shown nothing. -/
def Running.Mute (r r' : Running) : Prop := r.host.Mute r'.host

instance : IsPreorder Running Running.Mute where
  refl r := refl_of Host.Mute r.host
  trans _ _ _ h1 h2 := trans_of Host.Mute h1 h2

/-- **One call** shows what it hands over for the terminal. -/
theorem HostCall.shows_perform (call : HostCall) (r : Running) :
    Host.Shows (call.payload? r).toList r.host (call.perform r).2.host := by
  have hmute {x : Op Host Interface.Errno} (hx : Op.Within Host.Mute x) :
      Host.Mute r.host (outcome (Running.onHost x) r).2.host := by
    rw [outcome_snd, Running.onHost, Op.after_onPart]
    exact hx r.host
  cases call with
  | growMemory | exit | recordFault | recordHostFault => exact Host.Mute.shows ⟨rfl, rfl⟩
  | pathOpen path length flags out => exact (hmute (Host.allows_mute.within_pathOpen path length flags out)).shows
  | fileClose descriptor => exact (hmute (Host.allows_mute.within_fileClose descriptor)).shows
  | fileRead descriptor list count out =>
    exact (hmute (Host.allows_mute.within_fileRead fun _ => Host.allowsInput_mute.within_read _ _ _ _)).shows
  | fileWrite descriptor list count out =>
    rw [payload?]
    split_ifs with hd
    · have hwrite : Op.after (Host.fileWrite descriptor list count out) r.host =
          Op.after (Host.write descriptor list count out) r.host := by
        rw [Host.fileWrite, if_pos hd, bind_pure_comp, Op.after_map]
      rw [perform, outcome_snd, Running.onHost, Op.after_onPart, hwrite]
      exact Host.shows_write hd list count out r.host
    · exact (hmute (Host.allows_mute.within_fileWrite fun h => absurd h hd)).shows
  | _ =>
    exact Host.Mute.shows (within_perform (R := Running.Mute) (fun _ _ => ⟨rfl, rfl⟩) (fun _ _ => ⟨rfl, rfl⟩) rfl r)

/-- **A run** shows what it hands over for the terminal, write by write. -/
theorem Program.shows_run (p : Program α) (r : Running) : Host.Shows (p.payloads r) r.host (p.run r).2.host := by
  induction p generalizing r with
  | done a => exact (refl_of Host.Mute r.host).shows
  | perform call next ih => exact (call.shows_perform r).trans (ih _ _)

namespace Instance.Entry

variable (engine : Engine σ μ γ) (e : Entry γ)

/-- The bytes that the guest hands over for the terminal, write by write. -/
def payloads : List (List UInt8) := (e.program engine).payloads e.found

/-- **An entry** into a guest shows the payloads of the guest, rewritten as the host says, and nothing else. -/
theorem shows : Host.Shows (e.payloads engine) e.host (e.hostAfter engine) := by
  have hrun : Host.Shows (e.payloads engine) e.found.host ((e.program engine).run e.found).2.host :=
    Program.shows_run _ _
  have hconclude (outcome : Except Trap Unit) (p : ProcessState) (h : Host) :
      Host.Mute h (conclude outcome p h).2.2 := by
    unfold conclude
    split
    · exact refl_of Host.Mute h
    · exact refl_of Host.Mute h
    · rw [explain_eq]
      exact ⟨rfl, rfl⟩
  have hend := hconclude (e.outcome engine) ((e.program engine).run e.found).2.process
    ((e.program engine).run e.found).2.host.unbind
  exact ⟨hend.texts.trans hrun.texts, hend.rewriter.trans hrun.rewriter⟩

end Instance.Entry

end ToolchainHost
