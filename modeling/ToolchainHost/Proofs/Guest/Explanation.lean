import Mathlib.Data.List.Induction
import ToolchainHost.Proofs.Guest.Visits

/-!
# Which failure explains a trap

A trap is told by the failure that its process has on record, else by the host's, else in the engine's own words.
Entries that end otherwise leave both on record, and a trap that is told by the process's failure leaves the host's.

* `Community.leftWith`, `Community.leftWithHost`: what earlier entries have left on record, told from their history.
* `Community.Recalls`: guests and host are where the history has left them. A visit preserves that.
* `Community.Inherits`: an entry finds a failure on record that none of its own takes the place of.
* `trap_is_own_or_inherited`: a trap is explained by its own entry, unless that inherits a failure.
-/

namespace ToolchainHost

open Instance (Visit)

variable {σ μ γ ι : Type}

/-- Whether an entry ended with a trap. -/
def Termination.isTrap : Termination → Bool
  | trap _ => true
  | _ => false

namespace Community

variable [DecidableEq ι]

/-- What is remembered of an entry that is over. -/
structure Past (ι : Type) where
  guest : ι
  /-- The failures that were recorded with the process, in order. -/
  faults : List Failure
  /-- The failures that were recorded with the host, in order. -/
  hostFaults : List Failure
  termination : Termination

/-- The failure that a guest's process still has on record after entries, the last one first: the last recorded one,
but nothing once a trap was told. -/
def leftWith (k : ι) : List (Past ι) → Option Failure
  | [] => none
  | p :: earlier =>
    if p.guest = k then if p.termination.isTrap then none else p.faults.getLast?.or (leftWith k earlier)
    else leftWith k earlier

/-- The failure that the host still has on record: the last recorded one, but nothing once a trap was told that the
process could not explain. -/
def leftWithHost : List (Past ι) → Option Failure
  | [] => none
  | p :: earlier =>
    if p.termination.isTrap && (p.faults.getLast?.or (leftWith p.guest earlier)).isNone then none
    else p.hostFaults.getLast?.or (leftWithHost earlier)

/-- What a visit adds to the history: nothing if it was refused. -/
def pastOf (engine : Engine σ μ γ) (c : Community ι γ) (k : ι) (v : Visit) : List (Past ι) :=
  match visit engine k v c with
  | .ok t _ => [⟨k, (c.entry k v).faults engine, (c.entry k v).hostFaults engine, t⟩]
  | .error _ _ => []

/-- The entries that visits made, the last one first. -/
def log (engine : Engine σ μ γ) (c : Community ι γ) : List (ι × Visit) → List (Past ι)
  | [] => []
  | (k, v) :: rest => (Op.after (visit engine k v) c).log engine rest ++ c.pastOf engine k v

/-- Guests and host have neither an exit nor a failure on record. -/
structure Fresh (c : Community ι γ) : Prop where
  exitCode (k : ι) : (c.guests k).process.exitCode = none
  fault (k : ι) : (c.guests k).process.fault = none
  hostFault : c.host.fault = none

/-- What guests and host have on record is what the history has left there. -/
structure Recalls (c : Community ι γ) (log : List (Past ι)) : Prop where
  exitCode (k : ι) : (c.guests k).ended = none → (c.guests k).process.exitCode = none
  fault (k : ι) : (c.guests k).process.fault = leftWith k log
  hostFault : c.host.fault = leftWithHost log

/-- An entry finds a failure on record, left there by earlier ones, and records none that takes its place: none with
the process, and none with the host either if the failure is the host's. -/
def Inherits (engine : Engine σ μ γ) (log : List (Past ι)) (k : ι) (e : Instance.Entry γ) (f : Failure) : Prop :=
  e.faults engine = [] ∧
    (leftWith k log = some f ∨ leftWith k log = none ∧ e.hostFaults engine = [] ∧ leftWithHost log = some f)

variable {engine : Engine σ μ γ} {c c' : Community ι γ} {log : List (Past ι)} {k : ι} {v : Visit} {f : Failure}
  {f? : Option Failure}

lemma log_concat (c : Community ι γ) (visits : List (ι × Visit)) (k : ι) (v : Visit) :
    c.log engine (visits ++ [(k, v)]) = (c.afterVisits engine visits).pastOf engine k v ++ c.log engine visits := by
  induction visits generalizing c with
  | nil => exact List.append_nil _ ▸ rfl
  | cons head visits ih =>
    rw [List.cons_append, Community.log, ih, Community.log, List.append_assoc]
    rfl

/-! ### What is left on record -/

lemma mem_of_leftWith (h : leftWith k log = some f) : ∃ p ∈ log, f ∈ p.faults := by
  induction log with
  | nil => cases h
  | cons p earlier ih =>
    have hearlier (h : leftWith k earlier = some f) : ∃ q ∈ p :: earlier, f ∈ q.faults := by
      obtain ⟨q, hq, hf⟩ := ih h
      exact ⟨q, List.mem_cons_of_mem _ hq, hf⟩
    unfold leftWith at h
    split_ifs at h
    · obtain h | ⟨-, h⟩ := Option.or_eq_some_iff.1 h
      · exact ⟨p, List.mem_cons_self, List.mem_of_getLast? h⟩
      · exact hearlier h
    · exact hearlier h

lemma mem_of_leftWithHost (h : leftWithHost log = some f) : ∃ p ∈ log, f ∈ p.hostFaults := by
  induction log with
  | nil => cases h
  | cons p earlier ih =>
    unfold leftWithHost at h
    split_ifs at h
    obtain h | ⟨-, h⟩ := Option.or_eq_some_iff.1 h
    · exact ⟨p, List.mem_cons_self, List.mem_of_getLast? h⟩
    · obtain ⟨q, hq, hf⟩ := ih h
      exact ⟨q, List.mem_cons_of_mem _ hq, hf⟩

/-- An inherited failure was recorded in an earlier entry. -/
lemma Inherits.recorded {e : Instance.Entry γ} (h : Inherits engine log k e f) :
    ∃ p ∈ log, f ∈ p.faults ++ p.hostFaults := by
  obtain ⟨-, h | ⟨-, -, h⟩⟩ := h
  · obtain ⟨p, hp, hf⟩ := mem_of_leftWith h
    exact ⟨p, hp, List.mem_append_left _ hf⟩
  · obtain ⟨p, hp, hf⟩ := mem_of_leftWithHost h
    exact ⟨p, hp, List.mem_append_right _ hf⟩

/-! ### Entries and the record -/

/-- A trap takes the process's failure off the record, any other end leaves it there. -/
lemma fault_of_ends {e : Instance.Entry γ} {t : Termination} {g : Option Failure} (he : e.Ends engine t f? g) :
    f? = if t.isTrap then none else e.processFault engine := by
  cases he with
  | exited hx => rfl
  | returned hx ho => rfl
  | unwound hx ho => rfl

/-- A trap takes the host's failure off the record if it was needed, any other end leaves it there. -/
lemma hostFault_of_ends {e : Instance.Entry γ} {t : Termination} {g : Option Failure} (he : e.Ends engine t f? g) :
    g = if t.isTrap && (e.processFault engine).isNone then none else e.hostFault engine := by
  cases he with
  | exited hx => rfl
  | returned hx ho => rfl
  | unwound hx ho =>
    cases hp : e.processFault engine with
    | none => simp [Termination.isTrap]
    | some failure => simp [Termination.isTrap]

namespace Recalls

lemma exitCode_entry (hr : Recalls c log) (ha : v.Admits (c.guests k)) :
    (c.entry k v).guest.process.exitCode = none := Visit.exitCode_prepared (hr.exitCode k) ha

lemma fault_entry (hr : Recalls c log) : (c.entry k v).guest.process.fault = leftWith k log := by
  cases v with
  | start => exact hr.fault k
  | invoke name => exact hr.fault k

/-- What is on record when the code of an entry has ended. -/
lemma processFault_entry (hr : Recalls c log) :
    (c.entry k v).processFault engine = ((c.entry k v).faults engine).getLast?.or (leftWith k log) := by
  rw [Instance.Entry.processFault, hr.fault_entry]

lemma hostFault_entry (hr : Recalls c log) :
    (c.entry k v).hostFault engine = ((c.entry k v).hostFaults engine).getLast?.or (leftWithHost log) := by
  rw [← hr.hostFault]
  rfl

/-- **A visit** adds to the history, and guests and host are where that leaves them. -/
theorem visit (hr : Recalls c log) (k : ι) (v : Visit) :
    Recalls (Op.after (visit engine k v) c) (c.pastOf engine k v ++ log) := by
  by_cases ha : v.Admits (c.guests k)
  · have hvisit := visit_of_admits engine ha
    rw [Op.after_of_ok hvisit, pastOf, hvisit]
    dsimp only
    rw [List.singleton_append]
    have hends := Instance.Entry.ends engine (hr.exitCode_entry ha)
    have hfault := fault_of_ends hends
    have hhost := hostFault_of_ends hends
    rw [hr.processFault_entry] at hfault hhost
    rw [hr.hostFault_entry] at hhost
    refine ⟨fun j => ?_, fun j => ?_, hhost⟩
    · by_cases hj : j = k
      · subst hj
        rw [guests_put_self, Instance.Entry.ended_guestAfter]
        rintro ⟨⟩
      · rw [guests_put_of_ne hj]
        exact hr.exitCode j
    · by_cases hj : j = k
      · subst hj
        rw [guests_put_self, leftWith, if_pos rfl]
        exact hfault
      · rw [guests_put_of_ne hj, leftWith, if_neg (Ne.symm hj)]
        exact hr.fault j
  · have hvisit := visit_of_not_admits engine ha
    rw [Op.after_of_error hvisit, pastOf, hvisit]
    exact hr

/-- **All visits**, from fresh guests on. -/
theorem visits (hc : c.Fresh) (visits : List (ι × Visit)) :
    Recalls (c.afterVisits engine visits) (c.log engine visits) := by
  induction visits using List.reverseRecOn with
  | nil => exact ⟨fun k _ => hc.exitCode k, hc.fault, hc.hostFault⟩
  | append_singleton visits last ih =>
    obtain ⟨k, v⟩ := last
    rw [afterVisits_concat, log_concat]
    exact ih.visit k v

/-- The message of a trap of an entry that inherits nothing is that of the entry's own last failure, or the engine's. -/
lemma message_own (hr : Recalls c log) (trap : Trap) (hnone : ∀ f, ¬ Inherits engine log k (c.entry k v) f) :
    (c.entry k v).message engine trap = trap.message ∨
      ∃ f ∈ (c.entry k v).faults engine ++ (c.entry k v).hostFaults engine,
        (c.entry k v).message engine trap = f.message := by
  rw [Instance.Entry.message, hr.processFault_entry, hr.hostFault_entry]
  cases hf : ((c.entry k v).faults engine).getLast? with
  | some f => exact Or.inr ⟨f, List.mem_append_left _ (List.mem_of_getLast? hf), rfl⟩
  | none =>
    have hfaults : (c.entry k v).faults engine = [] := List.getLast?_eq_none_iff.1 hf
    have hleft : leftWith k log = none := by
      rw [Option.eq_none_iff_forall_ne_some]
      exact fun f hf => hnone f ⟨hfaults, Or.inl hf⟩
    rw [hleft]
    cases hg : ((c.entry k v).hostFaults engine).getLast? with
    | some f => exact Or.inr ⟨f, List.mem_append_right _ (List.mem_of_getLast? hg), rfl⟩
    | none =>
      have hhostFaults : (c.entry k v).hostFaults engine = [] := List.getLast?_eq_none_iff.1 hg
      have hleftHost : leftWithHost log = none := by
        rw [Option.eq_none_iff_forall_ne_some]
        exact fun f hf => hnone f ⟨hfaults, Or.inr ⟨hleft, hhostFaults, hf⟩⟩
      rw [hleftHost]
      exact Or.inl rfl

/-- The message of a trap of an entry that inherits a failure is that failure's. -/
lemma message_inherited (hr : Recalls c log) (trap : Trap) (hf : Inherits engine log k (c.entry k v) f) :
    (c.entry k v).message engine trap = f.message := by
  rw [Instance.Entry.message, hr.processFault_entry, hr.hostFault_entry]
  obtain ⟨hfaults, hleft | ⟨hleft, hhostFaults, hleftHost⟩⟩ := hf
  · rw [hfaults, hleft]
    rfl
  · rw [hfaults, hleft, hhostFaults, hleftHost]
    rfl

end Recalls

end Community

open Community

/-- **A trap is explained by its own entry unless that inherits a failure.** On every sequence of visits to guests
that share a host, a trap tells the engine's own message or a failure that was recorded in the same entry, as long
as the entry finds no failure on record that it does not replace. If it finds one, this was recorded in an earlier
entry, and the trap tells it. -/
theorem trap_is_own_or_inherited [DecidableEq ι] (engine : Engine σ μ γ) {c c' : Community ι γ} (hc : c.Fresh)
    (visits : List (ι × Visit)) (k : ι) (v : Visit) {t : Trap}
    (ht : Community.visit engine k v (c.afterVisits engine visits) = .ok (.trap t) c') :
    ∃ trap, ((c.afterVisits engine visits).entry k v).outcome engine = .error trap ∧ t.stack = trap.stack ∧
      ((∀ f, ¬ Inherits engine (c.log engine visits) k ((c.afterVisits engine visits).entry k v) f) →
        t.message = trap.message ∨
          ∃ f ∈ ((c.afterVisits engine visits).entry k v).faults engine ++
            ((c.afterVisits engine visits).entry k v).hostFaults engine, t.message = f.message) ∧
      ∀ f, Inherits engine (c.log engine visits) k ((c.afterVisits engine visits).entry k v) f →
        t.message = f.message ∧ ∃ p ∈ c.log engine visits, f ∈ p.faults ++ p.hostFaults := by
  have hr : Recalls (c.afterVisits engine visits) (c.log engine visits) := Recalls.visits hc visits
  generalize c.afterVisits engine visits = s at ht hr
  generalize c.log engine visits = log at hr
  by_cases ha : v.Admits (s.guests k)
  · rw [visit_of_admits engine ha] at ht
    obtain ⟨hend, -⟩ := EStateM.Result.ok.inj ht
    have hends := Instance.Entry.ends engine (hr.exitCode_entry ha)
    rw [hend] at hends
    obtain ⟨trap, ho, rfl⟩ := hends.of_trap
    exact ⟨trap, ho, rfl, hr.message_own trap, fun f hf => ⟨hr.message_inherited trap hf, hf.recorded⟩⟩
  · rw [visit_of_not_admits engine ha] at ht
    cases ht

/-- A guest that traps whenever it is entered, but for its start, where it records a failure and asks to be entered
again. -/
def leaving : Engine Unit Unit Unit := .ofGuest () fun name _ =>
  if name = Interface.startExport then
    .perform (.recordFault (.notFound "old")) fun _ => .perform (.exit Interface.continueCode) fun _ =>
      .done (.error ⟨"proc_exit", none⟩, ())
  else .done (.error ⟨"new", none⟩, ())

/-- One new guest. -/
def alone : Community Unit Unit :=
  ⟨fun _ => { code := (), process := .new ["a"] "PWD=/" 1, memory := ⟨#[], #[]⟩ }, {}⟩

lemma fresh_alone : alone.Fresh := ⟨fun _ => rfl, fun _ => rfl, rfl⟩

lemma visit_leaving : ∃ c', Community.visit leaving () (.invoke "r") (alone.afterVisits leaving [((), .start)]) =
    .ok (.trap ⟨"no such file: old", none⟩) c' := ⟨_, rfl⟩

theorem trap_is_own_or_inherited_leaving : alone.Fresh ∧ ∃ c', Community.visit leaving () (.invoke "r")
      (alone.afterVisits leaving [((), .start)]) = .ok (.trap ⟨"no such file: old", none⟩) c' ∧
    ∃ f, Inherits leaving (alone.log leaving [((), .start)]) ()
      ((alone.afterVisits leaving [((), .start)]).entry () (.invoke "r")) f ∧
      ∃ p ∈ alone.log leaving [((), .start)], f ∈ p.faults ++ p.hostFaults := by
  obtain ⟨c', hvisit⟩ := visit_leaving
  obtain ⟨trap, -, -, -, htold⟩ := trap_is_own_or_inherited leaving fresh_alone _ _ _ hvisit
  have hinherits : Inherits leaving (alone.log leaving [((), .start)]) ()
      ((alone.afterVisits leaving [((), .start)]).entry () (.invoke "r")) (.notFound "old") := ⟨rfl, Or.inl rfl⟩
  exact ⟨fresh_alone, c', hvisit, _, hinherits, (htold _ hinherits).2⟩

/-- A trap tells a failure of an earlier entry. -/
theorem exists_trap_not_own : ¬ ∀ (engine : Engine Unit Unit Unit) (c c' : Community Unit Unit), c.Fresh →
    ∀ (visits : List (Unit × Visit)) (v : Visit) (t : Trap),
      Community.visit engine () v (c.afterVisits engine visits) = .ok (.trap t) c' →
      ∃ trap, ((c.afterVisits engine visits).entry () v).outcome engine = .error trap ∧
        (t.message = trap.message ∨ ∃ f ∈ ((c.afterVisits engine visits).entry () v).faults engine ++
          ((c.afterVisits engine visits).entry () v).hostFaults engine, t.message = f.message) := by
  intro hall
  obtain ⟨c', hvisit⟩ := visit_leaving
  obtain ⟨trap, ho, hmessage | ⟨f, hf, -⟩⟩ := hall leaving alone c' fresh_alone _ _ _ hvisit
  · have hnew : ((alone.afterVisits leaving [((), .start)]).entry () (.invoke "r")).outcome leaving =
        .error ⟨"new", none⟩ := rfl
    rw [hnew] at ho
    cases ho
    exact absurd hmessage (by decide)
  · cases hf

end ToolchainHost
