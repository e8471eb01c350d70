import Mathlib.Data.List.Induction
import ToolchainHost.Proofs.Guest.Visits

/-!
# The life of a guest

A guest is entered by its start function, and after that only while its last entry ended with the continue code.

* `Instance.Allows`: what a history of entries allows next.
* `Instance.Lives`: a guest is where its history has left it. A visit preserves that.
* `life_is_orderly`: on every sequence of visits, those and only those that the history allows are entries, and an
  entry ends as its own code says.
-/

namespace ToolchainHost

variable {σ μ γ : Type}

namespace Instance

/-- The guest after visits, each made on the host it finds. -/
def afterVisits (engine : Engine σ μ γ) (i : Instance γ) (visits : List (Visit × Host)) : Instance γ :=
  visits.foldl (fun i (v, h) => (Op.after (v.run engine) (i, h)).1) i

/-- What a visit adds to the history of a guest: nothing if it was refused. -/
def told (v : Visit) : EStateM.Result Failure (Instance γ × Host) Termination → List (Visit × Termination)
  | .ok t _ => [(v, t)]
  | .error _ _ => []

/-- The visits that were entries, with how these ended, in order. -/
def entries (engine : Engine σ μ γ) (i : Instance γ) : List (Visit × Host) → List (Visit × Termination)
  | [] => []
  | (v, h) :: rest => told v (v.run engine (i, h)) ++ (Op.after (v.run engine) (i, h)).1.entries engine rest

/-- What a history of entries allows next: the start function as the first of all, and another export right after
an entry that ended with the continue code. -/
def Allows (log : List (Visit × Termination)) : Visit → Prop
  | .start => log = []
  | .invoke _ => log.getLast?.map Prod.snd = some (.exit Interface.continueCode)

instance (log : List (Visit × Termination)) : (v : Visit) → Decidable (Allows log v)
  | .start => inferInstanceAs (Decidable (log = []))
  | .invoke _ => inferInstanceAs (Decidable (_ = _))

/-- An entry ends as its own code says: with the last code that the guest exits with, or else as the code returns
or unwinds. -/
structure Entry.EndsWith (engine : Engine σ μ γ) (e : Entry γ) (t : Termination) : Prop where
  exit_iff (code : Int) : t = .exit code ↔ (e.exits engine).getLast? = some code
  normal_iff (code : Int) : t = .normal code ↔ e.exits engine = [] ∧ e.outcome engine = .ok () ∧ code = 0
  trap_iff : (∃ trap, t = .trap trap) ↔ e.exits engine = [] ∧ ∃ trap, e.outcome engine = .error trap

variable {engine : Engine σ μ γ} {i : Instance γ} {log : List (Visit × Termination)} {v : Visit} {h : Host}

lemma afterVisits_concat (i : Instance γ) (visits : List (Visit × Host)) (v : Visit) (h : Host) :
    i.afterVisits engine (visits ++ [(v, h)]) = (Op.after (v.run engine) (i.afterVisits engine visits, h)).1 :=
  List.foldl_append ..

lemma entries_concat (i : Instance γ) (visits : List (Visit × Host)) (v : Visit) (h : Host) :
    i.entries engine (visits ++ [(v, h)]) =
      i.entries engine visits ++ told v (v.run engine (i.afterVisits engine visits, h)) := by
  induction visits generalizing i with
  | nil => exact List.append_nil _
  | cons head visits ih =>
    rw [List.cons_append, entries, ih, entries, List.append_assoc]
    rfl

lemma allowsScheduling_iff : i.allowsScheduling = true ↔ i.ended = some (.exit Interface.continueCode) := by
  unfold allowsScheduling
  cases i.ended with
  | none => simp
  | some t =>
    cases t with
    | normal code => simp [Termination.allowsScheduling]
    | trap trap => simp [Termination.allowsScheduling]
    | exit code => simp [Termination.allowsScheduling]

/-- How an entry ends is decided by its own code. -/
lemma Entry.Ends.endsWith {e : Entry γ} {t : Termination} {f g : Option Failure} (he : e.Ends engine t f g) :
    e.EndsWith engine t := by
  cases he with
  | @exited code hx =>
    have hne : e.exits engine ≠ [] := by
      intro hnil
      rw [hnil] at hx
      cases hx
    refine ⟨fun c => ?_, fun c => ?_, ?_⟩
    · rw [hx, Option.some.injEq, Termination.exit.injEq]
    · simp [hne]
    · simp [hne]
  | returned hx ho =>
    refine ⟨fun c => ?_, fun c => ?_, ?_⟩
    · simp [hx]
    · simp [hx, ho, eq_comm]
    · simp [ho]
  | unwound hx ho =>
    refine ⟨fun c => ?_, fun c => ?_, ?_⟩
    · simp [hx]
    · simp [ho]
    · simp [hx, ho]

/-- A guest is where its history has left it, and every entry was one that those before it allowed. -/
structure Lives (i : Instance γ) (log : List (Visit × Termination)) : Prop where
  ended : i.ended = log.getLast?.map Prod.snd
  /-- A guest that was not entered has no exit on record. -/
  fresh : i.ended = none → i.process.exitCode = none
  allowed (before : List (Visit × Termination)) (v : Visit) (t : Termination) (after : List (Visit × Termination)) :
    log = before ++ (v, t) :: after → Allows before v

namespace Lives

/-- The guest admits what its history allows. -/
lemma admits_iff (hl : Lives i log) : v.Admits i ↔ Allows log v := by
  cases v with
  | start =>
    show i.ended = none ↔ log = []
    rw [hl.ended, Option.map_eq_none_iff, List.getLast?_eq_none_iff]
  | invoke name =>
    show i.allowsScheduling = true ↔ _
    rw [allowsScheduling_iff, hl.ended]
    rfl

/-- **A visit** that is allowed becomes a part of the history; any other leaves guest and history alone. -/
theorem visit (hl : Lives i log) (v : Visit) (h : Host) :
    Lives (Op.after (v.run engine) (i, h)).1 (log ++ told v (v.run engine (i, h))) := by
  by_cases ha : v.Admits i
  · have hrun := Visit.run_of_admits engine h ha
    rw [Op.after_of_ok hrun, hrun, told]
    refine ⟨?_, ?_, ?_⟩
    · rw [List.getLast?_concat, Option.map_some, Entry.ended_guestAfter]
    · intro hnone
      rw [Entry.ended_guestAfter] at hnone
      cases hnone
    · intro before w t after hsplit
      -- the new entry is the last of the history; those before it are the old ones
      rcases List.eq_nil_or_concat after with rfl | ⟨after, last, rfl⟩
      · obtain ⟨rfl, hlast⟩ := List.append_inj' hsplit rfl
        cases hlast
        exact hl.admits_iff.1 ha
      · rw [List.concat_eq_append, ← List.cons_append, ← List.append_assoc] at hsplit
        obtain ⟨hlog, -⟩ := List.append_inj' hsplit rfl
        exact hl.allowed before w t after hlog
  · have hrun := Visit.run_of_not_admits engine h ha
    rw [Op.after_of_error hrun, hrun, told, List.append_nil]
    exact hl

/-- **All visits**, from a new guest on. -/
theorem visits (hended : i.ended = none) (hexit : i.process.exitCode = none) (visits : List (Visit × Host)) :
    Lives (i.afterVisits engine visits) (i.entries engine visits) := by
  induction visits using List.reverseRecOn with
  | nil =>
    refine ⟨hended, fun _ => hexit, ?_⟩
    intro before w t after hsplit
    rw [entries] at hsplit
    exact absurd hsplit.symm (List.append_ne_nil_of_right_ne_nil _ (List.cons_ne_nil _ _))
  | append_singleton visits last ih =>
    obtain ⟨v, h⟩ := last
    rw [afterVisits_concat, entries_concat]
    exact ih.visit v h

end Lives

end Instance

open Instance

/-- **The life of a guest is orderly**, whatever its code does and on whatever hosts it is visited. Every entry was
allowed by the history before it; the guest may be scheduled exactly while the last entry is one that ended with
the continue code; a visit that the history does not allow is refused and changes neither the guest nor the host;
and a visit that it allows is an entry that ends as its own code says. -/
theorem life_is_orderly (engine : Engine σ μ γ) {i : Instance γ} (hended : i.ended = none)
    (hexit : i.process.exitCode = none) (visits : List (Visit × Host)) (v : Visit) (h : Host) :
    (∀ before w t after, i.entries engine visits = before ++ (w, t) :: after → Allows before w) ∧
      ((i.afterVisits engine visits).allowsScheduling = true ↔
        (i.entries engine visits).getLast?.map Prod.snd = some (.exit Interface.continueCode)) ∧
      (¬ Allows (i.entries engine visits) v →
        v.run engine (i.afterVisits engine visits, h) = .error v.refusal (i.afterVisits engine visits, h)) ∧
      (Allows (i.entries engine visits) v → ∃ t j h',
        v.run engine (i.afterVisits engine visits, h) = .ok t (j, h') ∧ j.ended = some t ∧
          (v.entry (i.afterVisits engine visits) h).EndsWith engine t) := by
  have hl : Lives (i.afterVisits engine visits) (i.entries engine visits) := Lives.visits hended hexit visits
  refine ⟨hl.allowed, ?_, ?_, ?_⟩
  · rw [allowsScheduling_iff, hl.ended]
  · intro hnot
    apply Visit.run_of_not_admits
    intro ha
    exact hnot (hl.admits_iff.1 ha)
  · intro hallows
    have ha : v.Admits (i.afterVisits engine visits) := hl.admits_iff.2 hallows
    have hnone : (v.entry (i.afterVisits engine visits) h).guest.process.exitCode = none :=
      Visit.exitCode_prepared hl.fresh ha
    exact ⟨_, _, _, Visit.run_of_admits engine h ha, rfl, (Entry.ends engine hnone).endsWith⟩

/-- A guest that exits with the continue code when it is started, and returns from any other export. -/
def parking : Engine Unit Unit Unit := .ofGuest () fun name _ =>
  if name = Interface.startExport then
    .perform (.exit 3) fun _ => .perform (.exit Interface.continueCode) fun _ => .done (.error ⟨"proc_exit", none⟩, ())
  else .done (.ok (), ())

/-- The guest is started, resumed, and then refused. -/
theorem life_is_orderly_parking :
    let i : Instance Unit := { code := (), process := .new ["a"] "PWD=/" 1, memory := ⟨#[], #[]⟩ }
    i.ended = none ∧ i.process.exitCode = none ∧
      i.entries parking [(.start, {}), (.start, {}), (.invoke "resume", {})] =
        [(.start, .exit Interface.continueCode), (.invoke "resume", .normal 0)] ∧
      Visit.run parking (.invoke "again") (i.afterVisits parking
          [(.start, {}), (.start, {}), (.invoke "resume", {})], {}) =
        .error (Visit.invoke "again").refusal (i.afterVisits parking
          [(.start, {}), (.start, {}), (.invoke "resume", {})], {}) := by
  intro i
  have hentries : i.entries parking [(.start, {}), (.start, {}), (.invoke "resume", {})] =
      [(.start, .exit Interface.continueCode), (.invoke "resume", .normal 0)] := by rfl
  refine ⟨rfl, rfl, hentries, (life_is_orderly parking rfl rfl _ _ _).2.2.1 ?_⟩
  rw [hentries]
  decide

end ToolchainHost
