import Mathlib.Data.List.Induction
import ToolchainHost.Proofs.Guest.Visits

/-!
# Whose memory a call reaches

A host that runs a guest holds that guest's memory as long as the entry lasts. Seen from outside, the memories stay
where they are, one with each guest, and the host is bound to a guest or to none. Calls on the process surface go to
the memory of the guest that makes them; calls on files and on the terminal go where the host is bound.

* `World`: guests that share a host, and the guest that the host is bound to.
* `World.visit`: a visit in a world. Nothing but the binding says whose memory the files reach.
* `World.Lent`: what a run of a guest preserves: the host is bound to that guest, and the others are left alone.
* `World.Idle`: what a visit preserves: the host is bound to none.
* `World.Separates`: a visit to one guest leaves all others as they were, at every call of its code and at its end.
* `memories_stay_apart`: on every sequence of visits each does, and visits in a world are those of the community.
-/

namespace ToolchainHost

open Instance (Visit)

variable {σ μ γ ι α : Type} [DecidableEq ι]

/-- Guests that share a host, and the guest whose memory the host is bound to. -/
structure World (ι γ : Type) extends Community ι γ where
  bound : Option ι := none

namespace World

/-! ### What a world is made of -/

section Parts

variable (w : World ι γ)

/-- The world with another state of one guest. -/
def withGuest (k : ι) (i : Instance γ) : World ι γ := { w with guests := Function.update w.guests k i }

/-- The world with another host. -/
def withHost (host : Host) : World ι γ := { w with host }

/-- The world with the host bound to a guest, or to none. -/
def bindTo (bound : Option ι) : World ι γ := { w with bound }

@[simp] lemma guests_withGuest_self (k : ι) (i : Instance γ) : (w.withGuest k i).guests k = i :=
  Function.update_self ..

lemma guests_withGuest_of_ne {j k : ι} (hj : j ≠ k) (i : Instance γ) : (w.withGuest k i).guests j = w.guests j :=
  Function.update_of_ne hj ..

end Parts

/-! ### Calls and visits -/

/-- The guest whose memory a call of guest `k` reaches. -/
def reached (k : ι) (w : World ι γ) : HostCall → Option ι
  | .pathOpen .. => w.bound
  | .fileClose _ => w.bound
  | .fileWrite .. => w.bound
  | .fileRead .. => w.bound
  | _ => some k

/-- The memory of a guest, if there is one to reach. -/
def memoryOf (w : World ι γ) (place : Option ι) : Option Memory := place.map fun j => (w.guests j).memory

/-- Puts the memory that a call has left back to the guest that it was reached from. -/
def withMemory (w : World ι γ) : (place : Option ι) → Option Memory → World ι γ
  | some j, some memory => w.withGuest j { w.guests j with memory }
  | _, _ => w

/-- A call of guest `k`. -/
def perform (k : ι) (call : HostCall) (w : World ι γ) : call.Answer × World ι γ :=
  let place := w.reached k call
  let (answer, r) := call.perform ⟨(w.guests k).process, { w.host with guest := w.memoryOf place }⟩
  let w := w.withGuest k { w.guests k with process := r.process }
  (answer, (w.withMemory place r.host.guest).withHost r.host.unbind)

/-- Runs the code of guest `k` to its end. -/
def run (k : ι) : Program α → World ι γ → α × World ι γ
  | .done a, w => (a, w)
  | .perform call next, w =>
    let (answer, w) := w.perform k call
    run k (next answer) w

/-- The worlds that the calls of a run find, and the one in which it ends. -/
def stages (k : ι) : Program α → World ι γ → List (World ι γ)
  | .done _, w => [w]
  | .perform call next, w => w :: stages k (next (w.perform k call).1) (w.perform k call).2

/-- The world in which the code of a guest starts: the guest is prepared, and the host is bound to it. -/
def entered (k : ι) (v : Visit) (w : World ι γ) : World ι γ :=
  (w.withGuest k (v.prepared (w.guests k))).bindTo (some k)

/-- The world after the code of a guest has ended: the host is bound to none, and the end is concluded. -/
def left (k : ι) (outcome : Except Trap Unit) (code : γ) (w : World ι γ) : Termination × World ι γ :=
  let (termination, process, host) := Instance.conclude outcome (w.guests k).process w.host
  (termination,
    ((w.withGuest k ⟨code, process, (w.guests k).memory, some termination⟩).withHost host).bindTo none)

/-- Visits one of the guests. -/
def visit (engine : Engine σ μ γ) (k : ι) (v : Visit) : Op (World ι γ) Termination := fun w =>
  if v.Admits (w.guests k) then
    let ((outcome, code), w) := run k ((w.entry k v).program engine) (w.entered k v)
    let (termination, w) := w.left k outcome code
    .ok termination w
  else .error v.refusal w

/-- The worlds in which the code runs that a visit enters: none if the visit is refused. -/
def during (engine : Engine σ μ γ) (k : ι) (v : Visit) (w : World ι γ) : List (World ι γ) :=
  if v.Admits (w.guests k) then stages k ((w.entry k v).program engine) (w.entered k v) else []

/-- The world after visits, also where they are refused. -/
def afterVisits (engine : Engine σ μ γ) (w : World ι γ) (visits : List (ι × Visit)) : World ι γ :=
  visits.foldl (fun w (k, v) => Op.after (visit engine k v) w) w

lemma afterVisits_concat (engine : Engine σ μ γ) (w : World ι γ) (visits : List (ι × Visit)) (k : ι) (v : Visit) :
    w.afterVisits engine (visits ++ [(k, v)]) = Op.after (visit engine k v) (w.afterVisits engine visits) :=
  List.foldl_append ..

/-! ### The guest that runs -/

/-- Guest `k` as its calls find it where the host is bound to it. -/
def running (k : ι) (w : World ι γ) : Running := ⟨(w.guests k).process, w.host.bind (w.guests k).memory⟩

/-- While the code of guest `k` runs the host is bound to it, and all others are as they were. -/
structure Lent (k : ι) (w w' : World ι γ) : Prop where
  bound : w'.bound = some k
  unattached : w'.host.guest = none
  others (j : ι) : j ≠ k → w'.guests j = w.guests j

variable {engine : Engine σ μ γ} {w w' w'' : World ι γ} {k : ι} {v : Visit}

omit [DecidableEq ι] in
lemma lent_self (hb : w.bound = some k) (hn : w.host.guest = none) : Lent k w w := ⟨hb, hn, fun _ _ => rfl⟩

omit [DecidableEq ι] in
lemma Lent.trans (h : Lent k w w') (h' : Lent k w' w'') : Lent k w w'' :=
  ⟨h'.bound, h'.unattached, fun j hj => (h'.others j hj).trans (h.others j hj)⟩

omit [DecidableEq ι] in
lemma reached_of_bound (hb : w.bound = some k) (call : HostCall) : w.reached k call = some k := by
  cases call with
  | pathOpen path length flags out => exact hb
  | fileClose descriptor => exact hb
  | fileWrite descriptor list count out => exact hb
  | fileRead descriptor list count out => exact hb
  | _ => rfl

/-- **A call** of the guest that the host is bound to does in the world what it does to the running guest. -/
theorem perform_of_bound (hb : w.bound = some k) (call : HostCall) :
    (w.perform k call).1 = (call.perform (w.running k)).1 ∧
      (w.perform k call).2.running k = (call.perform (w.running k)).2 ∧ Lent k w (w.perform k call).2 := by
  have hguest : (call.perform (w.running k)).2.host.guest.isSome = true :=
    (call.records_perform (w.running k)).bound rfl
  obtain ⟨m, hm⟩ := Option.isSome_iff_exists.1 hguest
  have hperform : w.perform k call = ((call.perform (w.running k)).1,
      ((w.withGuest k { w.guests k with process := (call.perform (w.running k)).2.process }).withMemory (some k)
        (call.perform (w.running k)).2.host.guest).withHost (call.perform (w.running k)).2.host.unbind) := by
    rw [perform, reached_of_bound hb]
    rfl
  -- the call has left the guest's memory with the host, and from there it is put back
  generalize call.perform (w.running k) = result at hperform hm
  obtain ⟨answer, process, host⟩ := result
  have hm : host.guest = some m := hm
  rw [hperform, hm, withMemory]
  refine ⟨rfl, ?_, hb, rfl, ?_⟩
  · have hhost : host.unbind.bind m = host := by
      rw [Host.bind, ← hm]
      rfl
    rw [running, withHost, guests_withGuest_self, guests_withGuest_self, hhost]
  · intro j hj
    rw [withHost, guests_withGuest_of_ne _ hj, guests_withGuest_of_ne _ hj]

/-- **A run** of the guest that the host is bound to goes in the world as the run of the guest alone goes. -/
theorem run_of_bound (p : Program α) (hb : w.bound = some k) :
    (run k p w).1 = (p.run (w.running k)).1 ∧ (run k p w).2.running k = (p.run (w.running k)).2 ∧
      (stages k p w).map (running k) = p.states (w.running k) := by
  induction p generalizing w with
  | done a => exact ⟨rfl, rfl, rfl⟩
  | perform call next ih =>
    obtain ⟨hanswer, hrunning, hlent⟩ := perform_of_bound hb call
    obtain ⟨hvalue, hend, hstates⟩ := ih (w.perform k call).1 hlent.bound
    rw [hrunning, hanswer] at hvalue hend hstates
    have hrun : run k (.perform call next) w = run k (next (w.perform k call).1) (w.perform k call).2 := rfl
    rw [hrun, hanswer, stages, List.map_cons, hanswer, hstates]
    exact ⟨hvalue, hend, rfl⟩

/-- All worlds of a run are lent to the guest that runs. -/
lemma lent_stages (p : Program α) (hb : w.bound = some k) (hn : w.host.guest = none) :
    ∀ u ∈ stages k p w, Lent k w u := by
  induction p generalizing w with
  | done a =>
    intro u hu
    obtain rfl := List.mem_singleton.1 hu
    exact lent_self hb hn
  | perform call next ih =>
    obtain ⟨-, -, hlent⟩ := perform_of_bound hb call
    intro u hu
    obtain rfl | hu := List.mem_cons.1 hu
    · exact lent_self hb hn
    · exact hlent.trans (ih _ hlent.bound hlent.unattached u hu)

lemma run_mem_stages (k : ι) (p : Program α) (w : World ι γ) : (run k p w).2 ∈ stages k p w := by
  induction p generalizing w with
  | done a => exact List.mem_singleton_self w
  | perform call next ih => exact List.mem_cons_of_mem _ (ih _ _)

/-! ### Between visits -/

/-- The host is bound to none. -/
structure Idle (w : World ι γ) : Prop where
  unbound : w.bound = none
  unattached : w.host.guest = none

/-- The world with another community in it. -/
def withCommunity (c : Community ι γ) (w : World ι γ) : World ι γ := { w with toCommunity := c }

lemma Idle.lent_entered (hw : w.Idle) (k : ι) (v : Visit) : Lent k w (w.entered k v) :=
  ⟨rfl, hw.unattached, fun _ hj => guests_withGuest_of_ne w hj _⟩

lemma running_entered (k : ι) (v : Visit) (w : World ι γ) : (w.entered k v).running k = (w.entry k v).found := by
  rw [running, entered, bindTo, guests_withGuest_self]
  rfl

/-- In all worlds in which the code of a guest runs the host is bound to it, and no other guest has changed. -/
lemma Idle.lent_during (hw : w.Idle) : ∀ u ∈ w.during engine k v, Lent k w u := by
  have hentered := hw.lent_entered k v
  intro u hu
  unfold during at hu
  split_ifs at hu
  · exact hentered.trans (lent_stages _ hentered.bound hentered.unattached u hu)
  · cases hu

/-- The code of a guest finds in these worlds what it finds in its own run. -/
lemma during_of_admits (ha : v.Admits (w.guests k)) :
    (w.during engine k v).map (running k) = ((w.entry k v).program engine).states (w.entry k v).found := by
  have hbound : (w.entered k v).bound = some k := rfl
  obtain ⟨-, -, hstates⟩ := run_of_bound ((w.entry k v).program engine) hbound
  rw [running_entered] at hstates
  rw [during, if_pos ha]
  exact hstates

/-- The end of an entry: what the guest that has run leaves takes its place in the world. -/
lemma Idle.left_of_lent (hw : w.Idle) (hl : Lent k w w') {outcome : Except Trap Unit} {code : γ}
    (hrun : ((w.entry k v).program engine).run (w.entry k v).found = ((outcome, code), w'.running k)) :
    w'.left k outcome code = ((w.entry k v).termination engine,
      withCommunity (w.put k ((w.entry k v).guestAfter engine, (w.entry k v).hostAfter engine)) w) := by
  have hhost : (w'.running k).host.unbind = w'.host := by
    show { w'.host with guest := none } = w'.host
    rw [← hl.unattached]
  have henter : (w.entry k v).guest.enter engine (w.entry k v).name (w.entry k v).host =
      let (termination, process, host) := Instance.conclude outcome (w'.guests k).process w'.host
      (termination, ⟨code, process, (w'.guests k).memory, some termination⟩, host) := by
    rw [Instance.Entry.enter_of_run hrun, hhost]
    rfl
  have hguests (i : Instance γ) : Function.update w'.guests k i = Function.update w.guests k i := by
    funext j
    by_cases hj : j = k
    · rw [hj, Function.update_self, Function.update_self]
    · rw [Function.update_of_ne hj, Function.update_of_ne hj, hl.others j hj]
  rw [Instance.Entry.termination, Instance.Entry.guestAfter, Instance.Entry.hostAfter, henter]
  unfold left withGuest
  rw [← hw.unbound]
  simp only [hguests]
  rfl

/-- **A visit** in a world in which the host is bound to none is a visit in the community, and it unbinds the host. -/
theorem Idle.visit_eq (hw : w.Idle) (engine : Engine σ μ γ) (k : ι) (v : Visit) :
    visit engine k v w = Op.onPart World.toCommunity withCommunity (Community.visit engine k v) w := by
  by_cases ha : v.Admits (w.guests k)
  · have hentered := hw.lent_entered k v
    obtain ⟨hanswer, hrunning, -⟩ := run_of_bound ((w.entry k v).program engine) hentered.bound
    rw [running_entered] at hanswer hrunning
    have hends : Lent k w (run k ((w.entry k v).program engine) (w.entered k v)).2 :=
      hentered.trans (lent_stages _ hentered.bound hentered.unattached _ (run_mem_stages ..))
    have hvisit : visit engine k v w =
        let ((outcome, code), w') := run k ((w.entry k v).program engine) (w.entered k v)
        let (termination, w') := w'.left k outcome code
        .ok termination w' := if_pos ha
    rw [Op.onPart_of_ok (Community.visit_of_admits engine ha), hvisit]
    generalize run k ((w.entry k v).program engine) (w.entered k v) = result at hanswer hrunning hends
    obtain ⟨⟨outcome, code⟩, w'⟩ := result
    have hleft := hw.left_of_lent hends (Prod.ext hanswer.symm hrunning.symm)
    dsimp only at hleft ⊢
    rw [hleft]
  · rw [Op.onPart_of_error (Community.visit_of_not_admits engine ha)]
    exact if_neg ha

/-- The world after a visit. -/
lemma Idle.after_visit (hw : w.Idle) (engine : Engine σ μ γ) (k : ι) (v : Visit) :
    Op.after (visit engine k v) w =
      withCommunity (Op.after (Community.visit engine k v) w.toCommunity) w := by
  unfold Op.after
  rw [hw.visit_eq engine k v]
  unfold Op.onPart
  cases Community.visit engine k v w.toCommunity with
  | ok t c => rfl
  | error e c => rfl

/-- A visit leaves the host unbound, and all guests but its own as they were. -/
theorem Idle.visit (hw : w.Idle) (engine : Engine σ μ γ) (k : ι) (v : Visit) :
    (Op.after (World.visit engine k v) w).Idle ∧
      ∀ j ≠ k, (Op.after (World.visit engine k v) w).guests j = w.guests j := by
  rw [hw.after_visit]
  by_cases ha : v.Admits (w.guests k)
  · rw [Op.after_of_ok (Community.visit_of_admits engine ha)]
    refine ⟨⟨hw.unbound, Instance.Entry.guest_hostAfter⟩, ?_⟩
    intro j hj
    exact Community.guests_put_of_ne hj _ _
  · rw [Op.after_of_error (Community.visit_of_not_admits engine ha)]
    exact ⟨hw, fun _ _ => rfl⟩

/-- **All visits** go in a world as they go in its community, and leave the host unbound. -/
theorem Idle.afterVisits (hw : w.Idle) (engine : Engine σ μ γ) (visits : List (ι × Visit)) :
    (w.afterVisits engine visits).Idle ∧
      (w.afterVisits engine visits).toCommunity = w.toCommunity.afterVisits engine visits := by
  induction visits using List.reverseRecOn with
  | nil => exact ⟨hw, rfl⟩
  | append_singleton visits last ih =>
    obtain ⟨k, v⟩ := last
    obtain ⟨hidle, hcommunity⟩ := ih
    rw [afterVisits_concat, Community.afterVisits_concat, ← hcommunity]
    refine ⟨(hidle.visit engine k v).1, ?_⟩
    rw [hidle.after_visit]
    rfl

/-- A visit to guest `k` concerns this guest and the host. -/
structure Separates (engine : Engine σ μ γ) (k : ι) (v : Visit) (w : World ι γ) : Prop where
  /-- Before and after the visit the host is bound to none. -/
  idle : w.Idle
  idle_after : (Op.after (World.visit engine k v) w).Idle
  /-- While the code runs the host is bound to the guest, and the other guests are as they were. -/
  lent : ∀ u ∈ w.during engine k v, Lent k w u
  /-- The visit leaves them so. -/
  others (j : ι) : j ≠ k → (Op.after (World.visit engine k v) w).guests j = w.guests j
  /-- The calls of the code find the states that they find when the guest is run alone. -/
  states : v.Admits (w.guests k) →
    (w.during engine k v).map (running k) = ((w.entry k v).program engine).states (w.entry k v).found
  /-- The visit is one in the community. -/
  community : World.visit engine k v w =
    Op.onPart World.toCommunity withCommunity (Community.visit engine k v) w

lemma Idle.separates (hw : w.Idle) (engine : Engine σ μ γ) (k : ι) (v : Visit) : Separates engine k v w where
  idle := hw
  idle_after := (hw.visit engine k v).1
  lent := hw.lent_during
  others := (hw.visit engine k v).2
  states := during_of_admits
  community := hw.visit_eq engine k v

end World

open World

/-- **The memories of guests stay apart**, however often they are visited, whatever their code does and however it
ends: a visit touches no guest but its own, and all visits in a world are those of its community. -/
theorem memories_stay_apart (engine : Engine σ μ γ) {w : World ι γ} (hw : w.Idle) (visits : List (ι × Visit)) (k : ι)
    (v : Visit) :
    Separates engine k v (w.afterVisits engine visits) ∧
      (w.afterVisits engine visits).toCommunity = w.toCommunity.afterVisits engine visits := by
  obtain ⟨hidle, hcommunity⟩ := hw.afterVisits engine visits
  exact ⟨hidle.separates engine k v, hcommunity⟩

/-- A guest that marks its memory, writes to the terminal, and asks to be entered again. -/
def marking : Engine Unit Unit UInt8 := .ofGuest 0 fun _ mark =>
  .perform (.save 0 [mark]) fun _ => .perform (.fileWrite 1 0 0 0) fun _ =>
    .perform (.exit Interface.continueCode) fun _ => .done (.error ⟨"proc_exit", none⟩, mark)

/-- Two new guests with different marks. -/
def pair : World Bool UInt8 where
  guests k := { code := if k then 1 else 2, process := .new ["a"] "PWD=/" 1, memory := ⟨#[0], #[]⟩ }
  host := {}

/-- One guest has marked its memory, and then the other does. -/
theorem memories_stay_apart_pair : pair.Idle ∧
    ((pair.afterVisits marking [(true, .start)]).guests true).memory.bytes = #[1] ∧
    ((Op.after (visit marking false .start) (pair.afterVisits marking [(true, .start)])).guests false).memory.bytes =
      #[2] ∧
    ((Op.after (visit marking false .start) (pair.afterVisits marking [(true, .start)])).guests true).memory.bytes =
      #[1] := by
  have hidle : pair.Idle := ⟨rfl, rfl⟩
  have hmarked : ((pair.afterVisits marking [(true, .start)]).guests true).memory.bytes = #[1] := rfl
  obtain ⟨hseparates, -⟩ := memories_stay_apart marking hidle [(true, .start)] false .start
  refine ⟨hidle, hmarked, rfl, ?_⟩
  rw [hseparates.others true (by decide)]
  exact hmarked

end ToolchainHost
