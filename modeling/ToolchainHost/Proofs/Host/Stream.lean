import ToolchainHost.Proofs.Host.Input

/-!
# Standard input as a stream

The page delivers payloads into a mailbox, and a worker reads what was delivered. They share the mailbox alone, and
each touches it in one step, under its lock: the page at a delivery, the worker where it takes a payload. Whatever
else a read does is the worker's own, so that deliveries may come between any two of its steps.

* `Exchange.Step`, `Exchange.Runs`: the page and the worker, each acting when it likes.
* `Exchange.Coherent`: what a step preserves.
* `runs_of_read`: a read in one piece is such a run.
* `input_is_stream`: nothing that was delivered is lost, doubled or put in another place.
-/

namespace ToolchainHost

/-- A read of a guest from standard input. -/
structure Reading where
  /-- The worker as the call found it. -/
  entry : Host
  /-- The memory of the guest at that time. -/
  memory : Memory
  list : Nat
  count : Nat
  out : Nat
  segments : List Segment
  /-- The payload that was received for it, if one was asked for. -/
  payload : List UInt8 := []

namespace Reading

/-- The call is one that can be made: a guest is bound, and it has the segment list. -/
structure Made (r : Reading) : Prop where
  guest : r.entry.guest = some r.memory
  segments : Host.segmentsAt r.memory r.list r.count = .ok r.segments

/-- The bytes that the segments of the call can hold. -/
def capacity (r : Reading) : Nat := Segment.total r.segments

/-- The input that is there for the call. -/
def available (r : Reading) : List UInt8 := if r.entry.pending = [] then r.payload else r.entry.pending

/-- The bytes that the call hands to the guest. -/
def moved (r : Reading) : List UInt8 := r.available.take r.capacity

/-- The worker once there is input for the call. -/
def supplied (r : Reading) : Host := r.entry.supplied r.payload

lemma supplied_pending (r : Reading) : r.supplied.pending = r.available := by
  unfold supplied Host.supplied available
  split_ifs
  · rfl
  · rfl

/-- What a call that returns `n` has done: all that the guest and the page can see of it. -/
structure Served (r : Reading) (n : Nat) (exit : Host) : Prop where
  /-- The result is as much as both the segments can hold and the input offers. -/
  returned : n = min r.capacity r.available.length
  /-- The same number is stored for the guest. -/
  stored : ∃ m, exit.guest = some m ∧ m.InRange r.out 4 ∧ Bytes.toNat (m.span r.out 4) = n
  /-- The first bytes of the input lie in the segments, in order, and nothing else of the memory has changed. -/
  placed : exit.guest = some ((Host.scattered r.memory r.segments r.moved).put r.out (Bytes.ofNat 4 n))
  /-- Segments that share no byte, neither with each other nor with the place of the result, hold these bytes. -/
  found : Host.Apart (⟨r.out, 4⟩ :: r.segments) →
    ∃ m, exit.guest = some m ∧ (Host.gathered m r.segments).take n = r.moved
  /-- The others wait for the next call. -/
  left : exit.pending = r.available.drop r.capacity
  /-- The page is asked once if no input was pending, and not at all otherwise. -/
  requests : exit.events = r.entry.events ++ if r.entry.pending = [] then [.readStdinRequest] else []
  /-- The call in one piece does the same. -/
  atomic : ∀ stdin stdin', r.entry.Supplies stdin r.payload stdin' →
    Host.read 0 r.list r.count r.out (r.entry.attach stdin) = .ok n (exit.attach stdin')

/-- A read of which the second half succeeds has served its guest. -/
theorem Made.served {r : Reading} (hr : r.Made) {n : Nat} {exit : Host}
    (hx : Host.settle r.segments r.out r.supplied = .ok n exit) : r.Served n exit := by
  have hg : r.supplied.guest = some r.memory := (Host.supplied_guest ..).trans hr.guest
  have hatomic (stdin stdin' : Stdin) (hb : r.entry.Supplies stdin r.payload stdin') :
      Host.read 0 r.list r.count r.out (r.entry.attach stdin) = .ok n (exit.attach stdin') :=
    Host.read_eq_ok.2 ⟨r.memory, r.segments, r.payload, stdin', hr.guest, hr.segments, hb,
      (Host.settle_attach hg stdin').2 ⟨exit, hx, rfl⟩⟩
  obtain ⟨⟨hf, hout⟩, hn, hlt, rfl⟩ := (Host.settle_eq_ok hg).1 hx
  rw [supplied_pending] at hf
  rw [Host.moved, supplied_pending] at hn
  have hmin : n = min r.capacity r.available.length := hn.trans List.length_take
  have hguest : r.supplied.answered r.memory r.segments r.out =
      (Host.scattered r.memory r.segments r.available).put r.out (Bytes.ofNat 4 n) := by
    rw [Host.answered, Host.moved, supplied_pending, hn]
  have hinRange : (Host.scattered r.memory r.segments r.available).InRange r.out (Bytes.ofNat 4 n).length := by
    rw [Bytes.length_ofNat, Memory.InRange, Host.size_scattered]
    exact hout
  refine ⟨hmin, ⟨_, congrArg some hguest, ?_, ?_⟩, ?_, ?_, ?_, ?_, hatomic⟩
  · rw [Memory.InRange, Memory.size_put, Host.size_scattered]
    exact hout
  · have hspan := Memory.span_put_self hinRange
    rw [Bytes.length_ofNat] at hspan
    rw [hspan, Bytes.toNat_ofNat]
    exact Nat.mod_eq_of_lt hlt
  · rw [moved, capacity, Host.scattered_take]
    exact congrArg some hguest
  · intro ha
    obtain ⟨hapart, ha⟩ := List.pairwise_cons.1 ha
    refine ⟨_, congrArg some hguest, ?_⟩
    rw [Host.gathered_put_of_apart (by rwa [Bytes.length_ofNat]), hmin, ← List.take_take,
      Host.gathered_scattered hf ha, List.take_take]
    exact congrArg (r.available.take ·) (Nat.min_self _)
  · show r.supplied.pending.drop _ = _
    rw [supplied_pending]
    rfl
  · exact Host.supplied_events ..

end Reading

/-- How far the worker is with its read. -/
inductive Phase where
  | idle
  | waiting (r : Reading)
  | moving (r : Reading)

/-- The worker, the mailbox, and the read that is under way. -/
structure Exchange where
  worker : Host
  mailbox : Mailbox
  phase : Phase := .idle

/-- What a step of an exchange did. -/
inductive Move where
  | silent
  | accepted (payload : List UInt8)
  | returned (r : Reading) (n : Nat) (exit : Host)

namespace Move

/-- The bytes that the mailbox accepted. -/
def delivery : Move → List UInt8
  | accepted payload => payload
  | _ => []

/-- The bytes that were placed into segments. -/
def placement : Move → List UInt8
  | returned r _ _ => r.moved
  | _ => []

end Move

namespace Exchange

/-- The page or the worker acts. -/
inductive Step : Exchange → Move → Exchange → Prop
  /-- The page delivers a payload. -/
  | deliver {e : Exchange} {b : Mailbox} {payload : List UInt8} (h : e.mailbox.deliver payload = .ok b) :
      Step e (.accepted payload) { e with mailbox := b }
  /-- The page tries to. -/
  | refuse {e : Exchange} {payload : List UInt8} {f : Failure} (h : e.mailbox.deliver payload = .error f) :
      Step e .silent e
  /-- The guest runs between two calls, or another guest does. -/
  | run {w : Host} {b : Mailbox} (m : Memory) : Step ⟨w, b, .idle⟩ .silent ⟨w.bind m, b, .idle⟩
  /-- A read finds pending input. -/
  | call {b : Mailbox} {r : Reading} (h : r.Made) (hp : r.entry.pending ≠ []) (hn : r.payload = []) :
      Step ⟨r.entry, b, .idle⟩ .silent ⟨r.entry, b, .moving r⟩
  /-- A read finds none, and asks the page. -/
  | ask {b : Mailbox} {r : Reading} (h : r.Made) (hp : r.entry.pending = []) :
      Step ⟨r.entry, b, .idle⟩ .silent ⟨r.entry.post .readStdinRequest, b, .waiting r⟩
  /-- A read that waits takes the payload. -/
  | wake {w : Host} {b b' : Mailbox} {r : Reading} {payload : List UInt8} (h : b.receive = some (payload, b')) :
      Step ⟨w, b, .waiting r⟩ .silent
        ⟨{ w with pending := w.pending ++ payload }, b', .moving { r with payload }⟩
  /-- A read moves input to the guest and returns. -/
  | finish {w w' : Host} {b : Mailbox} {r : Reading} {n : Nat} (h : Host.settle r.segments r.out w = .ok n w') :
      Step ⟨w, b, .moving r⟩ (.returned r n w') ⟨w', b, .idle⟩

/-- The steps of a run, in order. -/
inductive Runs (e : Exchange) : List Move → Exchange → Prop
  | nil : Runs e [] e
  | snoc {moves : List Move} {move : Move} {e' e'' : Exchange} (h : Runs e moves e') (hs : Step e' move e'') :
      Runs e (moves ++ [move]) e''

/-- The worker is where the read that is under way has left it. -/
def Coherent (e : Exchange) : Prop :=
  match e.phase with
  | .idle => True
  | .waiting r => r.Made ∧ r.entry.pending = [] ∧ e.worker = r.entry.post .readStdinRequest
  | .moving r => r.Made ∧ e.worker = r.supplied

/-- The bytes that have arrived and that no guest has. -/
def held (e : Exchange) : List UInt8 := e.worker.pending ++ e.mailbox.waiting

variable {e e' : Exchange} {move : Move} {moves : List Move}

/-- **A step** leaves the worker coherent, and puts the bytes it places before those that are held, those it accepts
behind them. A call that returns has served its guest. -/
theorem Step.preserves (hs : Step e move e') (hc : e.Coherent) :
    e'.Coherent ∧ move.placement ++ e'.held = e.held ++ move.delivery ∧
      ∀ r n exit, move = .returned r n exit → r.Served n exit := by
  cases hs with
  | deliver h =>
    obtain ⟨hempty, hfull⟩ := Mailbox.waiting_deliver h
    refine ⟨hc, ?_, by rintro r n exit ⟨⟩⟩
    simp [held, Move.placement, Move.delivery, hempty, hfull]
  | refuse h => exact ⟨hc, (List.append_nil _).symm, by rintro r n exit ⟨⟩⟩
  | run m => exact ⟨trivial, (List.append_nil _).symm, by rintro r n exit ⟨⟩⟩
  | call h hp hn =>
    refine ⟨⟨h, ?_⟩, (List.append_nil _).symm, by rintro r n exit ⟨⟩⟩
    exact (Host.supplied_of_pending hp _).symm
  | ask h hp => exact ⟨⟨h, hp, rfl⟩, (List.append_nil _).symm, by rintro r n exit ⟨⟩⟩
  | @wake w b b' r payload h =>
    obtain ⟨hmade, hp, hw⟩ := hc
    obtain ⟨htaken, hempty⟩ := Mailbox.waiting_receive h
    have hw : w = r.entry.post .readStdinRequest := hw
    have hpending : w.pending = [] := hw ▸ hp
    refine ⟨⟨⟨hmade.guest, hmade.segments⟩, ?_⟩, ?_, by rintro r n exit ⟨⟩⟩
    · show { w with pending := w.pending ++ payload } = r.entry.supplied payload
      rw [Host.supplied_of_empty hp, hpending, hw, List.nil_append]
    · simp [held, Move.placement, Move.delivery, hempty, hpending, htaken]
  | @finish w w' b r n h =>
    obtain ⟨hmade, hw⟩ := hc
    have hw : w = r.supplied := hw
    subst hw
    have hserved := hmade.served h
    refine ⟨trivial, ?_, ?_⟩
    · show r.moved ++ (w'.pending ++ b.waiting) = r.supplied.pending ++ b.waiting ++ []
      rw [hserved.left, r.supplied_pending, List.append_nil, ← List.append_assoc, Reading.moved,
        List.take_append_drop]
    · rintro r' n' exit ⟨⟩
      exact hserved

/-- **A run** places and holds what it accepts, in order, and serves every call that returns. -/
theorem Runs.preserves (hr : Runs e moves e') (hc : e.Coherent) :
    e'.Coherent ∧ moves.flatMap Move.placement ++ e'.held = e.held ++ moves.flatMap Move.delivery ∧
      ∀ r n exit, .returned r n exit ∈ moves → r.Served n exit := by
  induction hr with
  | nil => exact ⟨hc, (List.append_nil _).symm, by rintro r n exit ⟨⟩⟩
  | snoc hr hs ih =>
    obtain ⟨hc', hbytes, hserved⟩ := ih
    obtain ⟨hc'', hstep, hlast⟩ := hs.preserves hc'
    refine ⟨hc'', ?_, ?_⟩
    · simp only [List.flatMap_append, List.flatMap_singleton, List.append_assoc]
      rw [hstep, ← List.append_assoc, hbytes, List.append_assoc]
    · intro r n exit hm
      obtain hm | hm := List.mem_append.1 hm
      · exact hserved r n exit hm
      · exact hlast r n exit (List.mem_singleton.1 hm).symm

end Exchange

/-! ### Reads in one piece -/

/-- **A read in one piece** is a run, with at most one delivery that it waits for. -/
theorem runs_of_read {w h' : Host} {stdin : Stdin} {list count out n : Nat}
    (hx : Host.read 0 list count out (w.attach stdin) = .ok n h') :
    ∃ moves r w' stdin', h' = w'.attach stdin' ∧
      moves.flatMap Move.delivery ++ stdin'.arrivals.flatten = stdin.arrivals.flatten ∧
      Exchange.Runs { worker := w, mailbox := stdin.mailbox } (moves ++ [.returned r n w'])
        { worker := w', mailbox := stdin'.mailbox } := by
  obtain ⟨m, segments, payload, stdin', hg, hs, hb, hsettle⟩ := Host.read_eq_ok.1 hx
  obtain ⟨w', hsettled, rfl⟩ := (Host.settle_attach ((Host.supplied_guest ..).trans hg) stdin').1 hsettle
  have hmade : Reading.Made ⟨w, m, list, count, out, segments, []⟩ := ⟨hg, hs⟩
  by_cases hp : w.pending = []
  · have hask (b : Mailbox) := Exchange.Step.ask (b := b) hmade hp
    have hpending : { w.post .readStdinRequest with pending := (w.post .readStdinRequest).pending ++ payload } =
        w.supplied payload := by
      rw [Host.supplied_of_empty hp]
      exact congrArg (fun bytes => { w.post .readStdinRequest with pending := bytes ++ payload }) hp
    have hwake {b : Mailbox} (hr : b.receive = some (payload, stdin'.mailbox)) := Exchange.Step.wake
      (w := w.post .readStdinRequest) (r := ⟨w, m, list, count, out, segments, []⟩) hr
    rw [hpending] at hwake
    obtain ⟨hr, ha⟩ | ⟨ha, b, hd, hr⟩ := Stdin.wait_eq_ok ((Host.supplies_of_empty hp).1 hb)
    · exact ⟨[.silent, .silent], _, w', stdin', rfl, congrArg List.flatten ha,
        .snoc (.snoc (.snoc .nil (hask _)) (hwake hr)) (.finish hsettled)⟩
    · refine ⟨[.silent, .accepted payload, .silent], _, w', stdin', rfl, ?_,
        .snoc (.snoc (.snoc (.snoc .nil (hask _)) (.deliver hd)) (hwake hr)) (.finish hsettled)⟩
      simp [Move.delivery, ha]
  · obtain rfl := (Host.supplies_of_pending hp).1 hb
    rw [Host.supplied_of_pending hp] at hsettled
    exact ⟨[.silent], _, w', stdin', rfl, rfl, .snoc (.snoc .nil (.call hmade hp rfl)) (.finish hsettled)⟩

/-- **Standard input is a stream.** At any time, the bytes that were placed into the segments of guests, the bytes that
the worker has kept and the payload in the mailbox are together what the mailbox has accepted, in order. Every read
that has returned served its guest. -/
theorem input_is_stream {w : Host} {capacity : Nat} {moves : List Move} {e : Exchange} (hw : w.pending = [])
    (hr : Exchange.Runs { worker := w, mailbox := .ofCapacity capacity } moves e) :
    moves.flatMap Move.placement ++ e.worker.pending ++ e.mailbox.waiting = moves.flatMap Move.delivery ∧
      ∀ r n exit, .returned r n exit ∈ moves → r.Served n exit := by
  obtain ⟨-, hbytes, hserved⟩ := hr.preserves trivial
  refine ⟨?_, hserved⟩
  rw [Exchange.held, Exchange.held, hw, Mailbox.waiting_ofCapacity] at hbytes
  rwa [List.append_assoc]

/-- A guest waits for input and reads two of three bytes. -/
theorem input_is_stream_short : ∃ moves e,
    Exchange.Runs ⟨{ guest := some ⟨#[12, 0, 0, 0, 2, 0, 0, 0, 0, 0, 0, 0, 0, 0], #[]⟩ }, .ofCapacity 3, .idle⟩ moves e ∧
      moves.flatMap Move.placement = [1, 2] ∧ e.worker.pending = [3] ∧
      moves.flatMap Move.placement ++ e.worker.pending ++ e.mailbox.waiting = moves.flatMap Move.delivery := by
  have hmade : Reading.Made ⟨{ guest := some ⟨#[12, 0, 0, 0, 2, 0, 0, 0, 0, 0, 0, 0, 0, 0], #[]⟩ },
      ⟨#[12, 0, 0, 0, 2, 0, 0, 0, 0, 0, 0, 0, 0, 0], #[]⟩, 0, 1, 8, [⟨12, 2⟩], []⟩ := ⟨rfl, rfl⟩
  have hasked := Exchange.Runs.nil.snoc (.ask (b := .ofCapacity 3) hmade rfl)
  have hdelivered := hasked.snoc (.deliver (show Mailbox.deliver (.ofCapacity 3) [1, 2, 3] = .ok _ from rfl))
  have hwoken := hdelivered.snoc (.wake rfl)
  have hrun := hwoken.snoc <| .finish <| (Host.settle_eq_ok rfl).2
    ⟨⟨Or.inr ⟨by decide, trivial⟩, by decide⟩, rfl, by decide, rfl⟩
  exact ⟨_, _, hrun, rfl, rfl, (input_is_stream rfl hrun).1⟩

end ToolchainHost
