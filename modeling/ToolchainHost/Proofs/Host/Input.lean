import ToolchainHost.Proofs.Host.Segments

/-!
# Reading standard input

* `Mailbox.waiting`: the payload in a mailbox. Only an empty mailbox accepts one, and it is taken as a whole.
* `Host.scatter_eq_ok`, `Host.settle_eq_ok`: which bytes a read moves, where to, and when it succeeds.
* `Host.read_eq_settle`: a read sees to input, and then moves it.
* `Host.gathered_scattered`: what was laid over segments is found there again.
-/

namespace ToolchainHost

lemma Word.add_eq_ok {a b c : Nat} : add a b = .ok c ↔ a + b < count ∧ c = a + b := by
  unfold add
  split_ifs with h <;> simp [h, eq_comm]

namespace Mailbox

variable {b b' : Mailbox} {payload : List UInt8}

/-- The payload that waits to be taken. -/
def waiting (b : Mailbox) : List UInt8 := if b.signalled then b.region.take b.length else []

lemma waiting_of_not (h : b.signalled = false) : b.waiting = [] := by simp [waiting, h]

@[simp] lemma waiting_ofCapacity (capacity : Nat) : (ofCapacity capacity).waiting = [] := rfl

/-- Only an empty mailbox accepts a payload, which then waits in it. -/
lemma waiting_deliver (h : b.deliver payload = .ok b') : b.waiting = [] ∧ b'.waiting = payload := by
  unfold deliver at h
  split_ifs at h with hs hc
  cases h
  refine ⟨waiting_of_not (Bool.eq_false_iff.2 hs), ?_⟩
  simp [waiting]

/-- A payload that was accepted can be taken. -/
lemma receive_deliver (h : b.deliver payload = .ok b') : ∃ b'', b'.receive = some (payload, b'') := by
  unfold deliver at h
  split_ifs at h
  cases h
  simp [receive]

/-- What is taken is what waits, all of it. -/
lemma waiting_receive (h : b.receive = some (payload, b')) : payload = b.waiting ∧ b'.waiting = [] := by
  unfold receive at h
  split_ifs at h with hs
  cases h
  exact ⟨by simp [waiting, hs], rfl⟩

end Mailbox

namespace Stdin

/-- A wait ends with the payload in the mailbox, or with the next that is delivered. -/
lemma wait_eq_ok {s s' : Stdin} {payload : List UInt8} (h : s.wait = (.ok payload, s')) :
    s.mailbox.receive = some (payload, s'.mailbox) ∧ s'.arrivals = s.arrivals ∨
      s.arrivals = payload :: s'.arrivals ∧
        ∃ b, s.mailbox.deliver payload = .ok b ∧ b.receive = some (payload, s'.mailbox) := by
  unfold wait at h
  cases hr : s.mailbox.receive with
  | some taken =>
    rw [hr] at h
    cases h
    exact Or.inl ⟨rfl, rfl⟩
  | none =>
    cases ha : s.arrivals with
    | nil => simp [hr, ha] at h
    | cons next arrivals =>
      cases hd : s.mailbox.deliver next with
      | error e => simp [hr, ha, hd] at h
      | ok b =>
        obtain ⟨b', hb⟩ := Mailbox.receive_deliver hd
        simp only [hr, ha, hd, hb, Prod.mk.injEq, Except.ok.injEq] at h
        obtain ⟨rfl, rfl⟩ := h
        exact Or.inr ⟨rfl, b, hd, hb⟩

end Stdin

namespace Host

variable {h h' w w' : Host} {m : Memory} {s : Segment} {segments rest : List Segment} {data : List UInt8}
  {list count out total n address : Nat} {stdin : Stdin}

/-! ### Moving input to a guest -/

lemma guestMemory_eq_ok : guestMemory h = .ok m h' ↔ h.guest = some m ∧ h' = h := by
  rw [guestMemory, Op.get_bind_apply, Op.lift_eq_ok]
  cases hg : h.guest <;> simp [attachedGuest, eq_comm]

lemma writeGuest_eq_ok (hg : h.guest = some m) :
    writeGuest address data h = .ok ⟨⟩ h' ↔ m.InRange address data.length ∧ h' = h.bind (m.put address data) := by
  rw [writeGuest, Op.bind_of_ok (guestMemory_eq_ok.2 ⟨hg, rfl⟩)]
  by_cases hr : m.InRange address data.length
  · rw [Memory.write_of_inRange hr, Op.lift_ok_bind, Op.modify_apply]
    constructor
    · rintro ⟨⟩
      exact ⟨hr, rfl⟩
    · rintro ⟨-, rfl⟩
      rfl
  · rw [Memory.write_of_not_inRange hr, Op.lift_error_bind]
    constructor
    · rintro ⟨⟩
    · rintro ⟨hr', -⟩
      exact absurd hr' hr

lemma writeGuest_of_not_inRange (hg : h.guest = some m) (hr : ¬ m.InRange address data.length) :
    writeGuest address data h = .error (m.refusal address data.length) h := by
  rw [writeGuest, Op.bind_of_ok (guestMemory_eq_ok.2 ⟨hg, rfl⟩), Memory.write_of_not_inRange hr, Op.lift_error_bind]

/-- The guest has the places that data is put to when it is laid over segments. -/
def Fits (m : Memory) : List Segment → List UInt8 → Prop
  | [], _ => True
  | s :: rest, data =>
    data = [] ∨ m.InRange s.address (data.take s.length).length ∧ Fits m rest (data.drop s.length)

lemma fits_put {d : List UInt8} : Fits (m.put address d) segments data ↔ Fits m segments data := by
  induction segments generalizing data with
  | nil => rfl
  | cons s rest ih => simp only [Fits, Memory.InRange, Memory.size_put, ih]

lemma size_scattered (m : Memory) (segments : List Segment) (data : List UInt8) :
    (scattered m segments data).size = m.size := by
  induction segments generalizing m data with
  | nil => rfl
  | cons s rest ih => rw [scattered, ih, Memory.size_put]

/-- What does not fit the segments is not laid over them. -/
lemma scattered_take (m : Memory) (segments : List Segment) (data : List UInt8) :
    scattered m segments (data.take (Segment.total segments)) = scattered m segments data := by
  induction segments generalizing m data with
  | nil => rfl
  | cons s rest ih =>
    have hfirst : min s.length (s.length + Segment.total rest) = s.length := by omega
    rw [Segment.total, scattered, scattered, List.take_take, hfirst, List.drop_take, Nat.add_sub_cancel_left, ih]

/-- The bytes that move where input is laid over segments. -/
def moved (h : Host) (segments : List Segment) : List UInt8 := h.pending.take (Segment.total segments)

/-- The host after input was laid over segments of the guest. -/
def dealt (h : Host) (m : Memory) (segments : List Segment) : Host :=
  { h with pending := h.pending.drop (Segment.total segments), guest := some (scattered m segments h.pending) }

lemma moved_of_empty (hp : h.pending = []) (segments : List Segment) : h.moved segments = [] := by
  rw [moved, hp, List.take_nil]

lemma dealt_of_empty (hg : h.guest = some m) (hp : h.pending = []) (segments : List Segment) :
    h.dealt m segments = h := by
  rw [dealt, hp, scattered_nil, List.drop_nil, ← hp, ← hg]

/-- The first segment takes what it can hold, and those behind it share the rest. -/
lemma moved_cons (h : Host) (s : Segment) (rest : List Segment) :
    h.moved (s :: rest) =
      h.pending.take s.length ++ { h with pending := h.pending.drop s.length }.moved rest := by
  rw [moved, Segment.total, List.take_add, moved]

lemma dealt_cons (h : Host) (m : Memory) (s : Segment) (rest : List Segment) :
    h.dealt m (s :: rest) =
      { h with pending := h.pending.drop s.length }.dealt (m.put s.address (h.pending.take s.length)) rest := by
  rw [dealt, scattered, Segment.total, dealt, List.drop_drop]

/-- **Scattering** moves the first of the pending bytes, as many as the segments can hold, and leaves the others. -/
theorem scatter_eq_ok (hg : h.guest = some m) (ht : total < Word.count) :
    scatter segments total h = .ok n h' ↔ Fits m segments h.pending ∧ n = total + (h.moved segments).length ∧
      n < Word.count ∧ h' = h.dealt m segments := by
  induction segments generalizing h m total with
  | nil =>
    have hd : h.dealt m [] = h := by rw [dealt, scattered, ← hg]; rfl
    rw [scatter, Op.pure_apply, hd, moved, Segment.total]
    constructor
    · rintro ⟨⟩
      exact ⟨trivial, rfl, ht, rfl⟩
    · rintro ⟨-, rfl, -, rfl⟩
      rfl
  | cons s rest ih =>
    rw [scatter, Op.get_bind_apply]
    by_cases hp : h.pending = []
    · rw [if_pos hp, Op.pure_apply, dealt_of_empty hg hp, moved_of_empty hp, Fits]
      constructor
      · rintro ⟨⟩
        exact ⟨Or.inl hp, rfl, ht, rfl⟩
      · rintro ⟨-, rfl, -, rfl⟩
        rfl
    · have hleft : { h with pending := h.pending.drop s.length }.guest = some m := hg
      rw [if_neg hp, Op.set_bind_apply, moved_cons, dealt_cons, List.length_append, Fits]
      constructor
      · intro hx
        obtain ⟨u, h1, hw, hx⟩ := Op.bind_eq_ok.1 hx
        obtain ⟨hr, rfl⟩ := (writeGuest_eq_ok hleft).1 hw
        obtain ⟨sum, h2, hsum, hx⟩ := Op.bind_eq_ok.1 hx
        obtain ⟨hadd, rfl⟩ := Op.lift_eq_ok.1 hsum
        obtain ⟨hlt, rfl⟩ := Word.add_eq_ok.1 hadd
        obtain ⟨hf, hn, hlt, hh⟩ := (ih rfl hlt).1 hx
        exact ⟨Or.inr ⟨hr, fits_put.1 hf⟩, hn.trans (Nat.add_assoc ..), hlt, hh⟩
      · rintro ⟨hf, hn, hlt, hh⟩
        obtain hnil | ⟨hr, hf⟩ := hf
        · exact absurd hnil hp
        · have hadd : total + (h.pending.take s.length).length < Word.count := by omega
          rw [Op.bind_of_ok ((writeGuest_eq_ok hleft).2 ⟨hr, rfl⟩), Word.add_of_lt hadd, Op.lift_ok_bind]
          exact (ih rfl hadd).2 ⟨fits_put.2 hf, hn.trans (Nat.add_assoc ..).symm, hlt, hh⟩

/-- The second half of a read: input is moved to the guest, and their number is stored. -/
def settle (segments : List Segment) (out : Nat) : Op Host Nat := do
  let total ← scatter segments 0
  writeGuest out (Bytes.ofNat 4 total)
  return total

/-- The memory of a guest that has read. -/
def answered (h : Host) (m : Memory) (segments : List Segment) (out : Nat) : Memory :=
  (scattered m segments h.pending).put out (Bytes.ofNat 4 (h.moved segments).length)

theorem settle_eq_ok (hg : h.guest = some m) :
    settle segments out h = .ok n h' ↔ (Fits m segments h.pending ∧ m.InRange out 4) ∧
      n = (h.moved segments).length ∧ n < Word.count ∧
      h' = (h.dealt m segments).bind (h.answered m segments out) := by
  have hout : (scattered m segments h.pending).InRange out (Bytes.ofNat 4 n).length ↔ m.InRange out 4 := by
    rw [Bytes.length_ofNat, Memory.InRange, size_scattered, Memory.InRange]
  have hzero : 0 + (h.moved segments).length = (h.moved segments).length := Nat.zero_add _
  rw [settle]
  constructor
  · intro hx
    obtain ⟨total, h1, hs, hx⟩ := Op.bind_eq_ok.1 hx
    obtain ⟨hf, hn, hlt, rfl⟩ := (scatter_eq_ok hg (by decide)).1 hs
    obtain ⟨u, h2, hw, hx⟩ := Op.bind_eq_ok.1 hx
    obtain ⟨hr, rfl⟩ := (writeGuest_eq_ok rfl).1 hw
    cases hx
    rw [hzero] at hn
    exact ⟨⟨hf, hout.1 hr⟩, hn, hlt, by rw [answered, hn]⟩
  · rintro ⟨⟨hf, hr⟩, hn, hlt, rfl⟩
    rw [Op.bind_of_ok ((scatter_eq_ok hg (by decide)).2 ⟨hf, hn.trans hzero.symm, hlt, rfl⟩),
      Op.bind_of_ok ((writeGuest_eq_ok rfl).2 ⟨hout.2 hr, rfl⟩), answered, hn]
    rfl

/-! ### A read in one piece -/

/-- The host with deliveries to read from. -/
def attach (h : Host) (stdin : Stdin) : Host := { h with stdin := some stdin }

/-- Moving input does not depend on the deliveries. -/
lemma settle_attach (hg : w.guest = some m) (stdin : Stdin) :
    settle segments out (w.attach stdin) = .ok n h' ↔
      ∃ w', settle segments out w = .ok n w' ∧ h' = w'.attach stdin := by
  rw [settle_eq_ok (h := w.attach stdin) hg]
  constructor
  · rintro ⟨hf, hn, hlt, rfl⟩
    exact ⟨_, (settle_eq_ok hg).2 ⟨hf, hn, hlt, rfl⟩, rfl⟩
  · rintro ⟨w', hx, rfl⟩
    obtain ⟨hf, hn, hlt, rfl⟩ := (settle_eq_ok hg).1 hx
    exact ⟨hf, hn, hlt, rfl⟩

/-- The host once there is input for a read that found it: if none was pending, the page was asked and has sent a
payload. -/
def supplied (h : Host) (payload : List UInt8) : Host :=
  if h.pending = [] then { h.post .readStdinRequest with pending := payload } else h

lemma supplied_of_empty (hp : h.pending = []) (payload : List UInt8) :
    h.supplied payload = { h.post .readStdinRequest with pending := payload } := if_pos hp

lemma supplied_of_pending (hp : h.pending ≠ []) (payload : List UInt8) : h.supplied payload = h := if_neg hp

lemma supplied_guest (h : Host) (payload : List UInt8) : (h.supplied payload).guest = h.guest := by
  unfold supplied
  split_ifs
  · rfl
  · rfl

lemma supplied_events (h : Host) (payload : List UInt8) :
    (h.supplied payload).events = h.events ++ if h.pending = [] then [.readStdinRequest] else [] := by
  unfold supplied
  split_ifs
  · rfl
  · exact (List.append_nil _).symm

/-- What the deliveries give a host that reads, and what remains of them: a payload if nothing was pending. -/
def Supplies (h : Host) (stdin : Stdin) (payload : List UInt8) (stdin' : Stdin) : Prop :=
  if h.pending = [] then stdin.wait = (.ok payload, stdin') else stdin' = stdin

lemma receive_eq_ok (hp : w.pending = []) :
    receive (w.attach stdin) = .ok ⟨⟩ h' ↔
      ∃ payload stdin', stdin.wait = (.ok payload, stdin') ∧ h' = (w.supplied payload).attach stdin' := by
  have hsupplied (payload : List UInt8) (stdin' : Stdin) :
      { { (w.attach stdin).post .readStdinRequest with stdin := some stdin' } with
        pending := w.pending ++ payload } = (w.supplied payload).attach stdin' := by
    rw [supplied_of_empty hp, hp]
    rfl
  rw [receive, Op.get_bind_apply, attach]
  dsimp only
  rw [Op.modify_bind_apply]
  rcases hw : stdin.wait with ⟨payload | payload, stdin'⟩
  · simp
  · rw [Op.lift_ok_bind, Op.modify_apply]
    constructor
    · rintro ⟨⟩
      exact ⟨payload, stdin', rfl, hsupplied payload stdin'⟩
    · rintro ⟨payload, stdin', ⟨⟩, rfl⟩
      exact congrArg _ (hsupplied payload stdin')

lemma supplies_of_empty {payload : List UInt8} {stdin' : Stdin} (hp : w.pending = []) :
    w.Supplies stdin payload stdin' ↔ stdin.wait = (.ok payload, stdin') := by rw [Supplies, if_pos hp]

lemma supplies_of_pending {payload : List UInt8} {stdin' : Stdin} (hp : w.pending ≠ []) :
    w.Supplies stdin payload stdin' ↔ stdin' = stdin := by rw [Supplies, if_neg hp]

/-- A read that finds input moves it. -/
lemma read_of_pending (hg : h.guest = some m) (hs : segmentsAt m list count = .ok segments) (hp : h.pending ≠ [])
    (out : Nat) : read 0 list count out h = settle segments out h := by
  rw [read]
  simp only [ne_eq, not_true_eq_false, if_false]
  rw [Op.bind_of_ok (guestMemory_eq_ok.2 ⟨hg, rfl⟩), hs, Op.lift_ok_bind, Op.get_bind_apply, if_neg hp]
  rfl

/-- A read that finds none sees to it first. -/
lemma read_of_empty (hg : h.guest = some m) (hs : segmentsAt m list count = .ok segments) (hp : h.pending = [])
    (out : Nat) : read 0 list count out h = (receive >>= fun _ => settle segments out) h := by
  rw [read]
  simp only [ne_eq, not_true_eq_false, if_false]
  rw [Op.bind_of_ok (guestMemory_eq_ok.2 ⟨hg, rfl⟩), hs, Op.lift_ok_bind, Op.get_bind_apply, if_pos hp]
  rfl

/-- **A read** decodes its segments, sees to input and moves it. -/
theorem read_eq_ok :
    read 0 list count out (w.attach stdin) = .ok n h' ↔ ∃ m segments payload stdin', w.guest = some m ∧
      segmentsAt m list count = .ok segments ∧ w.Supplies stdin payload stdin' ∧
      settle segments out ((w.supplied payload).attach stdin') = .ok n h' := by
  constructor
  · intro hx
    have hread := hx
    rw [read] at hread
    simp only [ne_eq, not_true_eq_false, if_false] at hread
    obtain ⟨m, h1, hm, hread⟩ := Op.bind_eq_ok.1 hread
    obtain ⟨hg, rfl⟩ := guestMemory_eq_ok.1 hm
    obtain ⟨segments, h2, hlist, -⟩ := Op.bind_eq_ok.1 hread
    obtain ⟨hs, -⟩ := Op.lift_eq_ok.1 hlist
    by_cases hp : w.pending = []
    · rw [read_of_empty hg hs hp] at hx
      obtain ⟨u, h3, hr, hx⟩ := Op.bind_eq_ok.1 hx
      obtain ⟨payload, stdin', hwait, rfl⟩ := (receive_eq_ok hp).1 hr
      exact ⟨m, segments, payload, stdin', hg, hs, (supplies_of_empty hp).2 hwait, hx⟩
    · rw [read_of_pending hg hs hp] at hx
      exact ⟨m, segments, [], stdin, hg, hs, (supplies_of_pending hp).2 rfl, by rwa [supplied_of_pending hp]⟩
  · rintro ⟨m, segments, payload, stdin', hg, hs, hb, hx⟩
    have hg' : (w.attach stdin).guest = some m := hg
    by_cases hp : w.pending = []
    · rw [read_of_empty hg' hs hp,
        Op.bind_of_ok ((receive_eq_ok hp).2 ⟨payload, stdin', (supplies_of_empty hp).1 hb, rfl⟩)]
      exact hx
    · obtain rfl := (supplies_of_pending hp).1 hb
      rw [supplied_of_pending hp] at hx
      rwa [read_of_pending hg' hs hp]

/-! ### Where the bytes are -/

/-- Segments that share no byte. -/
def Apart (segments : List Segment) : Prop :=
  segments.Pairwise fun s t => s.address + s.length ≤ t.address ∨ t.address + t.length ≤ s.address

lemma gathered_put_of_apart {out : Nat} {d : List UInt8}
    (h : ∀ s ∈ segments, out + d.length ≤ s.address ∨ s.address + s.length ≤ out) (m : Memory) :
    gathered (m.put out d) segments = gathered m segments := by
  unfold gathered
  refine List.flatMap_congr fun s hs => ?_
  exact Memory.span_put_of_apart (h s hs).symm

lemma span_scattered_of_apart (h : ∀ t ∈ rest, s.address + s.length ≤ t.address ∨ t.address + t.length ≤ s.address)
    (m : Memory) (data : List UInt8) :
    (scattered m rest data).span s.address s.length = m.span s.address s.length := by
  induction rest generalizing m data with
  | nil => rfl
  | cons t rest ih =>
    have hlen : (data.take t.length).length ≤ t.length := List.length_take_le ..
    have ht := h t (List.mem_cons_self ..)
    rw [scattered, ih fun u hu => h u (List.mem_cons_of_mem _ hu)]
    exact Memory.span_put_of_apart (by omega)

/-- Data laid over segments that share no byte is found there again. -/
theorem gathered_scattered (hf : Fits m segments data) (ha : Apart segments) :
    (gathered (scattered m segments data) segments).take data.length = data.take (Segment.total segments) := by
  induction segments generalizing m data with
  | nil => rw [gathered, List.flatMap_nil, List.take_nil, Segment.total, List.take_zero]
  | cons s rest ih =>
    obtain ⟨hs, hrest⟩ := List.pairwise_cons.1 ha
    obtain rfl | ⟨hr, hf⟩ := hf
    · rw [List.length_nil, List.take_zero, List.take_nil]
    · have hspan := span_scattered_of_apart hs (m.put s.address (data.take s.length)) (data.drop s.length)
      have hih := ih (m := m.put s.address (data.take s.length)) (fits_put.2 hf) hrest
      have hfirst : (m.put s.address (data.take s.length)).span s.address (data.take s.length).length =
          data.take s.length := Memory.span_put_self hr
      rw [scattered, gathered, List.flatMap_cons, hspan, Segment.total, List.take_add, ← hih]
      by_cases hfull : s.length ≤ data.length
      · rw [List.length_take, Nat.min_eq_left hfull] at hfirst
        have hsum : data.length = s.length + (data.drop s.length).length := by rw [List.length_drop]; omega
        rw [hfirst, hsum, List.take_append, List.length_take, Nat.min_eq_left hfull, Nat.add_sub_cancel_left,
          List.take_of_length_le (by rw [List.length_take]; omega)]
        rfl
      · have hle : data.length ≤ s.length := by omega
        have hsplit : s.length = (data.take s.length).length + (s.length - data.length) := by
          rw [List.length_take, Nat.min_eq_right hle]
          omega
        have hdrop : data.drop s.length = [] := List.drop_eq_nil_of_le hle
        rw [hdrop, List.length_nil, List.take_zero, List.append_nil, List.take_append_of_le_length (by simpa using hle)]
        rw [List.take_of_length_le hle] at hfirst ⊢
        rw [List.take_of_length_le hle] at hsplit
        rw [hsplit, Memory.span_add, hfirst, List.take_left']
        rfl

end Host

end ToolchainHost
