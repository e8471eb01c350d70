import ToolchainHost.Proofs.Host.Output
import ToolchainHost.Proofs.Host.Reads

/-!
# Reads of standard input that break off

A read takes input away segment by segment, each time before it is known whether the guest has the segment, and stores
the number of bytes at the end. Where it breaks off, what it has taken is gone.

* `Host.tried`: the segments for which a read has taken input when it ends.
* `Host.scatter_keeps`: what is pending then.
* `Host.Listens`: a read comes so far as to ask for input.
* `read_keeps_input_iff`: a read that fails keeps its input iff none was there, or it has tried empty segments alone.
-/

namespace ToolchainHost

namespace Host

variable {h h' : Host} {m : Memory} {s : Segment} {segments : List Segment} {pending : List UInt8} {d : Int}
  {list count out total n : Nat}

/-! ### The segments that are tried -/

/-- The segment can take its share of the input: the guest has it, and the bytes can be counted. -/
def Takes (m : Memory) (s : Segment) (pending : List UInt8) (total : Nat) : Prop :=
  m.InRange s.address (pending.take s.length).length ∧ total + (pending.take s.length).length < Word.count

instance (m : Memory) (s : Segment) (pending : List UInt8) (total : Nat) : Decidable (Takes m s pending total) :=
  inferInstanceAs (Decidable (_ ∧ _))

/-- The segments for which a read takes input away: while there is some, up to the first that cannot take its share. -/
def tried (m : Memory) : List Segment → (pending : List UInt8) → (total : Nat) → List Segment
  | [], _, _ => []
  | s :: rest, pending, total =>
    if pending = [] then []
    else if Takes m s pending total then
      s :: tried m rest (pending.drop s.length) (total + (pending.take s.length).length)
    else [s]

lemma takes_put {address : Nat} {data : List UInt8} :
    Takes (m.put address data) s pending total ↔ Takes m s pending total := by
  rw [Takes, Memory.InRange, Memory.size_put, Takes, Memory.InRange]

lemma tried_put (m : Memory) (address : Nat) (data : List UInt8) (segments : List Segment) (pending : List UInt8)
    (total : Nat) : tried (m.put address data) segments pending total = tried m segments pending total := by
  induction segments generalizing pending total with
  | nil => rfl
  | cons s rest ih =>
    rw [tried, tried, ih]
    exact if_congr Iff.rfl rfl (if_congr takes_put rfl rfl)

lemma drop_eq_self_iff {k : Nat} : pending.drop k = pending ↔ pending = [] ∨ k = 0 := by
  constructor
  · intro hk
    have hlen := congrArg List.length hk
    rw [List.length_drop] at hlen
    rw [← List.length_eq_zero_iff]
    omega
  · rintro (rfl | rfl)
    · exact List.drop_nil
    · exact List.drop_zero

/-- The host with less input, and other bytes in the memory of its guest. -/
def left (h : Host) (pending : List UInt8) (m : Memory) : Host := { h with pending, guest := some m }

/-- **Scattering takes input away** for the segments that it tries, whether it succeeds or not. By induction on the
segments; a step writes into the guest, which keeps its size. -/
theorem scatter_keeps (hg : h.guest = some m) (segments : List Segment) (total : Nat) :
    ∃ m', Op.after (scatter segments total) h =
      h.left (h.pending.drop (Segment.total (tried m segments h.pending total))) m' := by
  induction segments generalizing h m total with
  | nil => exact ⟨m, by rw [left, ← hg]; rfl⟩
  | cons s rest ih =>
    have hleft : { h with pending := h.pending.drop s.length }.guest = some m := hg
    unfold scatter
    rw [Op.after_congr (Op.get_bind_apply _ h), tried]
    by_cases hp : h.pending = []
    · rw [if_pos hp, if_pos hp]
      exact ⟨m, by rw [left, ← hg]; rfl⟩
    rw [if_neg hp, if_neg hp, Op.after_congr (Op.set_bind_apply _ _ h)]
    by_cases hr : m.InRange s.address (h.pending.take s.length).length
    · rw [Op.after_bind_of_ok ((writeGuest_eq_ok hleft).2 ⟨hr, rfl⟩)]
      by_cases hlt : total + (h.pending.take s.length).length < Word.count
      · -- the segment takes its share, and the others follow
        rw [if_pos ⟨hr, hlt⟩, Word.add_of_lt hlt, Op.after_congr (Op.lift_ok_bind _ _ _)]
        obtain ⟨m', hm⟩ := ih (h := { h with pending := h.pending.drop s.length }.bind
          (m.put s.address (h.pending.take s.length))) rfl (total + (h.pending.take s.length).length)
        refine ⟨m', hm.trans ?_⟩
        rw [tried_put, Segment.total, ← List.drop_drop]
        rfl
      · rw [if_neg fun ht => hlt ht.2, Word.add, if_neg hlt, Op.after_of_error (Op.lift_error_bind _ _ _)]
        exact ⟨m.put s.address (h.pending.take s.length), rfl⟩
    · rw [if_neg fun ht => hr ht.1, Op.after_of_error (Op.bind_of_error (writeGuest_of_not_inRange hleft hr))]
      exact ⟨m, by rw [left, ← hg]; rfl⟩

/-- Moving input to a guest and storing its number takes no more. -/
lemma pending_of_settle {e : Failure} (hg : h.guest = some m) (hx : settle segments out h = .error e h') :
    h'.pending = h.pending.drop (Segment.total (tried m segments h.pending 0)) := by
  obtain ⟨m', hm⟩ := scatter_keeps hg segments 0
  rw [settle] at hx
  obtain hs | ⟨n, h₁, hs, hx⟩ := Op.bind_eq_error.1 hx
  · rw [← Op.after_of_error hs, hm]
    rfl
  · rw [Op.after_of_ok hs] at hm
    subst hm
    obtain hw | ⟨u, h₂, -, hx⟩ := Op.bind_eq_error.1 hx
    · by_cases hr : m'.InRange out (Bytes.ofNat 4 n).length
      · cases ((writeGuest_eq_ok rfl).2 ⟨hr, rfl⟩).symm.trans hw
      · cases (writeGuest_of_not_inRange rfl hr).symm.trans hw
        rfl
    · cases hx

/-! ### The input of a read -/

/-- What the page sends if it is asked. -/
def received (h : Host) : List UInt8 :=
  match h.stdin with
  | none => []
  | some stdin =>
    match stdin.wait.1 with
    | .ok payload => payload
    | .error _ => []

/-- The input that a read finds: what is pending, or else what it receives. -/
def input (h : Host) : List UInt8 := if h.pending = [] then h.received else h.pending

/-- The page is asked, and has sent its payload or nothing. -/
lemma receive_cases (hp : h.pending = []) :
    (∃ h', receive h = .ok ⟨⟩ h' ∧ h'.pending = h.input ∧ h'.guest = h.guest) ∨
      ∃ e h', receive h = .error e h' ∧ h.input = [] ∧ h'.pending = [] := by
  rw [input, if_pos hp, received, receive, Op.get_bind_apply]
  cases hs : h.stdin with
  | none => exact Or.inl ⟨h, rfl, hp, rfl⟩
  | some stdin =>
    dsimp only
    rw [Op.modify_bind_apply]
    rcases stdin.wait with ⟨e | payload, stdin'⟩
    · exact Or.inr ⟨e, _, rfl, rfl, hp⟩
    · refine Or.inl ⟨_, rfl, ?_, rfl⟩
      show h.pending ++ payload = payload
      rw [hp, List.nil_append]

/-- A read comes so far as to ask for input: its descriptor is that of standard input, and the guest has the list. -/
structure Listens (h : Host) (d : Int) (list count : Nat) (m : Memory) : Prop where
  descriptor : d = 0
  guest : h.guest = some m
  listed : m.InRange list (count * Segment.width)

lemma Listens.segmentsAt (hl : h.Listens d list count m) :
    Host.segmentsAt m list count = .ok (segmentsOf m list count) := segmentsAt_eq_ok.2 ⟨hl.listed, rfl⟩

/-- A read that does not come so far fails, and nothing has changed. -/
lemma read_of_not_listens (hn : ∀ m, ¬ h.Listens d list count m) (out : Nat) :
    ∃ e, read d list count out h = .error e h := by
  by_cases hd : d = 0
  · subst hd
    rw [read]
    simp only [ne_eq, not_true_eq_false, if_false]
    cases hg : h.guest with
    | none =>
      refine ⟨_, Op.bind_of_error (e := .instantiation "no guest memory attached") ?_⟩
      rw [guestMemory, Op.get_bind_apply, hg]
      rfl
    | some m =>
      have hr : ¬ m.InRange list (count * Segment.width) := fun hr => hn m ⟨rfl, hg, hr⟩
      rw [Op.bind_of_ok (guestMemory_eq_ok.2 ⟨hg, rfl⟩), segmentsAt, Memory.read_of_not_inRange hr]
      exact ⟨_, rfl⟩
  · rw [read, if_pos hd]
    exact ⟨_, rfl⟩

/-- **A read that breaks off** has taken input away for the segments that it has tried. -/
theorem Listens.pending_of_error (hl : h.Listens d list count m) {e : Failure}
    (hx : read d list count out h = .error e h') :
    h'.pending = h.input.drop (Segment.total (tried m (segmentsOf m list count) h.input 0)) := by
  have hs := hl.segmentsAt
  obtain ⟨rfl, hg, -⟩ := hl
  by_cases hp : h.pending = []
  · rw [read_of_empty hg hs hp] at hx
    obtain ⟨h₁, hr, hpending, hguest⟩ | ⟨e₁, h₁, hr, hnone, hpending⟩ := receive_cases hp
    · rw [Op.bind_of_ok hr] at hx
      rw [pending_of_settle (hguest.trans hg) hx, hpending]
    · cases (Op.bind_of_error hr).symm.trans hx
      rw [hnone, hpending, List.drop_nil]
  · have hinput : h.input = h.pending := if_neg hp
    rw [read_of_pending hg hs hp] at hx
    rw [pending_of_settle hg hx, hinput]

/-! ### The read after it -/

/-- A read that has brought bytes of a host to its guest: the first of them lie in the segments, in order, and the
others are pending. -/
structure Brings (h : Host) (bytes : List UInt8) (m : Memory) (list count out n : Nat) (h' : Host) : Prop where
  returned : n = min (Segment.total (segmentsOf m list count)) bytes.length
  guest : h'.guest = some ((scattered m (segmentsOf m list count) bytes).put out (Bytes.ofNat 4 n))
  pending : h'.pending = bytes.drop n
  events : h'.events = h.events

lemma brings_of_read (hp : h.pending ≠ []) (hx : read d list count out (h.bind m) = .ok n h') :
    h.Brings h.pending m list count out n h' := by
  by_cases hl : (h.bind m).Listens d list count m
  · have hs := hl.segmentsAt
    obtain ⟨rfl, hg, -⟩ := hl
    rw [read_of_pending hg hs hp] at hx
    obtain ⟨-, hn, -, rfl⟩ := (settle_eq_ok hg).1 hx
    have hmin : n = min (Segment.total (segmentsOf m list count)) h.pending.length := hn.trans List.length_take
    refine ⟨hmin, ?_, ?_, rfl⟩
    · rw [hn]
      rfl
    · show h.pending.drop (Segment.total (segmentsOf m list count)) = h.pending.drop n
      rw [hmin, List.drop_eq_drop_iff]
      omega
  · have hn (m' : Memory) (hl' : (h.bind m).Listens d list count m') : False := by
      obtain rfl : m = m' := Option.some.inj hl'.guest
      exact hl hl'
    obtain ⟨e, he⟩ := read_of_not_listens hn out
    cases he.symm.trans hx

end Host

/-- **A read that fails** changes nothing if it does not come so far as to ask for input. Else the input it found is
gone up to the end of the segments it has tried, among them the one at which it broke off: it keeps all of it iff there
was none, or those segments are empty. Whatever is left is what the next read that succeeds brings to its guest. -/
theorem read_keeps_input_iff {h h' : Host} {d : Int} {list count out : Nat} {e : Failure}
    (hx : Host.read d list count out h = .error e h') :
    ((∀ m, ¬ h.Listens d list count m) → h' = h) ∧ ∀ m, h.Listens d list count m →
      (h'.pending = h.input ↔
        h.input = [] ∨ ∀ s ∈ Host.tried m (Host.segmentsOf m list count) h.input 0, s.length = 0) ∧
      h'.pending = h.input.drop (Segment.total (Host.tried m (Host.segmentsOf m list count) h.input 0)) ∧
      (h'.pending ≠ [] → ∀ m' list' count' out' n h'', Host.read 0 list' count' out' (h'.bind m') = .ok n h'' →
        h'.Brings h'.pending m' list' count' out' n h'') := by
  constructor
  · intro hn
    obtain ⟨e', he⟩ := Host.read_of_not_listens hn out
    cases he.symm.trans hx
    rfl
  · intro m hl
    have hpending := hl.pending_of_error hx
    refine ⟨?_, hpending, fun hp m' list' count' out' n h'' hread => Host.brings_of_read hp hread⟩
    rw [hpending, Host.drop_eq_self_iff, Segment.total_eq_zero]

/-- A guest: a list of one segment, which lies behind its memory, and the place for a result. -/
def unreachingGuest : Memory := ⟨#[100, 0, 0, 0, 3, 0, 0, 0, 0, 0, 0, 0], #[]⟩

/-- Three bytes will be typed when the guest reads. -/
def typedHost : Host :=
  { guest := some unreachingGuest, stdin := some { mailbox := .ofCapacity 8, arrivals := [[97, 98, 99]] } }

lemma typedHost_read : ∃ e h', Host.read 0 0 1 8 typedHost = .error e h' ∧ h'.pending = [] := ⟨_, _, rfl, rfl⟩

/-- The read breaks off at the segment, and the bytes are gone. -/
theorem read_keeps_input_iff_typed : ∃ e h', Host.read 0 0 1 8 typedHost = .error e h' ∧
    h'.pending ≠ typedHost.input ∧ h'.pending = [97, 98, 99].drop 3 := by
  obtain ⟨e, h', hx, -⟩ := typedHost_read
  obtain ⟨hkeeps, hpending, -⟩ := (read_keeps_input_iff hx).2 unreachingGuest ⟨rfl, rfl, by decide⟩
  have htried : Host.tried unreachingGuest (Host.segmentsOf unreachingGuest 0 1) typedHost.input 0 = [⟨100, 3⟩] := by
    decide
  rw [htried] at hkeeps hpending
  refine ⟨e, h', hx, fun hsame => ?_, hpending⟩
  obtain hnone | hempty := hkeeps.1 hsame
  · cases hnone
  · cases hempty ⟨100, 3⟩ List.mem_cons_self

/-- Not every read that fails leaves what it found in front of the pending input. -/
theorem exists_input_lost : ¬ ∀ (h h' : Host) (d : Int) (list count out : Nat) (e : Failure),
    Host.read d list count out h = .error e h' → h.input <+: h'.pending := by
  intro hall
  obtain ⟨e, h', hx, hpending⟩ := typedHost_read
  have hfront := hall _ _ _ _ _ _ _ hx
  rw [hpending, List.prefix_nil] at hfront
  cases hfront

end ToolchainHost
