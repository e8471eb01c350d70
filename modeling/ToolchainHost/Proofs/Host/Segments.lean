import ToolchainHost.Proofs.Host.Transfer

/-!
# Moving segments

* `Host.writeSegments_cons`: one segment lands in its file, or the write breaks off where it stands.
* `Host.writeSegments_cases`: a write puts the segments that land into its file, and changes nothing else.
* `Host.readSegments_eq`: what a read delivers are bytes of the file.
-/

namespace ToolchainHost

namespace FileStore

variable {s t : FileStore} {i needed : Nat} {n n' : Node}

lemma Holds.looks (h : s.Holds i n needed n' t) : s.Looks t := ⟨h.sound, h.listing, h.opened⟩

/-- The store `t` is `s` with other bytes in the file `i`. -/
structure Revises (s : FileStore) (i : Nat) (path : String) (bytes : List UInt8) (t : FileStore) : Prop where
  sound : t.Sound
  fileAt : ∃ n, t.FileAt i n ∧ n.path = path ∧ t.memory.span n.address n.size = bytes
  lookup : t.lookup = Function.update s.lookup path (some (.file bytes))
  opened : t.opened = s.opened
  handle : t.handle = s.handle

lemma Looks.revises (h : s.Looks t) (hs : s.Sound) (hf : s.FileAt i n) :
    s.Revises i n.path (s.memory.span n.address n.size) t := by
  obtain ⟨b, hb, hp, hbytes⟩ := h.fileAt hf
  have hl : s.lookup n.path = some (.file (s.memory.span n.address n.size)) := by
    rw [hs.lookup_path hf.1, entry_of_file hf.2]
  exact ⟨h.sound, ⟨b, hb, hp, hbytes⟩, h.lookup.trans (Function.update_eq_self_iff.2 hl.symm).symm, h.opened,
    h.handle⟩

lemma Revises.trans {path : String} {bytes bytes' : List UInt8} {u : FileStore} (h1 : s.Revises i path bytes t)
    (h2 : t.Revises i path bytes' u) : s.Revises i path bytes' u :=
  ⟨h2.sound, h2.fileAt, by rw [h2.lookup, h1.lookup, Function.update_idem], h2.opened.trans h1.opened,
    h2.handle.trans h1.handle⟩

lemma Looks.trans_revises {path : String} {bytes : List UInt8} {u : FileStore} (h : s.Looks t)
    (hr : t.Revises i path bytes u) : s.Revises i path bytes u :=
  ⟨hr.sound, hr.fileAt, hr.lookup.trans (by rw [h.lookup]), hr.opened.trans h.opened, hr.handle.trans h.handle⟩

/-- The bytes of the file `n` are in memory, at addresses that are words. -/
def Backs (s : FileStore) (n : Node) : Prop := n.address + n.size ≤ s.memory.size ∧ n.address + n.size < Word.count

lemma Sound.backs (hs : s.Sound) (hf : s.FileAt i n) : s.Backs n := by
  obtain ⟨h1, -, h2⟩ := hs.placed hf
  have h3 := hs.top_lt
  have h4 := hs.top_le
  exact ⟨by omega, by omega⟩

/-- Bytes stored in a file that can hold them. -/
lemma Holds.revises {position : Nat} {data : List UInt8} (h : s.Holds i n (position + data.length) n' t)
    (hs : s.Sound) (hf : s.FileAt i n) :
    s.Revises i n.path (Bytes.splice
        (s.memory.span n.address n.size ++ s.residue n position (position + data.length)) position data)
      (t.stored i n' position data) := by
  have hl := h.listing_stored
  have ht : (t.stored i n' position data).Sound := h.sound.stored h.fileAt h.le_capacity
  have hf' : (t.stored i n' position data).FileAt i _ := fileAt_stored h.fileAt
  have hb := hf'.listing
  rw [hl, List.getElem?_set_self (List.getElem?_eq_some_iff.1 hf.listing).1] at hb
  exact ⟨ht, ⟨_, hf', h.path_eq, (Entry.file.inj (Prod.mk.inj (Option.some.inj hb)).2).symm⟩,
    hs.lookup_of_set hf.1 hl, h.opened, handle_of_set hf.1 hl h.opened⟩

end FileStore

namespace Host

variable {h : Host} {m : Memory} {s : Segment} {rest : List Segment} {i position total : Nat} {n : Node}

/-! ### Writing segments -/

/-- A segment can be put at a position of the file `n`: the guest has its bytes, and there is room for them. -/
def Lands (h : Host) (n : Node) (s : Segment) (position : Nat) : Prop :=
  (∃ m, h.guest = some m ∧ m.InRange s.address s.length) ∧ h.files.store.CanHold n (position + s.length)

instance (h : Host) (n : Node) (s : Segment) (position : Nat) : Decidable (h.Lands n s position) :=
  inferInstanceAs (Decidable ((∃ m, m ∈ h.guest ∧ m.InRange s.address s.length) ∧ _))

/-- The store after a segment of the guest was put at a position of the file `i`. -/
def landed (h : Host) (i : Nat) (n : Node) (m : Memory) (s : Segment) (position : Nat) : FileStore :=
  (h.files.store.reserved i n (position + s.length)).2.stored i (h.files.store.reserved i n (position + s.length)).1
    position (m.span s.address s.length)

section WriteSegments

variable (hs : h.files.store.Packed) (hf : h.files.store.FileAt i n) (hstop : position + s.length < Word.count)

include hs hf hstop

/-- A segment that can land does so, and the write goes on behind it. -/
theorem writeSegments_cons (hg : h.guest = some m) (hl : h.Lands n s position)
    (htotal : total + s.length < Word.count) (rest : List Segment) :
    writeSegments i (s :: rest) position total h =
      writeSegments i rest (position + s.length) (total + s.length) (h.withStore (h.landed i n m s position)) := by
  obtain ⟨⟨m', hg', hr⟩, hc⟩ := hl
  obtain rfl : m' = m := Option.some.inj (hg'.symm.trans hg)
  have hh := hs.refits_reserved hf hc
  have hlt := hh.stop_lt
  have hlen : (m'.span s.address s.length).length = s.length := Memory.length_span ..
  have hadd : (h.files.store.reserved i n (position + s.length)).1.address + position < Word.count := by omega
  have hin : (h.files.store.reserved i n (position + s.length)).1.address + position + s.length ≤
      (h.withStore (h.files.store.reserved i n (position + s.length)).2).files.store.memory.size := by
    have h1 := (hh.packed.placed hh.fileAt).stop_le
    have h2 := hh.le_capacity
    have h3 := hh.packed.top_le
    rw [withStore_store]
    omega
  have hcopy := copyIn_of_inRange hin hg' hr
  have hext := FileStore.extend_poke hh.fileAt position (m'.span s.address s.length)
  rw [hlen] at hext
  rw [writeSegments, Word.add_of_lt hstop, Op.lift_ok_bind,
    Op.bind_of_ok (onStore_of_ok (FileStore.reserve_of_canHold hs hf hc)), Word.add_of_lt hadd, Op.lift_ok_bind,
    Op.bind_of_ok hcopy, withStore_store, withStore_withStore, Op.bind_of_ok (onStore_withStore_of_ok hext),
    Word.add_of_lt htotal, Op.lift_ok_bind]
  rfl

omit hs in
/-- A segment that there is no room for breaks the write off. -/
lemma writeSegments_cons_of_not_canHold
    (hc : ¬ h.files.store.CanHold n (position + s.length)) (rest : List Segment) (total : Nat) :
    writeSegments i (s :: rest) position total h =
      .error (h.files.store.denial (FileStore.grownCapacity n (position + s.length))) h := by
  rw [writeSegments, Word.add_of_lt hstop, Op.lift_ok_bind,
    Op.bind_of_error (onStore_of_error (FileStore.reserve_of_not_canHold hf hc)), withStore_self]

/-- A segment that the guest does not have breaks the write off when room has been made for it. -/
lemma writeSegments_cons_of_not_inRange (hc : h.files.store.CanHold n (position + s.length))
    (hn : ∀ m, h.guest = some m → ¬ m.InRange s.address s.length) (rest : List Segment) (total : Nat) :
    writeSegments i (s :: rest) position total h = .error (outOfReach h.guest s.address s.length)
      (h.withStore (h.files.store.reserved i n (position + s.length)).2) := by
  have hh := hs.refits_reserved hf hc
  have hlt := hh.stop_lt
  have hadd : (h.files.store.reserved i n (position + s.length)).1.address + position < Word.count := by omega
  have he := copyIn_of_not_inRange (h := h.withStore (h.files.store.reserved i n (position + s.length)).2)
    hn ((h.files.store.reserved i n (position + s.length)).1.address + position)
  rw [writeSegments, Word.add_of_lt hstop, Op.lift_ok_bind,
    Op.bind_of_ok (onStore_of_ok (FileStore.reserve_of_canHold hs hf hc)), Word.add_of_lt hadd, Op.lift_ok_bind,
    Op.bind_of_error he, withStore_guest]

end WriteSegments

/-- A segment that cannot land breaks the write off, and nothing changes that users see. -/
theorem writeSegments_cons_of_not (hs : h.files.store.Sound) (hf : h.files.store.FileAt i n)
    (hstop : position + s.length < Word.count) (hl : ¬ h.Lands n s position) (rest : List Segment) (total : Nat) :
    ∃ e t, h.files.store.Looks t ∧ writeSegments i (s :: rest) position total h = .error e (h.withStore t) := by
  by_cases hc : h.files.store.CanHold n (position + s.length)
  · have hn : ∀ m, h.guest = some m → ¬ m.InRange s.address s.length := fun m hg hr => hl ⟨⟨m, hg, hr⟩, hc⟩
    exact ⟨_, _, (FileStore.holds_reserved hs hf hc).looks, writeSegments_cons_of_not_inRange hs.packed hf hstop hc hn ..⟩
  · exact ⟨_, h.files.store, .refl hs, writeSegments_cons_of_not_canHold hf hstop hc ..⟩

/-- What the file holds after a segment has landed in it. -/
theorem revises_landed (hs : h.files.store.Sound) (hf : h.files.store.FileAt i n) (hl : h.Lands n s position)
    (m : Memory) :
    h.files.store.Revises i n.path (Bytes.splice (h.files.store.memory.span n.address n.size ++
      h.files.store.residue n position (position + s.length)) position (m.span s.address s.length))
      (h.landed i n m s position) := by
  have hh := FileStore.holds_reserved hs hf hl.2
  have hlen : (m.span s.address s.length).length = s.length := Memory.length_span ..
  rw [← hlen] at hh
  have hr := hh.revises hs hf
  rw [hlen] at hr
  exact hr

/-! ### Writing all segments -/

/-- The bytes of segments of the guest, one after the other. -/
def gathered (m : Memory) (segments : List Segment) : List UInt8 := segments.flatMap fun s => m.span s.address s.length

lemma length_gathered (m : Memory) (segments : List Segment) :
    (gathered m segments).length = Segment.total segments := by
  induction segments with
  | nil => rfl
  | cons s rest ih => simpa [gathered, Segment.total] using ih

lemma staysAddressable_iff {segments : List Segment} (hp : position < Word.count) :
    staysAddressable position segments = true ↔ position + Segment.total segments < Word.count := by
  induction segments generalizing position with
  | nil => simpa [staysAddressable, Segment.total] using hp
  | cons s rest ih =>
    simp only [staysAddressable, Segment.total, Bool.and_eq_true, decide_eq_true_eq]
    constructor
    · rintro ⟨h1, h2⟩
      have := (ih h1).1 h2
      omega
    · intro hlt
      have h1 : position + s.length < Word.count := by omega
      exact ⟨h1, (ih h1).2 (by omega)⟩

/-- The number of segments that land in the file `i`, one after the other, before one cannot. -/
def landings (h : Host) (m : Memory) (i : Nat) : List Segment → (position : Nat) → Nat
  | [], _ => 0
  | s :: rest, position =>
    match h.files.store.nodes[i]? with
    | none => 0
    | some n =>
      if h.Lands n s position then
        landings (h.withStore (h.landed i n m s position)) m i rest (position + s.length) + 1
      else 0

lemma landings_cons (hf : h.files.store.FileAt i n) (hl : h.Lands n s position) (m : Memory) (rest : List Segment) :
    h.landings m i (s :: rest) position =
      (h.withStore (h.landed i n m s position)).landings m i rest (position + s.length) + 1 := by
  rw [landings, hf.1]
  exact if_pos hl

lemma landings_cons_of_not (hf : h.files.store.FileAt i n) (hl : ¬ h.Lands n s position) (m : Memory)
    (rest : List Segment) : h.landings m i (s :: rest) position = 0 := by
  rw [landings, hf.1]
  exact if_neg hl

/-- What the file `n` holds after segments were put into it from a position on. -/
def rewritten (store : FileStore) (n : Node) (m : Memory) (position : Nat) : List Segment → List UInt8
  | [] => store.memory.span n.address n.size
  | s :: rest => Bytes.splice (store.memory.span n.address n.size ++
      store.residue n position (position + s.length)) position (gathered m (s :: rest))

/-- Segments that start inside the file are spliced into it. -/
lemma rewritten_of_le {store : FileStore} (hp : position ≤ n.size) (m : Memory) (segments : List Segment) :
    rewritten store n m position segments =
      Bytes.splice (store.memory.span n.address n.size) position (gathered m segments) := by
  cases segments with
  | nil => rw [rewritten, gathered, List.flatMap_nil, Bytes.splice_nil]
  | cons s rest => rw [rewritten, FileStore.residue_of_le hp, List.append_nil]

/-- After a segment has landed, what follows it starts inside the file. -/
lemma rewritten_landed {t : FileStore} {n' : Node} (m : Memory) (rest : List Segment)
    (hb : t.memory.span n'.address n'.size = Bytes.splice (h.files.store.memory.span n.address n.size ++
      h.files.store.residue n position (position + s.length)) position (m.span s.address s.length)) :
    rewritten t n' m (position + s.length) rest = rewritten h.files.store n m position (s :: rest) := by
  have hp : position ≤ (h.files.store.memory.span n.address n.size ++
      h.files.store.residue n position (position + s.length)).length := by
    rw [List.length_append, Memory.length_span, FileStore.length_residue]
    omega
  have hlen := congrArg List.length hb
  have hsplice := Bytes.splice_splice (a := m.span s.address s.length) (b := gathered m rest) hp
  rw [Memory.length_span, Bytes.length_splice hp, Memory.length_span] at hlen
  rw [Memory.length_span m] at hsplice
  rw [rewritten_of_le (by omega), hb, hsplice]
  rfl

/-- What is below the heap does not matter. -/
lemma rewritten_poke_low {store : FileStore} (hs : store.Sound) (hf : store.FileAt i n) {address : Nat}
    {data : List UInt8} (hlow : address + data.length ≤ FileStore.heapBase) (m : Memory) (position : Nat)
    (segments : List Segment) :
    rewritten (store.poke address data) n m position segments = rewritten store n m position segments := by
  have hbase := (hs.placed hf).base_le
  have hspan (k count : Nat) :
      (store.poke address data).memory.span (n.address + k) count = store.memory.span (n.address + k) count :=
    Memory.span_put_of_apart (Or.inr (by omega))
  cases segments with
  | nil => exact hspan 0 n.size
  | cons s rest =>
    have h0 := hspan 0 n.size
    rw [Nat.add_zero] at h0
    rw [rewritten, rewritten, h0, FileStore.residue, FileStore.residue, hspan]

/-- **Writing segments** puts those that land into the file, and changes nothing else. It succeeds where all do. -/
theorem writeSegments_cases {segments : List Segment} (hs : h.files.store.Sound) (hf : h.files.store.FileAt i n)
    (hg : h.guest = some m) (hstop : position + Segment.total segments < Word.count) (htotal : total ≤ position) :
    ∃ t, h.files.store.Revises i n.path
        (rewritten h.files.store n m position (segments.take (h.landings m i segments position))) t ∧
      (h.landings m i segments position < segments.length ∧
          (∃ e, writeSegments i segments position total h = .error e (h.withStore t)) ∨
        h.landings m i segments position = segments.length ∧ writeSegments i segments position total h =
          .ok (position + Segment.total segments, total + Segment.total segments) (h.withStore t)) := by
  induction segments generalizing h n position total with
  | nil => exact ⟨_, (FileStore.Looks.refl hs).revises hs hf, Or.inr ⟨rfl, rfl⟩⟩
  | cons s rest ih =>
    rw [Segment.total] at hstop ⊢
    have hlt : position + s.length < Word.count := by omega
    by_cases hl : h.Lands n s position
    · have hrev := revises_landed hs hf hl m
      have hrun := writeSegments_cons hs.packed hf hlt hg hl (by omega : total + s.length < Word.count) rest
      obtain ⟨n', hf', hpath, hb⟩ := hrev.fileAt
      obtain ⟨t, ht, hx⟩ := ih (h := h.withStore (h.landed i n m s position)) (n := n')
        hrev.sound hf' hg (by omega : position + s.length + Segment.total rest < Word.count)
        (by omega : total + s.length ≤ position + s.length)
      rw [withStore_store, hpath, rewritten_landed m _ hb] at ht
      rw [landings_cons hf hl, List.take_succ_cons, List.length_cons, hrun]
      refine ⟨t, hrev.trans ht, ?_⟩
      rcases hx with ⟨hsome, e, he⟩ | ⟨hall, hx⟩
      · exact Or.inl ⟨by omega, e, by rw [he, withStore_withStore]⟩
      · exact Or.inr ⟨by rw [hall], by rw [hx, withStore_withStore, Nat.add_assoc, Nat.add_assoc]⟩
    · obtain ⟨e, t, ht, he⟩ := writeSegments_cons_of_not hs hf hlt hl rest total
      rw [landings_cons_of_not hf hl]
      exact ⟨t, ht.revises hs hf, Or.inl ⟨Nat.succ_pos _, e, he⟩⟩

/-! ### Reading segments -/

/-- The memory of a guest with bytes scattered over segments. -/
def scattered (m : Memory) : List Segment → List UInt8 → Memory
  | [], _ => m
  | s :: rest, data => scattered (m.put s.address (data.take s.length)) rest (data.drop s.length)

@[simp] lemma scattered_nil (m : Memory) (segments : List Segment) : scattered m segments [] = m := by
  induction segments with
  | nil => rfl
  | cons s rest ih => simpa [scattered] using ih

/-- The first segment takes what it can hold; there is nothing behind it unless it is full. -/
lemma scattered_append (m : Memory) (rest : List Segment) {a b : List UInt8} (ha : a.length ≤ s.length)
    (hb : b ≠ [] → a.length = s.length) :
    scattered m (s :: rest) (a ++ b) = scattered (m.put s.address a) rest b := by
  by_cases h : b = []
  · rw [h, List.append_nil, scattered, List.take_of_length_le ha, List.drop_eq_nil_of_le ha]
  · rw [scattered, List.take_left' (hb h), List.drop_left' (hb h)]

/-- The segments that a read serves: those before the first that is empty. -/
def served (segments : List Segment) : List Segment := segments.takeWhile (0 < ·.length)

/-- The bytes that a read at a position delivers. -/
def delivered (bytes : List UInt8) (position : Nat) (segments : List Segment) : List UInt8 :=
  (bytes.drop position).take (Segment.total (served segments))

lemma length_delivered_le (bytes : List UInt8) (position : Nat) (segments : List Segment) :
    (delivered bytes position segments).length ≤ bytes.length - position := by
  rw [delivered, List.length_take, List.length_drop]
  exact Nat.min_le_right ..

lemma delivered_of_le {bytes : List UInt8} (hp : bytes.length ≤ position) (segments : List Segment) :
    delivered bytes position segments = [] := by
  rw [delivered, List.drop_eq_nil_of_le hp, List.take_nil]

lemma delivered_of_empty (bytes : List UInt8) (position : Nat) (hs : s.length = 0) :
    delivered bytes position (s :: rest) = [] := by
  simp [delivered, served, hs, Segment.total]

/-- A segment gets its part of the bytes, the rest goes to the segments behind it. -/
lemma delivered_cons (bytes : List UInt8) (position : Nat) (rest : List Segment) (hs : s.length ≠ 0) :
    delivered bytes position (s :: rest) =
      (bytes.drop position).take (min s.length (bytes.length - position)) ++
        delivered bytes (position + min s.length (bytes.length - position)) rest := by
  have hserved : served (s :: rest) = s :: served rest := by
    simp [served, Nat.pos_of_ne_zero hs]
  rw [delivered, hserved, Segment.total]
  by_cases hr : s.length ≤ bytes.length - position
  · rw [Nat.min_eq_left hr, List.take_add, List.drop_drop, delivered]
  · have hlen : (bytes.drop position).length ≤ bytes.length - position := by rw [List.length_drop]
    rw [Nat.min_eq_right (by omega), List.take_of_length_le (by omega), List.take_of_length_le hlen,
      delivered_of_le (by omega), List.append_nil]

lemma bind_self (hg : h.guest = some m) : h.bind m = h := by
  unfold Host.bind
  rw [← hg]

/-- What is read from a place of the heap. -/
lemma span_slice (m : Memory) (address size position k : Nat) (hk : k ≤ size - position) :
    ((m.span address size).drop position).take k = m.span (address + position) k := by
  refine List.ext_getElem? fun j => ?_
  rw [List.getElem?_take, Memory.getElem?_span]
  split_ifs with hj
  · rw [List.getElem?_drop, Memory.getElem?_span, if_pos (by omega), Nat.add_assoc]
  · rfl

lemma readSegments_stop (hc : min s.length (n.size - position) = 0) (rest : List Segment) (total : Nat) :
    readSegments n (s :: rest) position total h = .ok (position, total) h := by
  rw [readSegments, if_pos hc, Op.pure_apply]

section ReadSegments

variable (hn : h.files.store.Backs n)

include hn

section Cons

variable (hc : min s.length (n.size - position) ≠ 0) (htotal : total ≤ position)

include hc htotal

/-- A segment that the guest has is filled, and the read goes on behind it. -/
lemma readSegments_cons_of_inRange (hg : h.guest = some m)
    (hr : m.InRange s.address (min s.length (n.size - position))) (rest : List Segment) :
    readSegments n (s :: rest) position total h =
      readSegments n rest (position + min s.length (n.size - position))
        (total + min s.length (n.size - position))
        (h.bind (m.put s.address
          (h.files.store.memory.span (n.address + position) (min s.length (n.size - position))))) := by
  obtain ⟨h1, h2⟩ := hn
  have hin : n.address + position + min s.length (n.size - position) ≤ h.files.store.memory.size := by omega
  rw [readSegments, if_neg hc, Word.add_of_lt (by omega), Op.lift_ok_bind, Op.bind_of_ok (copyOut_of_inRange hin hg hr),
    Word.add_of_lt (by omega), Op.lift_ok_bind, Word.add_of_lt (by omega), Op.lift_ok_bind]

omit htotal in
/-- A segment that the guest does not have breaks the read off. -/
lemma readSegments_cons_of_not_inRange
    (hout : ∀ m, h.guest = some m → ¬ m.InRange s.address (min s.length (n.size - position))) (rest : List Segment)
    (total : Nat) : readSegments n (s :: rest) position total h =
      .error (outOfReach h.guest s.address (min s.length (n.size - position))) h := by
  obtain ⟨h1, h2⟩ := hn
  have hin : n.address + position + min s.length (n.size - position) ≤ h.files.store.memory.size := by omega
  rw [readSegments, if_neg hc, Word.add_of_lt (by omega), Op.lift_ok_bind,
    Op.bind_of_error (copyOut_of_not_inRange hin hout)]

lemma readSegments_cons (rest : List Segment) :
    (∃ m, h.guest = some m ∧ m.InRange s.address (min s.length (n.size - position)) ∧
      readSegments n (s :: rest) position total h =
        readSegments n rest (position + min s.length (n.size - position))
          (total + min s.length (n.size - position))
          (h.bind (m.put s.address
            (h.files.store.memory.span (n.address + position) (min s.length (n.size - position)))))) ∨
    ∃ e, readSegments n (s :: rest) position total h = .error e h := by
  by_cases hout : ∀ m, h.guest = some m → ¬ m.InRange s.address (min s.length (n.size - position))
  · exact Or.inr ⟨_, readSegments_cons_of_not_inRange hn hc hout rest total⟩
  · push Not at hout
    obtain ⟨m, hg, hr⟩ := hout
    exact Or.inl ⟨m, hg, hr, readSegments_cons_of_inRange hn hc htotal hg hr rest⟩

end Cons

/-- **What a read delivers** are the bytes of the file from the position on. -/
theorem readSegments_eq {segments : List Segment} {h' : Host} {position' total' : Nat} (hg : h.guest = some m)
    (htotal : total ≤ position)
    (hx : readSegments n segments position total h = .ok (position', total') h') :
    let data := delivered (h.files.store.memory.span n.address n.size) position segments
    h' = h.bind (scattered m segments data) ∧ position' = position + data.length ∧ total' = total + data.length := by
  induction segments generalizing h m position total with
  | nil =>
    rw [readSegments, Op.pure_apply] at hx
    cases hx
    simp [delivered, served, Segment.total, scattered, bind_self hg]
  | cons s rest ih =>
    have hlen : (h.files.store.memory.span n.address n.size).length = n.size := Memory.length_span ..
    dsimp only
    by_cases hc : min s.length (n.size - position) = 0
    · have hd : delivered (h.files.store.memory.span n.address n.size) position (s :: rest) = [] := by
        rcases Nat.min_eq_zero_iff.1 hc with hc | hc
        · exact delivered_of_empty _ _ hc
        · exact delivered_of_le (by omega) _
      rw [readSegments_stop hc] at hx
      rw [hd, scattered_nil, bind_self hg]
      cases hx
      exact ⟨rfl, rfl, rfl⟩
    · have hd := delivered_cons (s := s) (h.files.store.memory.span n.address n.size) position rest (by omega)
      rw [hlen, span_slice _ _ _ _ _ (Nat.min_le_right ..)] at hd
      rcases readSegments_cons hn hc htotal rest with ⟨m', hg', -, hrun⟩ | ⟨e, he⟩
      · obtain rfl : m' = m := Option.some.inj (hg'.symm.trans hg)
        rw [hrun] at hx
        obtain ⟨hh, hp, ht⟩ := ih (h := h.bind _) hn rfl (by omega) hx
        rw [bind_files] at hh hp ht
        rw [hd, scattered_append, List.length_append, Memory.length_span]
        · exact ⟨hh, by omega, by omega⟩
        · rw [Memory.length_span]
          omega
        · intro hb
          rw [Memory.length_span]
          by_contra hne
          exact hb (delivered_of_le (by omega) _)
      · rw [he] at hx
        cases hx

/-- A read changes no file, also where it breaks off. -/
theorem files_readSegments (segments : List Segment) (htotal : total ≤ position) :
    (Op.after (readSegments n segments position total) h).files = h.files := by
  induction segments generalizing h position total with
  | nil => rfl
  | cons s rest ih =>
    by_cases hc : min s.length (n.size - position) = 0
    · rw [Op.after_of_ok (readSegments_stop hc rest total)]
    · rcases readSegments_cons hn hc htotal rest with ⟨m, -, -, hrun⟩ | ⟨e, he⟩
      · rw [Op.after_congr hrun]
        exact ih hn (by omega)
      · rw [Op.after_of_error he]

end ReadSegments

end Host

end ToolchainHost
