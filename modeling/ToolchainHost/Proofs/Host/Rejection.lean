import ToolchainHost.Proofs.Host.Reads
import ToolchainHost.Proofs.Host.Residue

/-!
# Writes that are rejected

A write puts the segments of its list into the file one after the other. Where it is rejected with an answer, none has
been put there. Where it breaks off, those in front of the place where it did stay in the file.

* `FileStore.Replaces`: a store with other bytes in one file.
* `Host.writeSegments_overlays`: the segments that land overlay the bytes of the file from the position on.
* `Host.Concluding`: how a write ends, and what it leaves.
* `fileWrite_untouched_iff`: when a write that is rejected leaves a trace.
* `exists_rejected_trace`: it does where a later segment is out of the guest's reach.
-/

namespace ToolchainHost

open Interface (Errno)
open Host (segmentsOf gathered staysAddressable)

/-! ### Bytes that are there already -/

namespace Bytes

variable {bytes gap data : List UInt8} {position : Nat}

/-- The bytes have `data` at a position. -/
def HasAt (bytes : List UInt8) (position : Nat) (data : List UInt8) : Prop :=
  ∃ before after, bytes = before ++ data ++ after ∧ before.length = position

lemma HasAt.le (h : HasAt bytes position data) : position + data.length ≤ bytes.length := by
  obtain ⟨before, after, rfl, rfl⟩ := h
  simp only [List.length_append]
  omega

/-- Data behind a gap, which is there if the data come to lie behind the end, change nothing iff they are there
already. -/
lemma splice_eq_self_iff (hgap : gap.length = position - bytes.length) :
    splice (bytes ++ gap) position data = bytes ↔ HasAt bytes position data := by
  constructor
  · intro h
    have hlen := congrArg List.length h
    rw [length_splice (by rw [List.length_append]; omega), List.length_append] at hlen
    obtain rfl : gap = [] := List.eq_nil_of_length_eq_zero (by omega)
    rw [List.append_nil] at h
    exact ⟨_, _, h.symm, List.length_take_of_le (by omega)⟩
  · intro h
    have hle := h.le
    obtain ⟨before, after, rfl, rfl⟩ := h
    obtain rfl : gap = [] := List.eq_nil_of_length_eq_zero (by omega)
    simp [splice]

end Bytes

/-! ### Other bytes in one file -/

namespace FileStore

variable {s t u : FileStore} {i needed position : Nat} {n n' : Node} {bytes bytes' data : List UInt8}

/-- The store `t` is `s` with other bytes in the file `n`. -/
structure Replaces (s : FileStore) (i : Nat) (n : Node) (bytes : List UInt8) (t : FileStore) : Prop where
  packed : t.Packed
  fileAt : ∃ n', t.FileAt i n' ∧ n'.path = n.path ∧ t.memory.span n'.address n'.size = bytes
  listing : t.listing = s.listing.set i (n.path, .file bytes)
  opened : t.opened = s.opened

lemma FileAt.listing_set (hf : s.FileAt i n) :
    s.listing.set i (n.path, .file (s.memory.span n.address n.size)) = s.listing := by
  obtain ⟨hlt, hget⟩ := List.getElem?_eq_some_iff.1 hf.listing
  rw [← hget, List.set_getElem_self]

/-- With the same bytes in the file, users see the same. -/
lemma FileAt.listing_set_eq_iff (hf : s.FileAt i n) :
    s.listing.set i (n.path, .file bytes) = s.listing ↔ bytes = s.memory.span n.address n.size := by
  constructor
  · intro h
    have hi := congrArg (·[i]?) h
    rw [List.getElem?_set_self (List.getElem?_eq_some_iff.1 hf.listing).1, hf.listing] at hi
    cases hi
    rfl
  · rintro rfl
    exact hf.listing_set

lemma Packed.replaces_self (hs : s.Packed) (hf : s.FileAt i n) :
    s.Replaces i n (s.memory.span n.address n.size) s :=
  ⟨hs, ⟨n, hf, rfl, rfl⟩, hf.listing_set.symm, rfl⟩

lemma Replaces.trans (h1 : s.Replaces i n bytes t) (hp : n'.path = n.path) (h2 : t.Replaces i n' bytes' u) :
    s.Replaces i n bytes' u where
  packed := h2.packed
  fileAt := by
    rw [← hp]
    exact h2.fileAt
  listing := by rw [h2.listing, h1.listing, List.set_set, hp]
  opened := h2.opened.trans h1.opened

/-- What users see of a store decides what replacing bytes gives. -/
lemma Replaces.of_same (h : t.Replaces i n bytes u) (hl : t.listing = s.listing) (ho : t.opened = s.opened) :
    s.Replaces i n bytes u := ⟨h.packed, h.fileAt, by rw [h.listing, hl], h.opened.trans ho⟩

/-- Making room replaces nothing. -/
lemma Refits.replaces (h : s.Refits i n needed n' t) (hf : s.FileAt i n) :
    s.Replaces i n (s.memory.span n.address n.size) t where
  packed := h.packed
  fileAt := ⟨n', h.fileAt, h.path_eq, by rw [h.size_eq, h.span_eq]⟩
  listing := by rw [h.listing, hf.listing_set]
  opened := h.opened

/-- Data are put into a file that has room for them. -/
lemma Refits.replaces_stored (h : s.Refits i n (position + data.length) n' t) (hf : s.FileAt i n) :
    ∃ gap, gap.length = position - n.size ∧
      s.Replaces i n (Bytes.splice (s.memory.span n.address n.size ++ gap) position data)
        (t.stored i n' position data) := by
  have hl := h.listing_stored
  have hf' : (t.stored i n' position data).FileAt i _ := fileAt_stored h.fileAt
  have hb := hf'.listing
  rw [hl, List.getElem?_set_self (List.getElem?_eq_some_iff.1 hf.listing).1] at hb
  exact ⟨_, Memory.length_span .., h.packed.stored h.fileAt h.le_capacity,
    ⟨_, hf', h.path_eq, (Entry.file.inj (Prod.mk.inj (Option.some.inj hb)).2).symm⟩, hl, h.opened⟩

/-- A position that is moved is moved for one descriptor. -/
lemma openFile?_withPosition_of_ne {d c : Int} {slot : Nat} (hd : slotOf? d = some slot) (hc : c ≠ d)
    (position : Nat) : (s.withPosition slot position).openFile? c = s.openFile? c := by
  unfold openFile?
  cases hk : slotOf? c with
  | none => rfl
  | some k =>
    have hne : k ≠ slot := fun e => hc (by rw [slotOf?_eq_some.1 hk, slotOf?_eq_some.1 hd, e])
    rw [Option.bind_some, Option.bind_some, withPosition, withOpened_opened, Slots.get?_modify, if_neg hne]

end FileStore

namespace Host

variable {h h' : Host} {m : Memory} {s : Segment} {rest : List Segment} {i position total list count out : Nat}
  {d : Int} {f : OpenFile} {n : Node} {old bytes bytes' : List UInt8}

/-! ### Segments that land -/

/-- The bytes of a file behind segments that were put into it from a position on. Where the first of them starts behind
the end of the file, a gap comes in between. -/
inductive Overlays (m : Memory) (old : List UInt8) (position : Nat) : List Segment → List UInt8 → Prop
  | none : Overlays m old position [] old
  | some {s : Segment} {rest : List Segment} {gap : List UInt8} (hgap : gap.length = position - old.length) :
      Overlays m old position (s :: rest) (Bytes.splice (old ++ gap) position (gathered m (s :: rest)))

/-- The bytes are what they were iff no segment was put there, or what was put there was there already. -/
lemma Overlays.eq_iff {segments : List Segment} (h : Overlays m old position segments bytes) :
    bytes = old ↔ segments = [] ∨ Bytes.HasAt old position (gathered m segments) := by
  cases h with
  | none => simp
  | some hgap => simpa using Bytes.splice_eq_self_iff hgap

/-- What is put behind the first segment starts inside the file. -/
lemma Overlays.cons {gap : List UInt8} (hgap : gap.length = position - old.length)
    (h : Overlays m (Bytes.splice (old ++ gap) position (m.span s.address s.length)) (position + s.length) rest bytes) :
    Overlays m old position (s :: rest) bytes := by
  have hp : position ≤ (old ++ gap).length := by
    rw [List.length_append]
    omega
  have hlen : (Bytes.splice (old ++ gap) position (m.span s.address s.length)).length = _ := Bytes.length_splice hp
  rw [Memory.length_span] at hlen
  cases h with
  | none =>
    have hone : gathered m [s] = m.span s.address s.length := by simp [gathered]
    rw [← hone]
    exact .some hgap
  | @some s' rest' gap' hgap' =>
    -- the first segment has filled the file up to where the next one starts
    obtain rfl : gap' = [] := List.eq_nil_of_length_eq_zero (by omega)
    have hsplice := Bytes.splice_splice (a := m.span s.address s.length) (b := gathered m (s' :: rest')) hp
    rw [Memory.length_span] at hsplice
    rw [List.append_nil, hsplice]
    exact .some hgap

section WriteSegments

variable (hs : h.files.store.Packed) (hf : h.files.store.FileAt i n)

include hs hf

/-- A segment that lands is put into the file. -/
lemma replaces_landed (hl : h.Lands n s position) (m : Memory) : ∃ gap, gap.length = position - n.size ∧
    h.files.store.Replaces i n (Bytes.splice (h.files.store.memory.span n.address n.size ++ gap) position
      (m.span s.address s.length)) (h.landed i n m s position) := by
  have hh := hs.refits_reserved hf hl.2
  have hlen : (m.span s.address s.length).length = s.length := Memory.length_span ..
  rw [← hlen] at hh
  have hr := hh.replaces_stored hf
  rw [hlen] at hr
  exact hr

/-- One that cannot land breaks the write off. -/
lemma writeSegments_breaks (hstop : position + s.length < Word.count) (hl : ¬ h.Lands n s position)
    (rest : List Segment) (total : Nat) :
    ∃ e t, h.files.store.Replaces i n (h.files.store.memory.span n.address n.size) t ∧
      writeSegments i (s :: rest) position total h = .error e (h.withStore t) := by
  by_cases hc : h.files.store.CanHold n (position + s.length)
  · have hn : ∀ m, h.guest = some m → ¬ m.InRange s.address s.length := fun m hg hr => hl ⟨⟨m, hg, hr⟩, hc⟩
    exact ⟨_, _, (hs.refits_reserved hf hc).replaces hf, writeSegments_cons_of_not_inRange hs hf hstop hc hn ..⟩
  · exact ⟨_, _, hs.replaces_self hf, writeSegments_cons_of_not_canHold hf hstop hc ..⟩

end WriteSegments

/-- **The segments that land overlay the bytes of the file.** The write succeeds where all of them do, and breaks off
behind them where one does not. -/
theorem writeSegments_overlays {segments : List Segment} (hs : h.files.store.Packed) (hf : h.files.store.FileAt i n)
    (hg : h.guest = some m) (hstop : position + Segment.total segments < Word.count) (htotal : total ≤ position) :
    ∃ bytes t, Overlays m (h.files.store.memory.span n.address n.size) position
        (segments.take (h.landings m i segments position)) bytes ∧ h.files.store.Replaces i n bytes t ∧
      (h.landings m i segments position < segments.length ∧
          (∃ e, writeSegments i segments position total h = .error e (h.withStore t)) ∨
        h.landings m i segments position = segments.length ∧ writeSegments i segments position total h =
          .ok (position + Segment.total segments, total + Segment.total segments) (h.withStore t)) := by
  induction segments generalizing h n position total with
  | nil => exact ⟨_, _, .none, hs.replaces_self hf, Or.inr ⟨rfl, rfl⟩⟩
  | cons s rest ih =>
    rw [Segment.total] at hstop ⊢
    have hlt : position + s.length < Word.count := by omega
    by_cases hl : h.Lands n s position
    · obtain ⟨gap, hgap, hfirst⟩ := replaces_landed hs hf hl m
      have hrun := writeSegments_cons hs hf hlt hg hl (by omega : total + s.length < Word.count) rest
      obtain ⟨n', hf', hpath, hbytes⟩ := hfirst.fileAt
      -- the others go to the store in which the first has landed, also where it has moved the file
      obtain ⟨bytes, t, ho, ht, hx⟩ := ih (h := h.withStore (h.landed i n m s position)) (n := n') hfirst.packed hf' hg
        (by omega : position + s.length + Segment.total rest < Word.count)
        (by omega : total + s.length ≤ position + s.length)
      rw [withStore_store] at ho ht
      rw [hbytes] at ho
      rw [landings_cons hf hl, List.take_succ_cons, List.length_cons, hrun]
      refine ⟨bytes, t, ho.cons (by rw [hgap, Memory.length_span]), hfirst.trans hpath ht, ?_⟩
      rcases hx with ⟨hsome, e, he⟩ | ⟨hall, hx⟩
      · exact Or.inl ⟨by omega, e, by rw [he, withStore_withStore]⟩
      · exact Or.inr ⟨by rw [hall], by rw [hx, withStore_withStore, Nat.add_assoc, Nat.add_assoc]⟩
    · obtain ⟨e, t, ht, he⟩ := writeSegments_breaks hs hf hlt hl rest total
      rw [landings_cons_of_not hf hl]
      exact ⟨_, t, .none, ht, Or.inl ⟨Nat.succ_pos _, e, he⟩⟩

/-- The guest has the segments that land. -/
lemma inRange_of_landings {segments : List Segment} (hg : h.guest = some m) {t : Segment}
    (ht : t ∈ segments.take (h.landings m i segments position)) : m.InRange t.address t.length := by
  induction segments generalizing h position with
  | nil =>
    rw [List.take_nil] at ht
    cases ht
  | cons s rest ih =>
    unfold landings at ht
    split at ht
    · cases ht
    · split_ifs at ht with hl
      · rw [List.take_succ_cons] at ht
        rcases List.mem_cons.1 ht with rfl | ht
        · obtain ⟨m', hg', hr⟩ := hl.1
          obtain rfl : m' = m := Option.some.inj (hg'.symm.trans hg)
          exact hr
        · exact ih (h := h.withStore (h.landed i _ m s position)) hg ht
      · cases ht

/-! ### How a write ends -/

/-- Users see the files and the open files as they were, and all that is not in the store is as it was. -/
structure Untouched (h h' : Host) : Prop where
  listing : h'.files.store.listing = h.files.store.listing
  opened : h'.files.store.opened = h.files.store.opened
  others : ∃ t, h' = h.withStore t

lemma Untouched.refl (h : Host) : h.Untouched h := ⟨rfl, rfl, _, h.withStore_self.symm⟩

/-- At most the file behind a descriptor, and its position there, are different. -/
structure Confined (h : Host) (d : Int) (h' : Host) : Prop where
  files : ∀ f, h.files.store.openFile? d = some f → ∀ j, j ≠ f.node →
    h'.files.store.listing[j]? = h.files.store.listing[j]?
  opened : ∀ c, c ≠ d → h'.files.store.openFile? c = h.files.store.openFile? c
  others : ∃ t, h' = h.withStore t

/-- A write gets as far as its segments: it begins, and they do not reach behind the last address. -/
structure Underway (h : Host) (d : Int) (list count : Nat) (f : OpenFile) (m : Memory) (n : Node) : Prop
    extends Begins h d list count f m where
  fileAt : h.files.store.FileAt f.node n
  addressable : staysAddressable f.position (segmentsOf m list count) = true

/-- A write that breaks off leaves a trace: some segments have landed, and the file did not have their bytes there
already, or all have, and the position has moved. -/
def LeavesTrace (h : Host) (d : Int) (list count : Nat) : Prop :=
  ∃ f m n, h.Underway d list count f m n ∧
    (h.landing f m list count ≠ [] ∧ ¬ Bytes.HasAt (h.files.store.memory.span n.address n.size) f.position
        (gathered m (h.landing f m list count)) ∨
      h.landing f m list count = segmentsOf m list count ∧ Segment.total (segmentsOf m list count) ≠ 0)

/-- How writing to a file ends, and what it leaves if it is rejected. -/
inductive Concluding (h : Host) (d : Int) (list count : Nat) : EStateM.Result Failure Host Errno → Prop
  | written {f : OpenFile} {m : Memory} {n : Node} {h' : Host} (hp : h.Underway d list count f m n)
      (hall : h.landing f m list count = segmentsOf m list count) : Concluding h d list count (.ok .success h')
  | refused {e : Errno} {h' : Host} (he : e = .badDescriptor ∨ e = .invalid)
      (hn : ∀ f m n, ¬ h.Underway d list count f m n) (hu : h.Untouched h') : Concluding h d list count (.ok e h')
  | unread (e : Failure) (hn : ∀ f m n, ¬ h.Underway d list count f m n) : Concluding h d list count (.error e h)
  | broken {f : OpenFile} {m : Memory} {n : Node} {bytes : List UInt8} {t : FileStore} (e : Failure)
      (hp : h.Underway d list count f m n) (hsome : h.landing f m list count ≠ segmentsOf m list count)
      (ho : Overlays m (h.files.store.memory.span n.address n.size) f.position (h.landing f m list count) bytes)
      (ht : h.files.store.Replaces f.node n bytes t) : Concluding h d list count (.error e (h.withStore t))
  | lost {f : OpenFile} {m : Memory} {n : Node} {bytes : List UInt8} {t u : FileStore} {slot : Nat} (e : Failure)
      (hp : h.Underway d list count f m n) (hall : h.landing f m list count = segmentsOf m list count)
      (ho : Overlays m (h.files.store.memory.span n.address n.size) f.position (h.landing f m list count) bytes)
      (ht : h.files.store.Replaces f.node n bytes t) (hslot : FileStore.slotOf? d = some slot)
      (hl : u.listing = t.listing)
      (hu : u.opened = (t.withPosition slot (f.position + Segment.total (segmentsOf m list count))).opened) :
      Concluding h d list count (.error e (h.withStore u))

/-- A word goes to the guest, or it does not. Then only the scratch area is different. -/
lemma storeWord_ok_or_error (hb : FileStore.heapBase ≤ h.files.store.memory.size) (out value : Nat) :
    (∃ h', storeWord out value h = .ok ⟨⟩ h') ∨ ∃ e, storeWord out value h =
      .error e (h.withStore (h.files.store.poke FileStore.scratch (Bytes.ofNat 4 value))) := by
  obtain ⟨hsize, -⟩ := span_scratchWord hb value
  rw [storeWord_eq hb]
  exact (copyOut_cases hsize out).imp (fun ⟨_, _, _, hx⟩ => ⟨_, hx⟩) id

section Ending

variable (hs : h.files.store.Laid) (htop : h.files.store.top < Word.count)

include hs htop

/-- The segments that land overlay the file behind the descriptor. -/
lemma Underway.overlays (hp : h.Underway d list count f m n) :
    ∃ bytes t, Overlays m (h.files.store.memory.span n.address n.size) f.position (h.landing f m list count) bytes ∧
      h.files.store.Replaces f.node n bytes t ∧
      (h.landing f m list count ≠ segmentsOf m list count ∧
          (∃ e, writeSegments f.node (segmentsOf m list count) f.position 0 (h.listed m list count) =
            .error e (h.withStore t)) ∨
        h.landing f m list count = segmentsOf m list count ∧
          writeSegments f.node (segmentsOf m list count) f.position 0 (h.listed m list count) =
            .ok (f.position + Segment.total (segmentsOf m list count), Segment.total (segmentsOf m list count))
              (h.withStore t)) := by
  obtain ⟨hpos, -⟩ := hs.fileAt_of_open htop hp.openFile
  have hlisted := (hs.packed htop).refits_poke_low hp.fileAt (scratch_list_le hp.fits m list)
  rw [← listed_store] at hlisted
  obtain ⟨bytes, t, ho, ht, hx⟩ := writeSegments_overlays hlisted.packed hlisted.fileAt
    ((listed_guest ..).trans hp.guest) ((staysAddressable_iff hpos).1 hp.addressable) (Nat.zero_le f.position)
  rw [hlisted.span_eq] at ho
  rw [withStore_listed, Nat.zero_add] at hx
  refine ⟨bytes, t, ho, ht.of_same hlisted.listing hlisted.opened, ?_⟩
  refine hx.imp (fun hx => ⟨fun hall => ?_, hx.2⟩) fun hx => ⟨?_, hx.2⟩
  · have hlen := congrArg List.length hall
    rw [landing, List.length_take] at hlen
    omega
  · rw [landing, hx.1, List.take_length]

theorem fileWrite_concluding (hd : Interface.isStandard d = false) (list count out : Nat) :
    h.Concluding d list count (fileWrite d list count out h) := by
  cases hf : h.files.store.openFile? d with
  | none =>
    rw [fileWrite_of_none hd hf]
    refine .refused (Or.inl rfl) (fun f m n hp => ?_) (.refl h)
    cases hf.symm.trans hp.openFile
  | some f =>
    by_cases hl : FileStore.scratchLimit < count * Segment.width
    · rw [fileWrite_of_lt hd hf hl]
      exact .refused (Or.inr rfl) (fun _ _ _ hp => absurd hp.fits (Nat.not_le.2 hl)) (.refl h)
    by_cases hn : ∀ m, h.guest = some m → ¬ m.InRange list (count * Segment.width)
    · rw [fileWrite_of_not_inRange hd hf (Nat.not_lt.1 hl) hn]
      exact .unread _ fun _ m _ hp => hn m hp.guest hp.inRange
    push Not at hn
    obtain ⟨m, hg, hr⟩ := hn
    have hb : h.Begins d list count f m := ⟨hf, Nat.not_lt.1 hl, hg, hr⟩
    rw [hb.fileWrite_eq hd hs.base_le_size]
    by_cases hst : staysAddressable f.position (segmentsOf m list count) = true
    · obtain ⟨slot, hslot, -⟩ := FileStore.openFile?_eq_some.1 hf
      obtain ⟨-, n, hfile⟩ := hs.fileAt_of_open htop hf
      have hp : h.Underway d list count f m n := ⟨hb, hfile, hst⟩
      obtain ⟨bytes, t, ho, ht, ⟨hsome, e, he⟩ | ⟨hall, hw⟩⟩ := hp.overlays hs htop
      · rw [if_neg (by simp [hst]), Op.bind_of_error he]
        exact .broken e hp hsome ho ht
      · have hset := onStore_withStore_of_ok (h := h) (FileStore.setPosition_apply (s := t) hslot
          (f.position + Segment.total (segmentsOf m list count)))
        rw [if_neg (by simp [hst]), Op.bind_of_ok hw]
        dsimp only
        rw [Op.bind_of_ok hset]
        rcases storeWord_ok_or_error (h := h.withStore (t.withPosition slot _))
          (Nat.le_trans ht.packed.base_le ht.packed.top_le) out _ with ⟨h', hx⟩ | ⟨e, hx⟩
        · rw [Op.bind_of_ok hx, Op.pure_apply]
          exact .written hp hall
        · rw [Op.bind_of_error hx, withStore_withStore]
          refine .lost e hp hall ho ht hslot ?_ rfl
          have hposition : (t.withPosition slot (f.position + Segment.total (segmentsOf m list count))).Packed :=
            ht.packed.withOpened _
          rw [withStore_store, hposition.listing_poke_low (scratchWord_le _), FileStore.withPosition,
            FileStore.listing_withOpened]
    · rw [if_pos (by simpa using hst), Op.pure_apply]
      refine .refused (Or.inr rfl) (fun f' m' n' hp => hst ?_) ⟨?_, rfl, _, rfl⟩
      · obtain rfl : f' = f := Option.some.inj (hp.openFile.symm.trans hf)
        obtain rfl : m' = m := Option.some.inj (hp.guest.symm.trans hg)
        exact hp.addressable
      · rw [listed_store]
        exact (hs.packed htop).listing_poke_low (scratch_list_le hb.fits m list)

end Ending

/-! ### What it leaves -/

/-- A write that proceeds has one descriptor, one guest and one file. -/
lemma Underway.leavesTrace_iff (hp : h.Underway d list count f m n) : h.LeavesTrace d list count ↔
    h.landing f m list count ≠ [] ∧ ¬ Bytes.HasAt (h.files.store.memory.span n.address n.size) f.position
        (gathered m (h.landing f m list count)) ∨
      h.landing f m list count = segmentsOf m list count ∧ Segment.total (segmentsOf m list count) ≠ 0 := by
  constructor
  · rintro ⟨f', m', n', hp', htrace⟩
    obtain rfl : f' = f := Option.some.inj (hp'.openFile.symm.trans hp.openFile)
    obtain rfl : m' = m := Option.some.inj (hp'.guest.symm.trans hp.guest)
    obtain rfl : n' = n := Option.some.inj (hp'.fileAt.1.symm.trans hp.fileAt.1)
    exact htrace
  · exact fun htrace => ⟨f, m, n, hp, htrace⟩

lemma not_leavesTrace (hn : ∀ f m n, ¬ h.Underway d list count f m n) : ¬ h.LeavesTrace d list count :=
  fun ⟨f, m, n, hp, _⟩ => hn f m n hp

/-- The files are as they were iff what landed was there already. -/
lemma Overlays.listing_eq_iff {segments : List Segment} {t : FileStore} (hn : h.files.store.FileAt f.node n)
    (ho : Overlays m (h.files.store.memory.span n.address n.size) position segments bytes)
    (ht : h.files.store.Replaces f.node n bytes t) : t.listing = h.files.store.listing ↔
      ¬ (segments ≠ [] ∧ ¬ Bytes.HasAt (h.files.store.memory.span n.address n.size) position
        (gathered m segments)) := by
  rw [ht.listing, hn.listing_set_eq_iff, ho.eq_iff]
  tauto

/-- **A write that breaks off** leaves everything as it was iff it leaves no trace. -/
theorem Concluding.untouched_iff {e : Failure} (hc : h.Concluding d list count (.error e h')) :
    h.Untouched h' ↔ ¬ h.LeavesTrace d list count := by
  cases hc with
  | unread _ hn => exact iff_of_true (.refl h) (not_leavesTrace hn)
  | @broken f m n bytes t _ hp hsome ho ht =>
    have hlisting := ho.listing_eq_iff hp.fileAt ht
    rw [hp.leavesTrace_iff, or_iff_left fun hall => hsome hall.1, ← hlisting]
    exact ⟨fun hu => hu.listing, fun hl => ⟨hl, ht.opened, _, rfl⟩⟩
  | @lost f m n bytes t u slot _ hp hall ho ht hslot hl hu =>
    have hlisting := ho.listing_eq_iff hp.fileAt ht
    have hopened : u.opened = h.files.store.opened ↔ Segment.total (segmentsOf m list count) = 0 := by
      obtain ⟨slot', hslot', hget⟩ := FileStore.openFile?_eq_some.1 hp.openFile
      obtain rfl := Option.some.inj (hslot.symm.trans hslot')
      rw [hu, FileStore.withPosition, FileStore.withOpened_opened, ht.opened, Slots.modify_eq_self_iff hget]
      constructor
      · intro hf
        have hpos := congrArg OpenFile.position hf
        exact Nat.left_eq_add.1 hpos.symm
      · intro htotal
        rw [htotal, Nat.add_zero]
    rw [hp.leavesTrace_iff, not_or, ← hlisting, and_iff_right hall, not_not, ← hopened, ← hl]
    exact ⟨fun hu => ⟨hu.listing, hu.opened⟩, fun hu => ⟨hu.1, hu.2, _, rfl⟩⟩

/-- A write that breaks off is confined to the file behind its descriptor. -/
theorem Concluding.confined {e : Failure} (hc : h.Concluding d list count (.error e h')) : h.Confined d h' := by
  have hfiles {f f' : OpenFile} {n : Node} {bytes : List UInt8} {t : FileStore}
      (ht : h.files.store.Replaces f.node n bytes t) (hf : h.files.store.openFile? d = some f)
      (hf' : h.files.store.openFile? d = some f') (j : Nat) (hj : j ≠ f'.node) :
      t.listing[j]? = h.files.store.listing[j]? := by
    obtain rfl : f' = f := Option.some.inj (hf'.symm.trans hf)
    rw [ht.listing, List.getElem?_set_ne hj.symm]
  have hopened {t u : FileStore} (ho : u.opened = t.opened) (c : Int) : u.openFile? c = t.openFile? c := by
    rw [FileStore.openFile?, ho, FileStore.openFile?]
  cases hc with
  | unread _ hn => exact ⟨fun _ _ _ _ => rfl, fun _ _ => rfl, _, rfl⟩
  | broken _ hp hsome ho ht =>
    exact ⟨fun _ hf j hj => hfiles ht hp.openFile hf j hj, fun c _ => hopened ht.opened c, _, rfl⟩
  | lost _ hp hall ho ht hslot hl hu =>
    refine ⟨fun _ hf j hj => ?_, fun c hc => ?_, _, rfl⟩
    · rw [withStore_store, hl]
      exact hfiles ht hp.openFile hf j hj
    · rw [withStore_store, hopened hu, FileStore.openFile?_withPosition_of_ne hslot hc, hopened ht.opened]

end Host

/-- **A write that is rejected** with an answer leaves everything as it was. One that breaks off does iff it leaves no
trace: it leaves one iff segments landed before it broke off whose bytes the file did not have there already, or all
landed, only their number could not be handed over, and the position has moved. All that it leaves is in the file
behind the descriptor, and in the position there. -/
theorem fileWrite_untouched_iff (h : Host) (calls : List StoreCall) (hf : h.files = .empty) {d : Int}
    (hd : Interface.isStandard d = false) (list count out : Nat) :
    (∀ e h', Host.fileWrite d list count out (h.afterAll calls) = .ok e h' → e ≠ .success →
      (e = .badDescriptor ∨ e = .invalid) ∧ (h.afterAll calls).Untouched h') ∧
    ∀ e h', Host.fileWrite d list count out (h.afterAll calls) = .error e h' →
      ((h.afterAll calls).Untouched h' ↔ ¬ (h.afterAll calls).LeavesTrace d list count) ∧
        (h.afterAll calls).Confined d h' := by
  obtain ⟨hs, htop⟩ := Host.laid_afterAll hf calls
  have hc := Host.fileWrite_concluding hs htop hd list count out
  constructor
  · intro e h' hx hne
    rw [hx] at hc
    cases hc with
    | written => exact absurd rfl hne
    | refused he _ hu => exact ⟨he, hu⟩
  · intro e h' hx
    rw [hx] at hc
    exact ⟨hc.untouched_iff, hc.confined⟩

/-- A guest: a path, a list of two segments, the path's two bytes and a byte behind the guest's last one, and the place
for a result. -/
def overreachingGuest : Memory :=
  ⟨#[47, 97, 0, 0, 0, 0, 0, 0, 2, 0, 0, 0, 24, 0, 0, 0, 1, 0, 0, 0, 0, 0, 0, 0], #[]⟩

/-- The guest has made a file. -/
def overreachingCalls : List StoreCall :=
  [.call (.compute overreachingGuest), .call (.pathOpen 0 2 Interface.createFlag 20),
    .call (.compute overreachingGuest)]

lemma overreachingCalls_underway : ∃ f n,
    (Host.afterAll {} overreachingCalls).Underway 3 4 2 f overreachingGuest n ∧ f.position = 0 ∧ n.size = 0 ∧
      (Host.afterAll {} overreachingCalls).files.store.top = FileStore.heapBase := by
  have hname : nodePath (overreachingGuest.span 0 2) = "/a" := by decide
  have ha : (({} : Host).bind overreachingGuest).Accepts 0 2 Interface.createFlag overreachingGuest := by
    refine ⟨by decide, rfl, by decide, ?_⟩
    rw [hname]
    rfl
  obtain ⟨t, guest, ho, hheap, hafter, -⟩ := ha.opens FileStore.sound_empty 20
  have hstore : (Host.afterAll {} overreachingCalls).files.store = t := by
    have hcalls : overreachingCalls = List.map StoreCall.call [.compute overreachingGuest,
      .pathOpen 0 2 Interface.createFlag 20, .compute overreachingGuest] := rfl
    have hbound : Op.after (FileCall.compute overreachingGuest).run {} = ({} : Host).bind overreachingGuest := rfl
    rw [hcalls, Host.afterAll_map_call, Host.afterCalls, hbound, Host.afterCalls, FileCall.run, Op.after_map, hafter]
    rfl
  rw [hname] at ho
  have hhandle : t.handle 3 = some ("/a", 0) := by
    rw [ho.handle]
    exact Function.update_self ..
  obtain ⟨f, n, hf, hn, hpath, hposition⟩ := ho.sound.exists_open hhandle
  have hsize : n.size = 0 := by
    have hfound := ho.sound.lookup_path hn.1
    rw [hpath, ho.lookup, Function.update_self, FileStore.entry_of_file hn.2] at hfound
    have hbytes : [] = t.memory.span n.address n.size := Entry.file.inj (Option.some.inj hfound)
    rw [← Memory.length_span t.memory n.address n.size, ← hbytes]
    rfl
  rw [← hstore] at hf hn
  refine ⟨f, n, ⟨⟨hf, by decide, rfl, by decide⟩, hn, ?_⟩, hposition, hsize, ?_⟩
  · rw [hposition]
    decide
  · rw [hstore]
    exact hheap.top_eq

/-- Its write breaks off at the second segment, and the first one is in the file. -/
lemma overreachingCalls_breaks :
    (∃ e h', Host.fileWrite 3 4 2 20 (Host.afterAll {} overreachingCalls) = .error e h') ∧
      (Host.afterAll {} overreachingCalls).LeavesTrace 3 4 2 := by
  obtain ⟨f, n, hp, hposition, hsize, htop⟩ := overreachingCalls_underway
  have hsegments : segmentsOf overreachingGuest 4 2 = [⟨0, 2⟩, ⟨24, 1⟩] := by decide
  obtain ⟨hs, htop'⟩ := Host.laid_afterAll (h := {}) rfl overreachingCalls
  constructor
  · have hc := Host.fileWrite_concluding hs htop' (by decide : Interface.isStandard 3 = false) 4 2 20
    cases hx : Host.fileWrite 3 4 2 20 (Host.afterAll {} overreachingCalls) with
    | error e h' => exact ⟨e, h', rfl⟩
    | ok e h' =>
      rw [hx] at hc
      cases hc with
      | refused _ hn _ => exact absurd hp (hn f _ n)
      | @written f' m' n' _ hp' hall =>
        obtain rfl : m' = overreachingGuest := Option.some.inj (hp'.guest.symm.trans hp.guest)
        have hmem : (⟨24, 1⟩ : Segment) ∈ (Host.afterAll {} overreachingCalls).landing f' overreachingGuest 4 2 := by
          rw [hall, hsegments]
          decide
        have hrange := Host.inRange_of_landings ((Host.listed_guest ..).trans hp.guest) hmem
        exact absurd hrange (by decide : ¬ overreachingGuest.InRange 24 1)
  · have hroom : (Host.afterAll {} overreachingCalls).files.store.CanHold n (f.position + 2) := by
      intro hlt
      refine FileStore.room_of_top_le htop.le ?_
      unfold FileStore.grownCapacity FileStore.leastCapacity FileStore.heapBase Word.count
      omega
    have hland : ((Host.afterAll {} overreachingCalls).listed overreachingGuest 4 2).Lands n ⟨0, 2⟩ f.position := by
      refine ⟨⟨_, (Host.listed_guest ..).trans hp.guest, by decide⟩, fun hlt => ?_⟩
      rw [Host.listed_store]
      exact (FileStore.room_congr (FileStore.poke_top ..) _).2 (hroom hlt)
    have hne := Host.landing_ne_nil hp.fileAt hsegments hland
    refine ⟨f, _, n, hp, Or.inl ⟨hne, fun hhas => ?_⟩⟩
    obtain ⟨s, rest, hl⟩ := List.exists_cons_of_ne_nil hne
    obtain ⟨⟨more, hmore⟩, -⟩ := Host.landing_eq_cons hp.fileAt hl
    obtain ⟨rfl, -⟩ := List.cons.inj (hmore.symm.trans hsegments)
    have hle := hhas.le
    rw [Host.length_gathered, Memory.length_span, hl, hsize, Segment.total] at hle
    dsimp only at hle
    omega

/-- The guest's write breaks off, and not everything is as it was. -/
theorem fileWrite_untouched_iff_overreaching : ∃ e h',
    Host.fileWrite 3 4 2 20 (Host.afterAll {} overreachingCalls) = .error e h' ∧
      ¬ (Host.afterAll {} overreachingCalls).Untouched h' := by
  obtain ⟨⟨e, h', hx⟩, htrace⟩ := overreachingCalls_breaks
  obtain ⟨-, herror⟩ :=
    fileWrite_untouched_iff {} overreachingCalls rfl (by decide : Interface.isStandard 3 = false) 4 2 20
  exact ⟨e, h', hx, fun hu => (herror e h' hx).1.1 hu htrace⟩

/-- Not every write that is rejected leaves everything as it was. -/
theorem exists_rejected_trace : ¬ ∀ (h : Host) (calls : List StoreCall) (d : Int) (list count out : Nat),
    h.files = .empty → Interface.isStandard d = false →
    (∀ h', Host.fileWrite d list count out (h.afterAll calls) ≠ .ok .success h') →
    (h.afterAll calls).Untouched (Op.after (Host.fileWrite d list count out) (h.afterAll calls)) := by
  intro hall
  obtain ⟨⟨e, h', hx⟩, htrace⟩ := overreachingCalls_breaks
  obtain ⟨hs, htop⟩ := Host.laid_afterAll (h := {}) rfl overreachingCalls
  have hu := hall {} overreachingCalls 3 4 2 20 rfl (by decide) fun h'' hok => by cases hx.symm.trans hok
  rw [Op.after_of_error hx] at hu
  have hc := Host.fileWrite_concluding hs htop (by decide : Interface.isStandard 3 = false) 4 2 20
  rw [hx] at hc
  exact hc.untouched_iff.1 hu htrace

end ToolchainHost
