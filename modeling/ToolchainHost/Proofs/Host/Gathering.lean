import ToolchainHost.Proofs.Guest.Tables
import ToolchainHost.Proofs.Host.Output

/-!
# What a write to the terminal gathers

A guest hands over a list of segments, which may overlap one another, the list, and the place for the result. Nothing
is shown before all of them were read, and nothing is stored before the text was shown.

* `Host.payloadAt_eq`: the payload, segment by segment.
* `Host.missing`: the first segment that the guest does not have. A write ends there, wherever it stands.
* `Host.write_gathers`: a write shows its payload as a whole, or it changes nothing.
* `Host.write_of_result_missing`: the one failure that comes too late for that.
-/

namespace ToolchainHost

lemma Interface.isStandard_iff {d : Int} : isStandard d = true ↔ d = 0 ∨ d = 1 ∨ d = 2 := by
  simp [isStandard, standardDescriptors]

namespace Host

variable {h : Host} {m : Memory} {s : Segment} {segments : List Segment} {d : Int} {list count out : Nat}

/-! ### The segments of a list -/

/-- The segment whose address and length are the two words at `address`. -/
def segmentAt (m : Memory) (address : Nat) : Segment :=
  ⟨Bytes.toNat (m.span address 4), Bytes.toNat (m.span (address + 4) 4)⟩

lemma decodeAll_span_append (m : Memory) (address : Nat) (rest : List UInt8) :
    Segment.decodeAll (m.span address Segment.width ++ rest) = segmentAt m address :: Segment.decodeAll rest := by
  have hspan (a : Nat) : m.span a 4 = [m.byte a, m.byte (a + 1), m.byte (a + 2), m.byte (a + 3)] := rfl
  have hsplit : m.span address Segment.width = m.span address 4 ++ m.span (address + 4) 4 := m.span_add address 4 4
  rw [hsplit, segmentAt, hspan address, hspan (address + 4)]
  rfl

/-- **A list** holds one segment after the other. -/
theorem segmentsOf_eq (m : Memory) (list count : Nat) :
    segmentsOf m list count = (List.range count).map fun i => segmentAt m (list + Segment.width * i) := by
  induction count generalizing list with
  | zero => rfl
  | succ count ih =>
    have hsplit : (count + 1) * Segment.width = Segment.width + count * Segment.width := by
      rw [Nat.add_mul, Nat.one_mul, Nat.add_comm]
    have hih := ih (list + Segment.width)
    unfold segmentsOf at hih ⊢
    rw [hsplit, Memory.span_add, decodeAll_span_append, hih, List.range_succ_eq_map, List.map_cons, List.map_map]
    refine congrArg₂ List.cons rfl (List.map_congr_left fun i _ => ?_)
    rw [Function.comp_apply, Nat.succ_eq_add_one, Nat.mul_add, Nat.mul_one, Nat.add_assoc, Nat.add_comm Segment.width]

/-- **The payload** of a list is what its segments hold, in order. -/
theorem payloadAt_eq (m : Memory) (list count : Nat) :
    payloadAt m list count = (List.range count).flatMap fun i =>
      m.span (segmentAt m (list + Segment.width * i)).address (segmentAt m (list + Segment.width * i)).length := by
  rw [payloadAt, gathered, segmentsOf_eq, List.flatMap_map]

/-! ### The segment at which a write ends -/

/-- The first segment that the guest does not have. -/
def missing (m : Memory) (segments : List Segment) : Option Segment :=
  segments.find? fun s => ¬ m.InRange s.address s.length

lemma missing_eq_none : missing m segments = none ↔ ∀ s ∈ segments, m.InRange s.address s.length := by
  simp [missing]

lemma gather_of_missing (hs : missing m segments = some s) :
    gather m segments = .error (m.refusal s.address s.length) := by
  induction segments with
  | nil => cases hs
  | cons t rest ih =>
    rw [gather]
    by_cases hr : m.InRange t.address t.length
    · rw [missing, List.find?_cons_of_neg (by simpa using hr)] at hs
      rw [Memory.read_of_inRange hr, ih hs]
    · rw [missing, List.find?_cons_of_pos (by simpa using hr)] at hs
      obtain rfl := Option.some.inj hs
      rw [Memory.read_of_not_inRange hr]

/-! ### Writes that change nothing -/

/-- The failures of a write that comes before anything was shown: the descriptor is not one of the terminal's, or the
guest does not have the list, or not the first of these segments. -/
inductive Denies (m : Memory) (d : Int) (list count : Nat) : Failure → Prop
  | descriptor (hd : Interface.isStandard d = false) : Denies m d list count (.badDescriptor "host_write" d)
  | list (hl : ¬ m.InRange list (count * Segment.width)) :
      Denies m d list count (m.refusal list (count * Segment.width))
  | segment {s : Segment} (hs : missing m (segmentsOf m list count) = some s) :
      Denies m d list count (m.refusal s.address s.length)

/-- A write for which there is such a failure ends with one, and nothing has changed. -/
theorem write_of_denied (hg : h.guest = some m) (out : Nat) {e : Failure} (he : Denies m d list count e) :
    ∃ e', Denies m d list count e' ∧ write d list count out h = .error e' h := by
  cases hd : Interface.isStandard d with
  | false =>
    refine ⟨_, .descriptor hd, ?_⟩
    rw [write, hd]
    rfl
  | true =>
    rw [write_apply hg hd]
    by_cases hl : m.InRange list (count * Segment.width)
    · rw [segmentsAt_eq_ok.2 ⟨hl, rfl⟩, Op.lift_ok_bind]
      cases he with
      | descriptor hn => cases hd.symm.trans hn
      | list hn => exact absurd hl hn
      | segment hs =>
        rw [gather_of_missing hs, Op.lift_error_bind]
        exact ⟨_, .segment hs, rfl⟩
    · have hlist : segmentsAt m list count = .error (m.refusal list (count * Segment.width)) := by
        rw [segmentsAt, Memory.read_of_not_inRange hl]
        rfl
      rw [hlist, Op.lift_error_bind]
      exact ⟨_, .list hl, rfl⟩

/-! ### Writes that show their payload -/

/-- A write has shown the text of its payload and stored the number of its bytes, and nothing else has changed. -/
structure Displays (h : Host) (m : Memory) (payload : List UInt8) (out : Nat) (h' : Host) : Prop where
  /-- One event, or none if there is no text. -/
  events : h'.events = h.events ++
    if textOf h.rewriter payload = "" then [] else [.write (textOf h.rewriter payload)]
  /-- The bytes are counted as they were handed over, before anything was decoded or replaced. -/
  stored : ∃ m', h'.guest = some m' ∧ m'.readWord out = .ok payload.length ∧ m'.size = m.size ∧
    ∀ i, (i < out ∨ out + 4 ≤ i) → m'.byte i = m.byte i
  others : h' = { h with events := h'.events, guest := h'.guest }

lemma emit_eq (text : String) (h : Host) :
    h.emit text = { h with events := h.events ++ if text = "" then [] else [.write text] } := by
  unfold emit
  split_ifs
  · rw [List.append_nil]
  · rfl

lemma displays_emit_bind {payload : List UInt8} (ho : m.InRange out 4) (hlt : payload.length < Word.count) :
    h.Displays m payload out
      ((h.emit (textOf h.rewriter payload)).bind (m.put out (Bytes.ofNat 4 payload.length))) := by
  have hlen : (Bytes.ofNat 4 payload.length).length = 4 := Bytes.length_ofNat ..
  have hin : m.InRange out (Bytes.ofNat 4 payload.length).length := by rwa [hlen]
  have hspan := Memory.span_put_self hin
  rw [hlen] at hspan
  rw [emit_eq]
  refine ⟨rfl, ⟨_, rfl, ?_, Memory.size_put .., ?_⟩, rfl⟩
  · exact Memory.readWord_of_span (by rwa [Memory.InRange, Memory.size_put]) hlt hspan
  · intro i hi
    exact Memory.byte_put_of_outside (by rwa [hlen])

/-- **A write gathers all or nothing.** If the descriptor is one of the terminal's three, and the guest has the list,
every segment in it and the place for the result, then the payload is shown as one text, which is not shown if it is
empty, and the number of bytes is stored and returned. If the descriptor is another one, or the guest lacks the list or
any segment in it, then the write fails for such a reason, nothing is shown, and nothing has changed. -/
theorem write_gathers (hg : h.guest = some m) (d : Int) (list count out : Nat) :
    ((d = 0 ∨ d = 1 ∨ d = 2) → Writable m list count out → Segment.total (segmentsOf m list count) < Word.count →
      ∃ h', write d list count out h = .ok (payloadAt m list count).length h' ∧
        h.Displays m (payloadAt m list count) out h') ∧
    (¬ (d = 0 ∨ d = 1 ∨ d = 2) ∨ ¬ m.InRange list (count * Segment.width) ∨
        (∃ i < count, ¬ m.InRange (segmentAt m (list + Segment.width * i)).address
          (segmentAt m (list + Segment.width * i)).length) →
      ∃ e, Denies m d list count e ∧ write d list count out h = .error e h) := by
  constructor
  · intro hd hw hlt
    rw [← length_gathered m] at hlt
    refine ⟨_, (write_eq_ok hg).2 ⟨Interface.isStandard_iff.2 hd, hw, ?_, rfl⟩, displays_emit_bind hw.result hlt⟩
    exact (Nat.mod_eq_of_lt hlt).symm
  · rintro (hd | hl | ⟨i, hi, hr⟩)
    · exact write_of_denied hg out (.descriptor (Bool.eq_false_iff.2 fun h => hd (Interface.isStandard_iff.1 h)))
    · exact write_of_denied hg out (.list hl)
    · have hmem : segmentAt m (list + Segment.width * i) ∈ segmentsOf m list count := by
        rw [segmentsOf_eq]
        exact List.mem_map.2 ⟨i, List.mem_range.2 hi, rfl⟩
      cases hs : missing m (segmentsOf m list count) with
      | none => exact absurd (missing_eq_none.1 hs _ hmem) hr
      | some s => exact write_of_denied hg out (.segment hs)

/-- A guest whose two segments share a byte; the list of them stands where the result will. -/
def overlappingGuest : Memory :=
  ⟨#[16, 0, 0, 0, 2, 0, 0, 0, 17, 0, 0, 0, 2, 0, 0, 0, 97, 98, 99], #[]⟩

/-- What the guest shows has the shared byte twice, and without the second segment nothing is shown. -/
theorem write_gathers_overlapping :
    (∃ h', write 1 0 2 0 { guest := some overlappingGuest } = .ok 4 h' ∧ h'.events = [.write "abbc"]) ∧
      ∃ e, write 1 0 2 0 { guest := some ⟨overlappingGuest.bytes.pop, #[]⟩ } =
        .error e { guest := some ⟨overlappingGuest.bytes.pop, #[]⟩ } := by
  constructor
  · obtain ⟨h', hx, hs⟩ := (write_gathers (h := { guest := some overlappingGuest }) rfl 1 0 2 0).1 (by decide)
      ⟨by decide, by decide, by decide⟩ (by decide)
    have htext : textOf none (payloadAt overlappingGuest 0 2) = "abbc" := by decide
    refine ⟨h', hx, hs.events.trans ?_⟩
    rw [htext]
    rfl
  · obtain ⟨e, -, hx⟩ := (write_gathers (h := { guest := some ⟨overlappingGuest.bytes.pop, #[]⟩ }) rfl 1 0 2 0).2
      (Or.inr (Or.inr ⟨1, by decide, by decide⟩))
    exact ⟨e, hx⟩

/-- **A result that cannot be stored** is noticed when the text has been shown. -/
theorem write_of_result_missing (hg : h.guest = some m) (hd : Interface.isStandard d = true)
    (hl : m.InRange list (count * Segment.width))
    (hall : ∀ s ∈ segmentsOf m list count, m.InRange s.address s.length) (ho : ¬ m.InRange out 4) :
    write d list count out h =
      .error (m.refusal out 4) (h.emit (textOf h.rewriter (payloadAt m list count))) := by
  have hshown : (h.emit (textOf h.rewriter (payloadAt m list count))).guest = some m := by
    rw [emit_eq]
    exact hg
  rw [write_apply hg hd, segmentsAt_eq_ok.2 ⟨hl, rfl⟩, Op.lift_ok_bind, gather_eq_ok.2 ⟨hall, rfl⟩, Op.lift_ok_bind,
    Op.modify_bind_apply]
  have hout : ¬ m.InRange out (Bytes.ofNat 4 ((payloadAt m list count).length % Word.count)).length := by
    rwa [Bytes.length_ofNat]
  have hstore := writeGuest_of_not_inRange hshown hout
  rw [Bytes.length_ofNat] at hstore
  exact Op.bind_of_error hstore

end Host

end ToolchainHost
