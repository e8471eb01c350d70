import ToolchainHost.Proofs.Host.Input
import ToolchainHost.Proofs.Text.Cuts

/-!
# The text that guests write

Every write is decoded and rewritten alone, and becomes one event. Nothing is carried over to the next.

* `Host.write_eq_ok`: what a write posts, and when it succeeds.
* `Host.Writes`: writes of one guest after the other.
* `terminalText_of_writes`: where no character and no token is cut, it does not show how a text was split.
-/

namespace ToolchainHost

lemma terminalText_append (a b : List Event) : terminalText (a ++ b) = terminalText a ++ terminalText b := by
  rw [terminalText, List.map_append, String.join_append]
  rfl

namespace Host

variable {h h' h'' : Host} {m : Memory} {segments : List Segment} {data : List UInt8} {descriptor : Int}
  {list count out n : Nat} {rewriter : Option Rewriter} {pieces : List (List UInt8)}

/-! ### One write -/

lemma segmentsAt_eq_ok : segmentsAt m list count = .ok segments ↔
    m.InRange list (count * Segment.width) ∧ segments = segmentsOf m list count := by
  by_cases hr : m.InRange list (count * Segment.width)
  · have hx : segmentsAt m list count = .ok (segmentsOf m list count) := by
      rw [segmentsAt, Memory.read_of_inRange hr]
      rfl
    simp [hx, hr, eq_comm]
  · have hx : segmentsAt m list count = .error (m.refusal list (count * Segment.width)) := by
      rw [segmentsAt, Memory.read_of_not_inRange hr]
      rfl
    simp [hx, hr]

lemma gather_eq_ok : gather m segments = .ok data ↔
    (∀ s ∈ segments, m.InRange s.address s.length) ∧ data = gathered m segments := by
  induction segments generalizing data with
  | nil => simp [gather, gathered, eq_comm]
  | cons s rest ih =>
    rw [gather]
    by_cases hr : m.InRange s.address s.length
    · rw [Memory.read_of_inRange hr]
      cases hx : gather m rest with
      | error e =>
        have hn : ¬ ∀ t ∈ rest, m.InRange t.address t.length := by
          intro hall
          rw [ih.2 ⟨hall, rfl⟩] at hx
          cases hx
        simp [hn]
      | ok more =>
        obtain ⟨hall, rfl⟩ := ih.1 hx
        have hall' : ∀ t ∈ s :: rest, m.InRange t.address t.length := List.forall_mem_cons.2 ⟨hr, hall⟩
        rw [and_iff_right hall']
        constructor
        · rintro ⟨⟩
          rfl
        · rintro rfl
          rfl
    · simp [Memory.read_of_not_inRange hr, hr]

/-- The bytes that a guest hands over with a segment list. -/
def payloadAt (m : Memory) (list count : Nat) : List UInt8 := gathered m (segmentsOf m list count)

/-- The guest has the segment list of a write, its segments, and the place for the result. -/
structure Writable (m : Memory) (list count out : Nat) : Prop where
  listed : m.InRange list (count * Segment.width)
  segments : ∀ s ∈ segmentsOf m list count, m.InRange s.address s.length
  result : m.InRange out 4

/-- What a write to the terminal does for a guest that is bound. -/
lemma write_apply (hg : h.guest = some m) (hd : Interface.isStandard descriptor = true) (list count out : Nat) :
    write descriptor list count out h = ((liftM (segmentsAt m list count) : Op Host _) >>= fun segments =>
      (liftM (gather m segments) : Op Host _) >>= fun payload => do
        modify fun h => h.emit (textOf h.rewriter payload)
        writeGuest out (Bytes.ofNat 4 (payload.length % Word.count))
        return payload.length % Word.count) h := by
  rw [write, hd]
  exact Op.bind_of_ok (guestMemory_eq_ok.2 ⟨hg, rfl⟩)

/-- **A write** posts the text of its payload alone. -/
theorem write_eq_ok (hg : h.guest = some m) :
    write descriptor list count out h = .ok n h' ↔ Interface.isStandard descriptor = true ∧
      Writable m list count out ∧ n = (payloadAt m list count).length % Word.count ∧
      h' = (h.emit (textOf h.rewriter (payloadAt m list count))).bind (m.put out (Bytes.ofNat 4 n)) := by
  have hemit (text : String) : (h.emit text).guest = some m := by
    unfold emit
    split_ifs
    · exact hg
    · exact hg
  have hout (k : Nat) : m.InRange out (Bytes.ofNat 4 k).length ↔ m.InRange out 4 := by rw [Bytes.length_ofNat]
  cases hd : Interface.isStandard descriptor with
  | false => simp [write, hd]
  | true =>
    rw [write_apply hg hd, and_iff_right rfl]
    constructor
    · intro hx
      obtain ⟨segments, h1, hlist, hx⟩ := Op.bind_eq_ok.1 hx
      obtain ⟨hs, rfl⟩ := Op.lift_eq_ok.1 hlist
      obtain ⟨hl, rfl⟩ := segmentsAt_eq_ok.1 hs
      obtain ⟨data, h2, hgather, hx⟩ := Op.bind_eq_ok.1 hx
      obtain ⟨hdata, rfl⟩ := Op.lift_eq_ok.1 hgather
      obtain ⟨hall, rfl⟩ := gather_eq_ok.1 hdata
      rw [Op.modify_bind_apply] at hx
      obtain ⟨u, h3, hw, hx⟩ := Op.bind_eq_ok.1 hx
      obtain ⟨ho, rfl⟩ := (writeGuest_eq_ok (hemit _)).1 hw
      cases hx
      exact ⟨⟨hl, hall, (hout _).1 ho⟩, rfl, rfl⟩
    · rintro ⟨⟨hl, hall, ho⟩, rfl, rfl⟩
      rw [segmentsAt_eq_ok.2 ⟨hl, rfl⟩, Op.lift_ok_bind, gather_eq_ok.2 ⟨hall, rfl⟩, Op.lift_ok_bind,
        Op.modify_bind_apply, Op.bind_of_ok ((writeGuest_eq_ok (hemit _)).2 ⟨(hout _).2 ho, rfl⟩)]
      rfl

/-! ### Many writes -/

/-- Successful writes of these payloads, one after the other. Between them the guest runs, or another one does. -/
inductive Writes (h : Host) : List (List UInt8) → Host → Prop
  | nil : Writes h [] h
  | snoc {pieces : List (List UInt8)} {h' h'' : Host} {descriptor : Int} {list count out n : Nat} (m : Memory)
      (hw : Writes h pieces h') (hx : write descriptor list count out (h'.bind m) = .ok n h'') :
      Writes h (pieces ++ [payloadAt m list count]) h''

/-- Writes post what shows the texts of their payloads, and nothing else. -/
theorem Writes.posted (hw : Writes h pieces h') : h'.rewriter = h.rewriter ∧ ∃ posted,
    h'.events = h.events ++ posted ∧ (∀ e ∈ posted, ∃ text, e = .write text) ∧
      terminalText posted = String.join (pieces.map (textOf h.rewriter)) := by
  induction hw with
  | nil => exact ⟨rfl, [], (List.append_nil _).symm, by simp, rfl⟩
  | @snoc pieces h1 h2 descriptor list count out n m hw hx ih =>
    obtain ⟨hr, posted, hevents, hwrites, htext⟩ := ih
    obtain ⟨-, -, -, rfl⟩ := (write_eq_ok (bind_guest h1 m)).1 hx
    have hr' : (h1.bind m).rewriter = h.rewriter := hr
    rw [hr']
    by_cases hempty : textOf h.rewriter (payloadAt m list count) = ""
    · rw [hempty, emit, if_pos rfl]
      refine ⟨hr, posted, hevents, hwrites, ?_⟩
      rw [List.map_append, String.join_append, List.map_singleton, hempty, htext]
      simp
    · rw [emit, if_neg hempty]
      refine ⟨hr, posted ++ [.write (textOf h.rewriter (payloadAt m list count))], ?_, ?_, ?_⟩
      · show h1.events ++ _ = _
        rw [hevents, List.append_assoc]
      · intro e he
        obtain he | he := List.mem_append.1 he
        · exact hwrites e he
        · exact ⟨_, List.mem_singleton.1 he⟩
      · rw [terminalText_append, htext, List.map_append, String.join_append]
        rfl

/-! ### Cuts that do not show -/

/-- Neither a character nor a token that is replaced is cut where the pieces meet. -/
def Unharmed (rewriter : Option Rewriter) (pieces : List (List UInt8)) : Prop :=
  Uncut Utf8.Tears pieces ∧ ∀ r, rewriter = some r → r.token ≠ r.replacement →
    Uncut (Text.Straddles r.token.toList) (pieces.map fun p => (Utf8.decode p).toList)

lemma textOf_flatten (h : Unharmed rewriter pieces) :
    textOf rewriter pieces.flatten = String.join (pieces.map (textOf rewriter)) := by
  have hdecode := Utf8.decode_flatten_iff.2 h.1
  cases hr : rewriter with
  | none => exact hdecode
  | some r =>
    by_cases hidle : r.token = "" ∨ r.token = r.replacement
    · have htext : textOf (some r) = Utf8.decode := funext fun p => if_pos hidle
      rw [htext]
      exact hdecode
    · have htext : textOf (some r) = fun p => Text.replaceAll r.token r.replacement (Utf8.decode p) :=
        funext fun p => if_neg hidle
      obtain ⟨htoken, hother⟩ := not_or.1 hidle
      have huncut := h.2 r hr hother
      rw [← Function.comp_def, ← List.map_map] at huncut
      rw [htext]
      dsimp only
      rw [hdecode, Text.replaceAll_join htoken huncut, List.map_map]
      rfl

end Host

/-- **How a text was split does not show** where no cut falls inside a character or a token that is replaced. Without
a rewriter it shows everywhere else. -/
theorem terminalText_of_writes {h h' g g' : Host} {pieces : List (List UInt8)} (hw : h.Writes pieces h')
    (hg : g.Writes [pieces.flatten] g') (hr : g.rewriter = h.rewriter) :
    ∃ posted whole, h'.events = h.events ++ posted ∧ g'.events = g.events ++ whole ∧
      (∀ e ∈ posted ++ whole, ∃ text, e = .write text) ∧
      (Host.Unharmed h.rewriter pieces → terminalText posted = terminalText whole) ∧
      (h.rewriter = none → (terminalText posted = terminalText whole ↔ Uncut Utf8.Tears pieces)) := by
  obtain ⟨-, posted, hevents, hwrites, htext⟩ := hw.posted
  obtain ⟨-, whole, hevents', hwrites', htext'⟩ := hg.posted
  rw [hr, List.map_singleton] at htext'
  have hwhole : terminalText whole = Host.textOf h.rewriter pieces.flatten := by simpa using htext'
  refine ⟨posted, whole, hevents, hevents', ?_, ?_, ?_⟩
  · intro e he
    obtain he | he := List.mem_append.1 he
    · exact hwrites e he
    · exact hwrites' e he
  · intro hunharmed
    rw [htext, hwhole, Host.textOf_flatten hunharmed]
  · intro hnone
    rw [htext, hwhole, hnone, ← Utf8.decode_flatten_iff, eq_comm]
    rfl

namespace Host

/-- A guest with one segment, its bytes, and a place for the result of a write. -/
def lineGuest (bytes : List UInt8) : Memory :=
  ⟨(Bytes.ofNat 4 12 ++ Bytes.ofNat 4 bytes.length ++ Bytes.ofNat 4 0 ++ bytes).toArray, #[]⟩

lemma Writes.exists_line (hw : Writes h pieces h') (bytes : List UInt8) (hok : Writable (lineGuest bytes) 0 1 8)
    (hp : payloadAt (lineGuest bytes) 0 1 = bytes) : ∃ h'', Writes h (pieces ++ [bytes]) h'' := by
  have hx : write 1 0 1 8 (h'.bind (lineGuest bytes)) = .ok _ _ :=
    (write_eq_ok (bind_guest h' (lineGuest bytes))).2 ⟨by decide, hok, rfl, rfl⟩
  have hw' := hw.snoc _ hx
  rw [hp] at hw'
  exact ⟨_, hw'⟩

end Host

/-- A character and a letter that is replaced can be written separately. -/
theorem terminalText_of_writes_apart : ∃ h' g' posted whole,
    Host.Writes { rewriter := some ⟨"a", "b"⟩ } [[0xC3, 0xA9], [0x61]] h' ∧
      Host.Writes { rewriter := some ⟨"a", "b"⟩ } [[0xC3, 0xA9, 0x61]] g' ∧ h'.events = posted ∧ g'.events = whole ∧
      terminalText posted = terminalText whole := by
  have hnil := Host.Writes.nil (h := { rewriter := some ⟨"a", "b"⟩ })
  obtain ⟨h1, hw1⟩ := hnil.exists_line [0xC3, 0xA9] ⟨by decide, by decide, by decide⟩ (by decide)
  obtain ⟨h', hw⟩ := hw1.exists_line [0x61] ⟨by decide, by decide, by decide⟩ (by decide)
  obtain ⟨g', hg⟩ := hnil.exists_line [0xC3, 0xA9, 0x61] ⟨by decide, by decide, by decide⟩ (by decide)
  obtain ⟨posted, whole, hevents, hevents', -, htext, -⟩ := terminalText_of_writes hw hg rfl
  refine ⟨h', g', posted, whole, hw, hg, hevents, hevents', htext ⟨?_, ?_⟩⟩
  · exact Utf8.decode_flatten_iff.1 (by decide)
  · rintro r ⟨⟩ - before after - ⟨s, t, hs, ht, -, -, htoken⟩
    -- a token of one character has no two parts
    have hlen := congrArg List.length htoken
    have := List.length_pos_iff.2 hs
    have := List.length_pos_iff.2 ht
    rw [List.length_append] at hlen
    change 1 = _ at hlen
    omega

/-- A character that is written in two halves shows as two replacement characters. -/
theorem exists_split_shows : ¬ ∀ (h h' g g' : Host) (pieces : List (List UInt8)) (posted whole : List Event),
    h.Writes pieces h' → g.Writes [pieces.flatten] g' → g.rewriter = h.rewriter → h'.events = h.events ++ posted →
      g'.events = g.events ++ whole → terminalText posted = terminalText whole := by
  intro hall
  have hnil := Host.Writes.nil (h := {})
  obtain ⟨h1, hw1⟩ := hnil.exists_line [0xC3] ⟨by decide, by decide, by decide⟩ (by decide)
  obtain ⟨h', hw⟩ := hw1.exists_line [0xA9] ⟨by decide, by decide, by decide⟩ (by decide)
  obtain ⟨g', hg⟩ := hnil.exists_line [0xC3, 0xA9] ⟨by decide, by decide, by decide⟩ (by decide)
  obtain ⟨-, posted, hevents, -, htext⟩ := hw.posted
  obtain ⟨-, whole, hevents', -, htext'⟩ := hg.posted
  have hsame := hall _ _ _ _ _ posted whole hw hg rfl hevents hevents'
  rw [htext, htext'] at hsame
  revert hsame
  decide

end ToolchainHost
