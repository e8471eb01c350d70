import ToolchainHost.Memory.View
import ToolchainHost.Proofs.Memory
import ToolchainHost.Proofs.Operation

/-!
# One access through a view

The store may grow or be replaced behind every view, so what a view remembers says nothing. Each access makes its own
view current, and is then served as by a flat array of bytes.

* `LinearMemory.Lawful`: a store that holds the bytes of a memory, at least as long as it is not detached.
* `Views.Current`: a view that is up to date. Bringing it up to date changes no byte.
* `ViewCall`: the accesses, and `ViewCall.flat`, what a flat array answers.
* `View.serves_run`: every access answers what a flat array does, and leaves what that becomes.
-/

namespace ToolchainHost

variable {β : Type} {data : β → Memory}

/-! ### Stores -/

/-- The store holds the bytes of a memory. While it is detached nothing is known of what it reads and writes. -/
structure LinearMemory.Lawful (S : LinearMemory β) (data : β → Memory) : Prop where
  size (s : β) : S.size s = (data s).size
  data_rebind (s : β) : data (S.rebind s) = data s
  isDetached_rebind (s : β) : S.isDetached (S.rebind s) = false
  read {s : β} {address count : Nat} (hd : S.isDetached s = false) (hr : (data s).InRange address count) :
    S.read s address count = (data s).span address count
  data_write {s : β} {address : Nat} {bytes : List UInt8} (hd : S.isDetached s = false)
    (hr : (data s).InRange address bytes.length) : data (S.write s address bytes) = (data s).put address bytes
  isDetached_write {s : β} {address : Nat} {bytes : List UInt8} (hd : S.isDetached s = false)
    (hr : (data s).InRange address bytes.length) : S.isDetached (S.write s address bytes) = false

namespace Backing

lemma read_eq_span {b : Backing} {address count : Nat} (hr : b.memory.InRange address count) :
    b.read address count = b.memory.span address count := by
  have h := Memory.read_of_inRange hr
  rw [Memory.read, if_pos hr] at h
  exact Except.ok.inj h

lemma lawful_fixed : fixed.Lawful Backing.memory where
  size _ := rfl
  data_rebind _ := rfl
  isDetached_rebind _ := rfl
  read _ hr := read_eq_span hr
  data_write _ _ := rfl
  isDetached_write _ _ := rfl

end Backing

/-! ### Views that are up to date -/

namespace Views

/-- The families have the same views. Their stores may differ, and what is remembered. -/
structure SameViews (vs vs' : Views β) : Prop where
  views : vs'.views = vs.views
  cells : vs'.lengths.length = vs.lengths.length

/-- The view looks at a lawful store and has a cell. -/
structure Holds (data : β → Memory) (vs : Views β) (v : View β) : Prop where
  lawful : v.store.Lawful data
  cell_lt : v.cell < vs.lengths.length

/-- The view remembers the present length, and its store may be touched. -/
structure Current (data : β → Memory) (vs : Views β) (v : View β) : Prop where
  remembered : vs.remembered v = (data vs.backing).size
  attached : v.store.isDetached vs.backing = false

/-- The family after a view has written to its store. -/
def written (vs : Views β) (v : View β) (address : Nat) (bytes : List UInt8) : Views β :=
  { vs with backing := v.store.write vs.backing address bytes }

variable {vs : Views β} {v : View β} {address count : Nat} {bytes : List UInt8}

lemma SameViews.trans {vs' vs'' : Views β} (h : vs.SameViews vs') (h' : vs'.SameViews vs'') : vs.SameViews vs'' :=
  ⟨h'.views.trans h.views, h'.cells.trans h.cells⟩

lemma sameViews_renewed (vs : Views β) (v : View β) : vs.SameViews (vs.renewed v) := by
  unfold renewed
  split_ifs
  · exact ⟨rfl, List.length_set ..⟩
  · exact ⟨rfl, rfl⟩

namespace Holds

lemma data_renewed (hv : vs.Holds data v) : data (vs.renewed v).backing = data vs.backing := by
  unfold renewed
  split_ifs
  · exact hv.lawful.data_rebind _
  · rfl

/-- Whatever it remembered, a view that was brought up to date is. -/
lemma current_renewed (hv : vs.Holds data v) : (vs.renewed v).Current data v := by
  have hdata := hv.data_renewed
  unfold renewed at hdata ⊢
  split_ifs at hdata ⊢ with hstale
  · refine ⟨?_, hv.lawful.isDetached_rebind _⟩
    rw [hdata, remembered, List.getD_eq_getElem?_getD, List.getElem?_set_self hv.cell_lt, Option.getD_some,
      hv.lawful.size]
  · obtain ⟨hlength, hattached⟩ := not_or.1 hstale
    exact ⟨(not_not.1 hlength).trans (hv.lawful.size _), Bool.eq_false_iff.2 hattached⟩

lemma not_forbids (hv : vs.Holds data v) (hc : vs.Current data v) (hr : (data vs.backing).InRange address count) :
    ¬ vs.Forbids v address count := by
  rintro (hd | hlong)
  · rw [hc.attached] at hd
    cases hd
  · rw [hv.lawful.size] at hlong
    exact Nat.not_lt.2 hr hlong

/-- A write changes the bytes it covers, and the view stays up to date. -/
lemma current_written (hv : vs.Holds data v) (hc : vs.Current data v)
    (hr : (data vs.backing).InRange address bytes.length) :
    data (vs.written v address bytes).backing = (data vs.backing).put address bytes ∧
      (vs.written v address bytes).Current data v := by
  have hdata : data (vs.written v address bytes).backing = (data vs.backing).put address bytes :=
    hv.lawful.data_write hc.attached hr
  refine ⟨hdata, ?_, hv.lawful.isDetached_write hc.attached hr⟩
  rw [hdata, Memory.size_put]
  exact hc.remembered

end Holds

end Views

/-! ### The steps of an access -/

namespace View

variable {vs : Views β} {v : View β} {address count : Nat} {bytes : List UInt8}

lemma size_apply (hv : vs.Holds data v) : v.size vs = .ok (data vs.backing).size (vs.renewed v) := by
  have h : v.size vs = .ok ((vs.renewed v).remembered v) (vs.renewed v) := rfl
  rw [h, hv.current_renewed.remembered, hv.data_renewed]

lemma check_of_inRange (hv : vs.Holds data v) (hr : (data vs.backing).InRange address count) :
    v.check address count vs = .ok ⟨⟩ (vs.renewed v) := by
  have hlong : ¬ (data vs.backing).size < address + count := Nat.not_lt.2 hr
  unfold check
  rw [Op.bind_of_ok (size_apply hv), if_neg hlong]
  rfl

lemma check_of_not_inRange (hv : vs.Holds data v) (hr : ¬ (data vs.backing).InRange address count) :
    v.check address count vs = .error ((data vs.backing).refusal address count) (vs.renewed v) := by
  have hlong : (data vs.backing).size < address + count := Nat.not_le.1 hr
  unfold check
  rw [Op.bind_of_ok (size_apply hv), if_pos hlong]
  rfl

lemma load_of_current (hv : vs.Holds data v) (hc : vs.Current data v)
    (hr : (data vs.backing).InRange address count) :
    v.load address count vs = .ok ((data vs.backing).span address count) vs := by
  unfold load
  rw [Op.get_bind_apply, if_neg (hv.not_forbids hc hr), ← hv.lawful.read hc.attached hr]
  rfl

lemma save_of_current (hv : vs.Holds data v) (hc : vs.Current data v)
    (hr : (data vs.backing).InRange address bytes.length) :
    v.save address bytes vs = .ok ⟨⟩ (vs.written v address bytes) := by
  unfold save
  rw [Op.get_bind_apply, if_neg (hv.not_forbids hc hr)]
  rfl

lemma holds_renewed (hv : vs.Holds data v) : (vs.renewed v).Holds data v :=
  ⟨hv.lawful, (vs.sameViews_renewed v).cells ▸ hv.cell_lt⟩

lemma readBytes_of_inRange (hv : vs.Holds data v) (hr : (data vs.backing).InRange address count) :
    v.readBytes address count vs = .ok ((data vs.backing).span address count) (vs.renewed v) := by
  have hload := load_of_current (holds_renewed hv) hv.current_renewed (hv.data_renewed.symm ▸ hr)
  rw [hv.data_renewed] at hload
  exact (Op.bind_of_ok (check_of_inRange hv hr)).trans hload

lemma readBytes_of_not_inRange (hv : vs.Holds data v) (hr : ¬ (data vs.backing).InRange address count) :
    v.readBytes address count vs = .error ((data vs.backing).refusal address count) (vs.renewed v) :=
  Op.bind_of_error (check_of_not_inRange hv hr)

lemma writeBytes_of_inRange (hv : vs.Holds data v) (hr : (data vs.backing).InRange address bytes.length) :
    v.writeBytes address bytes vs = .ok bytes.length ((vs.renewed v).written v address bytes) := by
  have hsave := save_of_current (holds_renewed hv) hv.current_renewed (hv.data_renewed.symm ▸ hr)
  unfold writeBytes
  rw [Op.bind_of_ok (check_of_inRange hv hr), Op.bind_of_ok hsave]
  rfl

lemma writeBytes_of_not_inRange (hv : vs.Holds data v) (hr : ¬ (data vs.backing).InRange address bytes.length) :
    v.writeBytes address bytes vs = .error ((data vs.backing).refusal address bytes.length) (vs.renewed v) :=
  Op.bind_of_error (check_of_not_inRange hv hr)

end View

/-! ### Accesses -/

/-- An access through a view. -/
inductive ViewCall where
  | size
  | readByte (address : Nat)
  | readWord (address : Nat)
  | readBytes (address count : Nat)
  | readText (address : Nat) (count : Option Nat)
  /-- Stores a number in `width` bytes. -/
  | writeNumber (width address value : Nat)
  | writeBytes (address : Nat) (bytes : List UInt8)
  | writeText (address : Nat) (text : String)

/-- What an access gives. -/
inductive ViewAnswer where
  | done
  | number (n : Nat)
  | byte (b : UInt8)
  | bytes (bs : List UInt8)
  | text (t : String)
  deriving DecidableEq

namespace ViewCall

/-- How a view does what is asked. -/
def run (v : View β) : ViewCall → Op (Views β) ViewAnswer
  | size => return .number (← v.size)
  | readByte address => return .byte (← v.readByte address)
  | readWord address => return .number (← v.readWord address)
  | readBytes address count => return .bytes (← v.readBytes address count)
  | readText address count => return .text (← v.readText address count)
  | writeNumber width address value => do
    v.writeNumber width address value
    return .done
  | writeBytes address bytes => return .number (← v.writeBytes address bytes)
  | writeText address text => return .number (← v.writeText address text)

/-- Where an access begins. -/
def address : ViewCall → Nat
  | size => 0
  | readByte address | readWord address | readBytes address _ | readText address _ | writeNumber _ address _ |
    writeBytes address _ | writeText address _ => address

/-- The number of bytes that an access touches. A text without a count goes to the end of memory, and behind it one
byte is asked for. -/
def extent (m : Memory) : ViewCall → Nat
  | size => 0
  | readByte _ => 1
  | readWord _ => 4
  | readBytes _ count => count
  | readText _ (some count) => count
  | readText address none => if m.size < address then 1 else m.size - address
  | writeNumber width _ _ => width
  | writeBytes _ bytes => bytes.length
  | writeText _ text => (Utf8.encode text).length + 1

/-- The bytes that an access stores. -/
def stored : ViewCall → List UInt8
  | writeNumber width _ value => Bytes.ofNat width value
  | writeBytes _ bytes => bytes
  | writeText _ text => Utf8.encode text ++ [0]
  | _ => []

/-- What an access gives that finds some bytes in a memory. -/
def answer (m : Memory) (found : List UInt8) : ViewCall → ViewAnswer
  | size => .number m.size
  | readByte _ => .byte (found.headD 0)
  | readWord _ => .number (Bytes.toNat found)
  | readBytes .. => .bytes found
  | readText .. => .text (Utf8.decode (found.takeWhile (· != 0)))
  | writeNumber .. => .done
  | writeBytes _ bytes => .number bytes.length
  | writeText _ text => .number ((Utf8.encode text).length + 1)

/-- What an access gives on a flat array of bytes, and what the array is then. -/
def flat (c : ViewCall) (m : Memory) : Except Failure ViewAnswer × Memory :=
  if c.address + c.extent m ≤ m.size then
    (.ok (c.answer m (m.span c.address (c.extent m))), m.put c.address c.stored)
  else (.error (.outOfBounds c.address (c.extent m) m.size), m)

end ViewCall

namespace View

variable {vs : Views β} {v : View β} {m : Memory} {c : ViewCall}

/-- An operation on views gives what a flat array gives, and leaves what that becomes. -/
def Serves (data : β → Memory) (vs : Views β) (x : Op (Views β) ViewAnswer)
    (r : Except Failure ViewAnswer × Memory) : Prop :=
  ∃ vs', Op.attempt x vs = .ok r.1 vs' ∧ data vs'.backing = r.2 ∧ vs.SameViews vs'

lemma serves_of_ok {x : Op (Views β) ViewAnswer} {vs' : Views β} (hr : m.InRange c.address (c.extent m))
    (hx : x vs = .ok (c.answer m (m.span c.address (c.extent m))) vs')
    (hd : data vs'.backing = m.put c.address c.stored) (hs : vs.SameViews vs') : Serves data vs x (c.flat m) := by
  have hle : c.address + c.extent m ≤ m.size := hr
  rw [ViewCall.flat, if_pos hle]
  exact ⟨vs', Op.attempt_of_ok hx, hd, hs⟩

lemma serves_of_error {x : Op (Views β) ViewAnswer} {vs' : Views β} (hr : ¬ m.InRange c.address (c.extent m))
    (hx : x vs = .error (m.refusal c.address (c.extent m)) vs') (hd : data vs'.backing = m)
    (hs : vs.SameViews vs') : Serves data vs x (c.flat m) := by
  have hle : ¬ c.address + c.extent m ≤ m.size := hr
  rw [ViewCall.flat, if_neg hle]
  exact ⟨vs', Op.attempt_of_error hx, hd, hs⟩

/-- An access that reads bytes and gives what they say. -/
lemma serves_reading (hv : vs.Holds data v)
    (hx : c.run v = do return c.answer (data vs.backing) (← v.readBytes c.address (c.extent (data vs.backing))))
    (hn : c.stored = []) : Serves data vs (c.run v) (c.flat (data vs.backing)) := by
  have hsame := vs.sameViews_renewed v
  rw [hx]
  by_cases hr : (data vs.backing).InRange c.address (c.extent (data vs.backing))
  · refine serves_of_ok hr (Op.bind_of_ok (readBytes_of_inRange hv hr)) ?_ hsame
    rw [hv.data_renewed, hn, Memory.put_nil]
  · exact serves_of_error hr (Op.bind_of_error (readBytes_of_not_inRange hv hr)) hv.data_renewed hsame

/-- A text without a count is read to the end of memory. -/
lemma serves_readText_none (hv : vs.Holds data v) (address : Nat) :
    Serves data vs ((ViewCall.readText address none).run v)
      ((ViewCall.readText address none).flat (data vs.backing)) := by
  have hsize := size_apply hv
  have hs1 := vs.sameViews_renewed v
  by_cases hlong : (data vs.backing).size < address
  · have he : ViewCall.extent (data vs.backing) (.readText address none) = 1 := if_pos hlong
    have hr : ¬ (data vs.backing).InRange address 1 := Nat.not_le.2 (Nat.lt_succ_of_lt hlong)
    have hx : v.readText address none vs = .error ((data vs.backing).refusal address 1) (vs.renewed v) := by
      refine (Op.bind_of_ok hsize).trans ?_
      rw [if_pos hlong]
      rfl
    refine serves_of_error (by rwa [he]) ?_ hv.data_renewed hs1
    rw [he]
    exact Op.bind_of_error hx
  · have he : ViewCall.extent (data vs.backing) (.readText address none) = (data vs.backing).size - address :=
      if_neg hlong
    have hv1 := holds_renewed hv
    have hr : (data vs.backing).InRange address ((data vs.backing).size - address) := by
      unfold Memory.InRange
      omega
    have hread := readBytes_of_inRange hv1 (hv.data_renewed.symm ▸ hr)
    rw [hv.data_renewed] at hread
    have hx : v.readText address none vs =
        .ok (Memory.textOf ((data vs.backing).span address ((data vs.backing).size - address)))
          ((vs.renewed v).renewed v) := by
      refine (Op.bind_of_ok hsize).trans ?_
      rw [if_neg hlong]
      exact Op.bind_of_ok hread
    refine serves_of_ok (by rwa [he]) ?_ (hv1.data_renewed.trans hv.data_renewed)
      (hs1.trans ((vs.renewed v).sameViews_renewed v))
    rw [he]
    exact Op.bind_of_ok hx

/-- An access that writes bytes in one piece. -/
lemma serves_writing (hv : vs.Holds data v) {g : Nat → ViewAnswer}
    (hx : c.run v = do return g (← v.writeBytes c.address c.stored))
    (hl : c.extent (data vs.backing) = c.stored.length)
    (ha : ∀ found, c.answer (data vs.backing) found = g c.stored.length) :
    Serves data vs (c.run v) (c.flat (data vs.backing)) := by
  have hsame := vs.sameViews_renewed v
  rw [hx]
  by_cases hr : (data vs.backing).InRange c.address c.stored.length
  · have hdata := ((holds_renewed hv).current_written hv.current_renewed (hv.data_renewed.symm ▸ hr)).1
    rw [hv.data_renewed] at hdata
    refine serves_of_ok (by rwa [hl]) ?_ hdata ⟨hsame.views, hsame.cells⟩
    rw [Op.bind_of_ok (writeBytes_of_inRange hv hr), ha]
    rfl
  · refine serves_of_error (by rwa [hl]) ?_ hv.data_renewed hsame
    rw [Op.bind_of_error (writeBytes_of_not_inRange hv hr), hl]

/-- A text and the NUL behind it are put in two pieces. -/
lemma writeText_of_inRange (hv : vs.Holds data v) {address : Nat} {text : String}
    (hr : (data vs.backing).InRange address ((Utf8.encode text).length + 1)) :
    ∃ vs', v.writeText address text vs = .ok ((Utf8.encode text).length + 1) vs' ∧
      data vs'.backing = (data vs.backing).put address (Utf8.encode text ++ [0]) ∧ vs.SameViews vs' := by
  set bytes := Utf8.encode text
  have hsame := vs.sameViews_renewed v
  have hv1 := holds_renewed hv
  have hc1 := hv.current_renewed
  have hd1 := hv.data_renewed
  have hr1 : (data (vs.renewed v).backing).InRange address bytes.length := by
    rw [hd1]
    exact Nat.le_trans (by omega) hr
  obtain ⟨hd2, hc2⟩ := hv1.current_written hc1 hr1
  have hv2 : ((vs.renewed v).written v address bytes).Holds data v := ⟨hv.lawful, hv1.cell_lt⟩
  have hr2 : (data ((vs.renewed v).written v address bytes).backing).InRange (address + bytes.length)
      [(0 : UInt8)].length := by
    unfold Memory.InRange at hr ⊢
    rw [hd2, Memory.size_put, hd1, Nat.add_assoc]
    exact hr
  have hd3 := (hv2.current_written hc2 hr2).1
  refine ⟨((vs.renewed v).written v address bytes).written v (address + bytes.length) [0], ?_, ?_,
    ⟨hsame.views, hsame.cells⟩⟩
  · unfold writeText
    rw [Op.bind_of_ok (check_of_inRange hv hr), Op.bind_of_ok (save_of_current hv1 hc1 hr1),
      Op.bind_of_ok (save_of_current hv2 hc2 hr2)]
    rfl
  · rw [hd3, hd2, hd1, Memory.put_put]

lemma serves_writeText (hv : vs.Holds data v) (address : Nat) (text : String) :
    Serves data vs ((ViewCall.writeText address text).run v)
      ((ViewCall.writeText address text).flat (data vs.backing)) := by
  by_cases hr : (data vs.backing).InRange address ((Utf8.encode text).length + 1)
  · obtain ⟨vs', hx, hd, hs⟩ := writeText_of_inRange hv hr
    exact serves_of_ok (c := .writeText address text) hr (Op.bind_of_ok hx) hd hs
  · have hx : v.writeText address text vs = _ := Op.bind_of_error (check_of_not_inRange hv hr)
    exact serves_of_error (c := .writeText address text) hr (Op.bind_of_error hx) hv.data_renewed
      (vs.sameViews_renewed v)

/-- One access through a view, whatever the view remembers, is what a flat array does. -/
theorem serves_run (hv : vs.Holds data v) (c : ViewCall) : Serves data vs (c.run v) (c.flat (data vs.backing)) := by
  cases c with
  | size =>
    have hr : (data vs.backing).InRange 0 0 := Nat.zero_le _
    exact serves_of_ok (c := .size) hr (Op.bind_of_ok (size_apply hv)) hv.data_renewed (vs.sameViews_renewed v)
  | readByte address => exact serves_reading hv (bind_assoc ..) rfl
  | readWord address => exact serves_reading hv (bind_assoc ..) rfl
  | readBytes address count => exact serves_reading hv rfl rfl
  | readText address count =>
    cases count with
    | some count => exact serves_reading hv (bind_assoc ..) rfl
    | none => exact serves_readText_none hv address
  | writeNumber width address value =>
    exact serves_writing (g := fun _ => .done) hv (bind_assoc ..)
      (Bytes.length_ofNat width value).symm fun _ => rfl
  | writeBytes address bytes => exact serves_writing (g := .number) hv rfl rfl fun _ => rfl
  | writeText address text => exact serves_writeText hv address text

end View

end ToolchainHost
