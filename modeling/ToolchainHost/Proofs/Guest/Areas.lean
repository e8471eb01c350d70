import ToolchainHost.Proofs.Guest.Tables

/-!
# Where the strings of a table are put

A guest names two areas, one for the addresses of strings and one for the strings. The addresses are summed up before
either area is looked at, and the first is written before the second is looked at.

* `Running.tableEntries_eq`: how the call ends, for any two areas.
* `Settles`: the two ends that a guest can live with. Either every address that is stored is the exact sum, or the call
  is refused and nothing has changed.
* `strings_settle_iff`: the call ends so iff the areas do no harm, and what becomes of each harm.
-/

namespace ToolchainHost

open Interface (Errno)

namespace Memory

variable {m : Memory} {address : Nat} {words : List Nat} {data : List UInt8}

/-- The words at an address and behind it. -/
def Points (m : Memory) (address : Nat) (words : List Nat) : Prop :=
  ∀ i w, words[i]? = some w → m.readWord (address + 4 * i) = .ok w

/-- Packed words are read back, up to multiples of the number of words. -/
lemma readWord_of_packed (hr : m.InRange address (4 * words.length))
    (hs : m.span address (4 * words.length) = words.flatMap (Bytes.ofNat 4)) {i w : Nat} (hi : words[i]? = some w) :
    m.readWord (address + 4 * i) = .ok (w % Word.count) := by
  induction words generalizing address i with
  | nil => cases hi
  | cons first rest ih =>
    unfold InRange at hr ih
    rw [List.length_cons, Nat.mul_add, Nat.mul_one, Nat.add_comm] at hr hs
    rw [span_add, List.flatMap_cons] at hs
    obtain ⟨hfirst, hrest⟩ := List.append_inj hs (by rw [length_span, Bytes.length_ofNat])
    cases i with
    | zero =>
      obtain rfl : first = w := Option.some.inj hi
      exact readWord_of_bytes (by unfold InRange; omega) hfirst
    | succ i =>
      rw [← ih (by omega) hrest hi, show address + 4 * (i + 1) = address + 4 + 4 * i by omega]

/-- Packed words are what is there iff they are words indeed. -/
lemma points_put_iff (hr : m.InRange address (4 * words.length)) :
    (m.put address (words.flatMap (Bytes.ofNat 4))).Points address words ↔ ∀ w ∈ words, w < Word.count := by
  have hlen := length_flatMap_ofNat words
  have hin : m.InRange address (words.flatMap (Bytes.ofNat 4)).length := by rwa [hlen]
  have hspan := span_put_self hin
  rw [hlen] at hspan
  have hread {i w : Nat} (hi : words[i]? = some w) := readWord_of_packed (by rwa [InRange, size_put]) hspan hi
  constructor
  · intro hp w hw
    obtain ⟨i, hi⟩ := List.mem_iff_getElem?.1 hw
    have hsame := (hread hi).symm.trans (hp i w hi)
    rw [← Except.ok.inj hsame]
    exact Nat.mod_lt _ (by decide)
  · intro hall i w hi
    rw [hread hi, Nat.mod_eq_of_lt (hall w (List.mem_of_getElem? hi))]

/-- A word is still there after a write elsewhere. -/
lemma readWord_put_of_apart {start : Nat} (h : start + 4 ≤ address ∨ address + data.length ≤ start) :
    (m.put address data).readWord start = m.readWord start := by
  rw [readWord, readWord]
  by_cases hr : m.InRange start 4
  · rw [read_of_inRange hr, read_of_inRange (by rwa [InRange, size_put]), span_put_of_apart h]
  · rw [read_of_not_inRange hr, read_of_not_inRange (by rwa [InRange, size_put]), refusal, refusal, size_put]

end Memory

namespace StringTable

/-- The address of a string is too large for a word when it is summed up. -/
def Overflows (t : StringTable) (base : Nat) : Prop := ∃ o ∈ t.offsets, Word.count ≤ base + o % Word.count

instance (t : StringTable) (base : Nat) : Decidable (t.Overflows base) := inferInstanceAs (Decidable (∃ o ∈ _, _))

/-- The exact addresses of the strings. -/
def addresses (t : StringTable) (base : Nat) : List Nat := t.offsets.map (base + ·)

/-- The bytes that are stored for them. -/
def packed (t : StringTable) (base : Nat) : List UInt8 := Memory.packedAddresses base 0 t.entries

lemma length_addresses (t : StringTable) (base : Nat) : (t.addresses base).length = t.count := by
  rw [addresses, List.length_map, offsets, length_offsetsFrom, count]

lemma pointers_of_overflows {t : StringTable} {base : Nat} (h : t.Overflows base) :
    t.pointers base = .error .crash := by
  rw [pointers_eq, if_neg]
  obtain ⟨o, ho, hle⟩ := h
  exact fun hall => absurd (hall o ho) (Nat.not_lt.2 hle)

lemma pointers_of_not_overflows {t : StringTable} {base : Nat} (h : ¬ t.Overflows base) :
    t.pointers base = .ok (t.packed base) := by
  rw [pointers_eq, if_pos]
  · rfl
  · exact fun o ho => Nat.not_le.1 fun hle => h ⟨o, ho, hle⟩

end StringTable

/-! ### How the call ends -/

namespace Running

variable {r : Running} {m : Memory}

lemma store_of_not_inRange (hg : r.host.guest = some m) {address : Nat} {data : List UInt8}
    (hr : ¬ m.InRange address data.length) :
    store address data r = .error (m.refusal address data.length) r := by
  unfold store
  rw [Op.bind_of_ok (memory_of_some hg), Memory.write_of_not_inRange hr, Op.lift_error_bind]

/-- **The call for the strings of a table** ends in one of four ways. -/
theorem tableEntries_eq (hg : r.host.guest = some m) (t : StringTable) (pointers strings : Nat) :
    tableEntries t pointers strings r =
      if t.Overflows strings then .error .crash r
      else if ¬ m.InRange pointers (4 * t.count) then .error (m.refusal pointers (4 * t.count)) r
      else if ¬ m.InRange strings t.size then
        .error (m.refusal strings t.size) (r.withGuest (m.put pointers (t.packed strings)))
      else .ok .success (r.withGuest ((m.put pointers (t.packed strings)).put strings t.strings)) := by
  have hlen : (t.packed strings).length = 4 * t.count := Memory.length_packedAddresses ..
  unfold tableEntries
  rw [Op.bind_of_ok (memory_of_some hg)]
  by_cases ho : t.Overflows strings
  · rw [if_pos ho, StringTable.pointers_of_overflows ho, Op.lift_error_bind]
  rw [if_neg ho, StringTable.pointers_of_not_overflows ho, Op.lift_ok_bind]
  by_cases hp : m.InRange pointers (4 * t.count)
  · rw [if_neg (not_not_intro hp), Op.bind_of_ok (store_of_inRange hg pointers _ (by rwa [hlen]))]
    by_cases hs : m.InRange strings t.size
    · rw [if_neg (not_not_intro hs), Op.bind_of_ok (store_of_inRange rfl strings t.strings
        (by rwa [Memory.InRange, Memory.size_put])), Op.pure_apply]
      rfl
    · have hout : ¬ (m.put pointers (t.packed strings)).InRange strings t.strings.length := by
        rwa [Memory.InRange, Memory.size_put]
      have hstore := store_of_not_inRange (r := r.withGuest (m.put pointers (t.packed strings))) rfl hout
      rw [if_pos hs, Op.bind_of_error hstore, Memory.refusal, Memory.refusal, Memory.size_put]
      rfl
  · have hout : ¬ m.InRange pointers (t.packed strings).length := by rwa [hlen]
    rw [if_pos hp, Op.bind_of_error (store_of_not_inRange hg hout), hlen]

end Running

/-! ### Ends that a guest can live with -/

section Settling

variable (t : StringTable) (m : Memory) (pointers strings : Nat) (r : Running)

/-- The call has stored exact addresses and the strings, and the addresses that the strings do not lie over are found
in the end. Or it was refused for an area that the guest does not have, and nothing has changed. -/
inductive Settles : EStateM.Result Failure Running Errno → Prop
  | stored (hp : (m.put pointers (t.packed strings)).Points pointers (t.addresses strings))
      (hk : ∀ i a, (t.addresses strings)[i]? = some a →
        pointers + 4 * i + 4 ≤ strings ∨ strings + t.size ≤ pointers + 4 * i →
        ((m.put pointers (t.packed strings)).put strings t.strings).readWord (pointers + 4 * i) = .ok a) :
      Settles (.ok .success (r.withGuest ((m.put pointers (t.packed strings)).put strings t.strings)))
  | refused {address count : Nat} (hr : ¬ m.InRange address count) : Settles (.error (m.refusal address count) r)

/-- What can go wrong: an address overflows when it is summed up, or it is cut when it is stored, or the area of the
addresses is written although there is none for the strings. -/
inductive Harms : Prop
  | overflow (ho : t.Overflows strings)
  | cut (hp : m.InRange pointers (4 * t.count)) (hs : m.InRange strings t.size)
      (hc : ∃ a ∈ t.addresses strings, Word.count ≤ a)
  | torn (hp : m.InRange pointers (4 * t.count)) (hs : ¬ m.InRange strings t.size)
      (hn : m.span pointers (4 * t.count) ≠ t.packed strings)

end Settling

variable {c : TableCalls} {r : Running} {m : Memory} {t : StringTable} {pointers strings : Nat}

/-- A call that settles with a failure has changed nothing. -/
lemma Settles.unchanged {e : Failure} {r' : Running} (h : Settles t m pointers strings r (.error e r')) : r' = r := by
  cases h
  rfl

/-- Where both areas are written, the addresses are exact iff none of them is cut. -/
lemma points_packed_iff (hp : m.InRange pointers (4 * t.count)) :
    (m.put pointers (t.packed strings)).Points pointers (t.addresses strings) ↔
      ∀ a ∈ t.addresses strings, a < Word.count := by
  have hin : m.InRange pointers (4 * (t.addresses strings).length) := by rwa [StringTable.length_addresses]
  exact Memory.points_put_iff hin

/-- Writing the addresses changes nothing iff they were there. -/
lemma withGuest_packed_eq_iff (hg : r.host.guest = some m) (hp : m.InRange pointers (4 * t.count)) :
    r.withGuest (m.put pointers (t.packed strings)) = r ↔ m.span pointers (4 * t.count) = t.packed strings := by
  have hlen : (t.packed strings).length = 4 * t.count := Memory.length_packedAddresses ..
  constructor
  · intro hsame
    have hguest := congrArg (fun r : Running => r.host.guest) hsame
    have hin : m.InRange pointers (t.packed strings).length := by rwa [hlen]
    have hspan := Memory.span_put_self hin
    rwa [Option.some.inj (hguest.trans hg), hlen] at hspan
  · intro hsame
    rw [← hsame, Memory.put_span, Running.withGuest, Host.bind, ← hg]

/-- Where both areas are written, the call settles iff no address is cut. -/
lemma settles_stored_iff (ho : ¬ t.Overflows strings) (hp : m.InRange pointers (4 * t.count))
    (hs : m.InRange strings t.size) :
    Settles t m pointers strings r
        (.ok .success (r.withGuest ((m.put pointers (t.packed strings)).put strings t.strings))) ↔
      ¬ Harms t m pointers strings := by
  constructor
  · intro hsettles hharms
    cases hsettles with
    | stored hexact =>
      cases hharms with
      | overflow ho' => exact ho ho'
      | cut _ _ hc =>
        obtain ⟨a, ha, hle⟩ := hc
        exact absurd ((points_packed_iff hp).1 hexact a ha) (Nat.not_lt.2 hle)
      | torn _ hs' => exact hs' hs
  · intro hharms
    have hexact := (points_packed_iff hp).2 fun a ha => Nat.not_le.1 fun hle => hharms (.cut hp hs ⟨a, ha, hle⟩)
    refine .stored hexact fun i a hi hapart => ?_
    rw [Memory.readWord_put_of_apart hapart]
    exact hexact i a hi

/-- Where the call is refused when the addresses have been written, it settles iff they were there before. -/
lemma settles_refused_iff (hg : r.host.guest = some m) (ho : ¬ t.Overflows strings)
    (hp : m.InRange pointers (4 * t.count)) (hs : ¬ m.InRange strings t.size) :
    Settles t m pointers strings r
        (.error (m.refusal strings t.size) (r.withGuest (m.put pointers (t.packed strings)))) ↔
      ¬ Harms t m pointers strings := by
  constructor
  · intro hsettles hharms
    cases hharms with
    | overflow ho' => exact ho ho'
    | cut _ hs' => exact hs hs'
    | torn _ _ hn => exact hn ((withGuest_packed_eq_iff hg hp).1 hsettles.unchanged)
  · intro hharms
    have hsame := Classical.not_not.1 fun hn => hharms (.torn hp hs hn)
    rw [(withGuest_packed_eq_iff hg hp).2 hsame]
    exact .refused hs

/-- **The strings of a table are safe iff the areas do no harm.** If they do not, then the call has stored every string
and its exact address, or it is refused and nothing has changed. If the sum of an address overflows, the call ends with
a crash. If there is no area for the strings, the call is refused when the addresses have been written. -/
theorem strings_settle_iff (hg : r.host.guest = some m) (ht : c.table r.process = t) (pointers strings : Nat) :
    (Settles t m pointers strings r (c.strings pointers strings r) ↔ ¬ Harms t m pointers strings) ∧
      (t.Overflows strings → c.strings pointers strings r = .error .crash r) ∧
      (¬ t.Overflows strings → m.InRange pointers (4 * t.count) → ¬ m.InRange strings t.size →
        c.strings pointers strings r =
          .error (m.refusal strings t.size) (r.withGuest (m.put pointers (t.packed strings)))) := by
  rw [c.strings_apply, ht, Running.tableEntries_eq hg]
  refine ⟨?_, fun ho => if_pos ho, fun ho hp hs => by rw [if_neg ho, if_neg (not_not_intro hp), if_pos hs]⟩
  by_cases ho : t.Overflows strings
  · rw [if_pos ho]
    refine iff_of_false (fun hs => ?_) (not_not_intro (.overflow ho))
    cases hs
  rw [if_neg ho]
  by_cases hp : m.InRange pointers (4 * t.count)
  · rw [if_neg (not_not_intro hp)]
    by_cases hs : m.InRange strings t.size
    · rw [if_neg (not_not_intro hs)]
      exact settles_stored_iff ho hp hs
    · rw [if_pos hs]
      exact settles_refused_iff hg ho hp hs
  · rw [if_pos hp]
    refine iff_of_true (.refused hp) fun hharms => ?_
    cases hharms with
    | overflow ho' => exact ho ho'
    | cut hp' => exact hp hp'
    | torn hp' => exact hp hp'

/-- A guest with one argument and eight bytes. -/
def crampedRunning : Running := ⟨.new ["a"] "PWD=/" 1, ({} : Host).bind ⟨#[0, 0, 0, 0, 0, 0, 0, 0], #[]⟩⟩

/-- The guest has room for the argument at its sixth byte. At its last one it has not, but the address is written. -/
theorem strings_settle_iff_cramped :
    Settles ⟨["a"]⟩ ⟨#[0, 0, 0, 0, 0, 0, 0, 0], #[]⟩ 0 6 crampedRunning
        (TableCalls.arguments.strings 0 6 crampedRunning) ∧
      ¬ Settles ⟨["a"]⟩ ⟨#[0, 0, 0, 0, 0, 0, 0, 0], #[]⟩ 0 7 crampedRunning
        (TableCalls.arguments.strings 0 7 crampedRunning) := by
  constructor
  · refine (strings_settle_iff (c := .arguments) (r := crampedRunning) rfl rfl 0 6).1.2 fun hharms => ?_
    cases hharms with
    | overflow ho => exact absurd ho (by decide)
    | cut _ _ hc => exact absurd hc (by decide)
    | torn _ hs => exact hs (by decide)
  · intro hsettles
    exact (strings_settle_iff (c := .arguments) (r := crampedRunning) rfl rfl 0 7).1.1 hsettles
      (.torn (by decide) (by decide) (by decide))

/-- Not every call for the strings of a table ends in a way that a guest can live with. -/
theorem exists_strings_torn : ¬ ∀ (c : TableCalls) (r : Running) (m : Memory) (pointers strings : Nat),
    r.host.guest = some m → pointers < Word.count → strings < Word.count →
      Settles (c.table r.process) m pointers strings r (c.strings pointers strings r) := by
  intro hall
  have hsettles := hall .arguments crampedRunning _ 0 7 rfl (by decide) (by decide)
  have hrun : TableCalls.arguments.strings 0 7 crampedRunning =
      .error (.outOfBounds 7 2 8) (crampedRunning.withGuest ⟨#[7, 0, 0, 0, 0, 0, 0, 0], #[]⟩) := rfl
  rw [hrun] at hsettles
  have hguest := congrArg (fun r : Running => r.host.guest) hsettles.unchanged
  cases hguest

end ToolchainHost
