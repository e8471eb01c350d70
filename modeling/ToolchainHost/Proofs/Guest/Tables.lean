import ToolchainHost.Guest.ProcessState
import ToolchainHost.Proofs.Memory
import ToolchainHost.Proofs.Operation
import ToolchainHost.Proofs.Text.Utf8

/-!
# Tables of strings in a guest's memory

A guest asks how many strings there are and how many bytes they take, makes room, and has the strings and their
addresses stored there. What it then finds at the addresses are the strings, in order.

* `Memory.Lists`: a list of addresses, each of a text in one area.
* `Memory.lists_of_spans`: the packed addresses and the packed strings make such a list.
* `StringTable.pointers_eq`: what the addresses are, and when a sum is too large for a word.
* `TableCalls`: the two calls for the arguments, and the two for the environment.
* `strings_come_back`: what a guest learns by the two calls is the table.
-/

namespace ToolchainHost

open Interface (Errno)

lemma StringTable.length_offsetsFrom (start : Nat) (names : List String) :
    (offsetsFrom start names).length = names.length := by
  induction names generalizing start with
  | nil => rfl
  | cons first rest ih => rw [offsetsFrom, List.length_cons, ih, List.length_cons]

namespace Memory

variable {m m' : Memory} {address count pointers strings size : Nat} {name : String} {names : List String}

/-- The `count` bytes at `address` are in memory, and a guest, whose addresses are words, can name them. -/
structure Addressable (m : Memory) (address count : Nat) : Prop where
  inRange : m.InRange address count
  le_count : address + count ≤ Word.count

/-- Two areas that share no byte. -/
def Disjoint (address count address' count' : Nat) : Prop := address + count ≤ address' ∨ address' + count' ≤ address

instance (a n b k : Nat) : Decidable (Disjoint a n b k) := inferInstanceAs (Decidable (_ ∨ _))

/-- Two memories of one size that have the same bytes outside two areas. -/
structure SameOutside (m : Memory) (address count address' count' : Nat) (m' : Memory) : Prop where
  size_eq : m'.size = m.size
  byte_eq : ∀ i, (i < address ∨ address + count ≤ i) → (i < address' ∨ address' + count' ≤ i) → m'.byte i = m.byte i

/-- The words at `pointers` are addresses of texts in the area of `size` bytes at `strings`, and these are `names`. -/
def Lists (m : Memory) (pointers strings size : Nat) (names : List String) : Prop :=
  ∀ i name, names[i]? = some name → ∃ p, m.readWord (pointers + 4 * i) = .ok p ∧ strings ≤ p ∧
    p + (Utf8.encode name).length < strings + size ∧ m.readText p none = .ok name

section TwoWrites

variable (m : Memory) (a b : Nat) (xs ys : List UInt8)

lemma sameOutside_put_put :
    m.SameOutside a xs.length b ys.length ((m.put a xs).put b ys) where
  size_eq := by rw [size_put, size_put]
  byte_eq i ha hb := by rw [byte_put_of_outside hb, byte_put_of_outside ha]

/-- What was written to two areas that share no byte is in both. -/
lemma spans_put_put (ha : m.InRange a xs.length) (hb : m.InRange b ys.length)
    (hd : Disjoint a xs.length b ys.length) :
    ((m.put a xs).put b ys).span a xs.length = xs ∧ ((m.put a xs).put b ys).span b ys.length = ys := by
  have hb' : (m.put a xs).InRange b ys.length := by rwa [InRange, size_put]
  refine ⟨?_, span_put_self hb'⟩
  rw [span_put_of_apart hd, span_put_self ha]

end TwoWrites

/-! ### Words and texts -/

/-- Four bytes hold a number up to multiples of the number of words. -/
lemma readWord_of_bytes {n : Nat} (hr : m.InRange address 4) (hs : m.span address 4 = Bytes.ofNat 4 n) :
    m.readWord address = .ok (n % Word.count) := by
  rw [readWord, read_of_inRange hr, hs]
  exact congrArg Except.ok (Bytes.toNat_ofNat 4 n)

lemma readWord_of_span {n : Nat} (hr : m.InRange address 4) (hn : n < Word.count)
    (hs : m.span address 4 = Bytes.ofNat 4 n) : m.readWord address = .ok n := by
  rw [readWord_of_bytes hr hs, Nat.mod_eq_of_lt hn]

/-- A text is read up to the NUL behind it. -/
lemma readText_of_span (hn : '\x00' ∉ name.toList) (hr : m.InRange address ((Utf8.encode name).length + 1))
    (hs : m.span address ((Utf8.encode name).length + 1) = Utf8.encode name ++ [0]) :
    m.readText address none = .ok name := by
  unfold InRange at hr
  have hread : m.InRange address (m.size - address) := by unfold InRange; omega
  have hlen : m.size - address =
      (Utf8.encode name).length + 1 + (m.size - address - ((Utf8.encode name).length + 1)) := by omega
  have htake : ((m.span address (m.size - address)).takeWhile (· != 0)) = Utf8.encode name := by
    have hall : ∀ b ∈ Utf8.encode name, (b != 0) = true := fun b hb =>
      bne_iff_ne.2 fun e => Utf8.zero_notMem_encode hn (e ▸ hb)
    rw [hlen, span_add, hs, List.append_assoc, List.takeWhile_append_of_pos hall, List.singleton_append,
      List.takeWhile_cons_of_neg (by decide), List.append_nil]
  rw [readText, if_pos (by omega), read_of_inRange hread]
  refine congrArg Except.ok ?_
  rw [textOf, htake, Utf8.decode_encode]

/-! ### Packed strings and their addresses -/

/-- The addresses of strings that lie one after the other from `offset` bytes behind `base` on. -/
def packedAddresses (base offset : Nat) (names : List String) : List UInt8 :=
  ((StringTable.offsetsFrom offset names).map (base + ·)).flatMap (Bytes.ofNat 4)

lemma length_flatMap_ofNat (words : List Nat) : (words.flatMap (Bytes.ofNat 4)).length = 4 * words.length := by
  induction words with
  | nil => rfl
  | cons w rest ih =>
    rw [List.flatMap_cons, List.length_append, Bytes.length_ofNat, ih, List.length_cons, Nat.mul_add, Nat.add_comm]

lemma length_packedAddresses (base offset : Nat) (names : List String) :
    (packedAddresses base offset names).length = 4 * names.length := by
  rw [packedAddresses, length_flatMap_ofNat, List.length_map, StringTable.length_offsetsFrom]

/-- **Packed strings are found by their packed addresses.** By induction on the strings; `offset` counts the bytes of
those in front. -/
theorem lists_of_spans {base offset : Nat} (hnul : ∀ name ∈ names, '\x00' ∉ name.toList)
    (hp : m.InRange pointers (4 * names.length))
    (hs : m.Addressable (base + offset) (StringTable.mk names).size)
    (hpointers : m.span pointers (4 * names.length) = packedAddresses base offset names)
    (hstrings : m.span (base + offset) (StringTable.mk names).size = (StringTable.mk names).strings) :
    m.Lists pointers (base + offset) (StringTable.mk names).size names := by
  induction names generalizing pointers offset with
  | nil =>
    intro i name hi
    cases hi
  | cons first rest ih =>
    have hsize : (StringTable.mk (first :: rest)).size =
        (Utf8.encode first).length + 1 + (StringTable.mk rest).size := by
      simp only [StringTable.size, StringTable.strings, List.flatMap_cons, List.length_append, List.length_singleton]
    obtain ⟨hr, hle⟩ := hs
    unfold InRange at hp hr
    rw [List.length_cons, Nat.mul_add, Nat.mul_one, Nat.add_comm] at hp hpointers
    rw [hsize] at hr hle hstrings ⊢
    rw [span_add] at hpointers hstrings
    -- the first address and the first string
    obtain ⟨haddress, haddresses⟩ := List.append_inj hpointers
      (by rw [length_span, Bytes.length_ofNat])
    obtain ⟨hfirst, hrest⟩ := List.append_inj hstrings
      (by rw [length_span, List.length_append, List.length_singleton])
    have hnext : base + offset + ((Utf8.encode first).length + 1) =
        base + (offset + (Utf8.encode first).length + 1) := by omega
    rw [hnext] at hrest
    have hlists := ih (fun name hn => hnul name (List.mem_cons_of_mem _ hn))
      (by unfold InRange; omega) ⟨by unfold InRange; omega, by omega⟩ haddresses hrest
    intro i name hi
    cases i with
    | zero =>
      obtain rfl : first = name := Option.some.inj hi
      refine ⟨base + offset, readWord_of_span (by unfold InRange; omega) (by omega) haddress, Nat.le_refl _, by omega,
        readText_of_span (hnul first List.mem_cons_self) (by unfold InRange; omega) hfirst⟩
    | succ i =>
      obtain ⟨p, hword, hlow, hhigh, htext⟩ := hlists i name hi
      refine ⟨p, ?_, by omega, by omega, htext⟩
      rw [← hword, show pointers + 4 * (i + 1) = pointers + 4 + 4 * i by omega]

end Memory

/-! ### Addresses that are summed up -/

/-- Four bytes hold a number up to multiples of the number of words. -/
lemma Bytes.ofNat_congr {width a b : Nat} (h : a % Nat.pow 256 width = b % Nat.pow 256 width) :
    ofNat width a = ofNat width b := by
  induction width generalizing a b with
  | zero => rfl
  | succ width ih =>
    have hpow : Nat.pow 256 (width + 1) = 256 * Nat.pow 256 width := Nat.mul_comm ..
    rw [hpow, Nat.mod_mul, Nat.mod_mul] at h
    have hlow : a % 256 = b % 256 := by omega
    have hhigh : a / 256 % Nat.pow 256 width = b / 256 % Nat.pow 256 width := by omega
    rw [ofNat, ofNat, ih hhigh, ← UInt8.ofNat_mod_size (x := a), ← UInt8.ofNat_mod_size (x := b)]
    exact congrArg (UInt8.ofNat · :: ofNat width (b / 256)) hlow

/-- Sums of words are words, or one of them is not and nothing is given. -/
lemma Word.mapM_add (base : Nat) (offsets : List Nat) : offsets.mapM (fun o => Word.add base (o % count)) =
    if ∀ o ∈ offsets, base + o % count < count then .ok (offsets.map fun o => base + o % count)
    else .error .crash := by
  induction offsets with
  | nil => rfl
  | cons o rest ih =>
    have hcons : (∀ x ∈ o :: rest, base + x % count < count) ↔
        base + o % count < count ∧ ∀ x ∈ rest, base + x % count < count := List.forall_mem_cons
    rw [List.mapM_cons, ih, Word.add]
    by_cases ho : base + o % count < count
    · by_cases hrest : ∀ x ∈ rest, base + x % count < count
      · rw [if_pos ho, if_pos hrest, if_pos (hcons.2 ⟨ho, hrest⟩)]
        rfl
      · rw [if_pos ho, if_neg hrest, if_neg fun hall => hrest (hcons.1 hall).2]
        rfl
    · rw [if_neg ho, if_neg fun hall => ho (hcons.1 hall).1]
      rfl

namespace StringTable

variable {t : StringTable} {base : Nat}

lemma lt_of_mem_offsetsFrom {names : List String} {start o : Nat} (h : o ∈ offsetsFrom start names) :
    start ≤ o ∧ o < start + (mk names).size := by
  induction names generalizing start with
  | nil => cases h
  | cons first rest ih =>
    have hsize : (mk (first :: rest)).size = (Utf8.encode first).length + 1 + (mk rest).size := by
      simp only [size, strings, List.flatMap_cons, List.length_append, List.length_singleton]
    obtain rfl | h := List.mem_cons.1 h
    · omega
    · obtain ⟨hle, hlt⟩ := ih h
      omega

/-- Every string starts within the strings. -/
lemma lt_size_of_mem_offsets {o : Nat} (h : o ∈ t.offsets) : o < t.size := by
  obtain ⟨-, hlt⟩ := lt_of_mem_offsetsFrom h
  rwa [Nat.zero_add] at hlt

/-- **The addresses of a table** are packed, or a sum is too large for a word. -/
theorem pointers_eq (t : StringTable) (base : Nat) : t.pointers base =
    if ∀ o ∈ t.offsets, base + o % Word.count < Word.count then .ok (Memory.packedAddresses base 0 t.entries)
    else .error .crash := by
  rw [pointers, Word.mapM_add]
  split_ifs with hall
  · refine congrArg Except.ok ?_
    rw [Memory.packedAddresses, offsets, List.flatMap_map, List.flatMap_map]
    -- a word that is stored is cut as well
    exact List.flatMap_congr fun o _ => Bytes.ofNat_congr (Nat.add_mod_mod base o Word.count)
  · rfl

lemma pointers_of_le (h : base + t.size ≤ Word.count) :
    t.pointers base = .ok (Memory.packedAddresses base 0 t.entries) := by
  rw [pointers_eq, if_pos]
  intro o ho
  have hlt := lt_size_of_mem_offsets ho
  rw [Nat.mod_eq_of_lt (by omega)]
  omega

end StringTable

namespace Running

variable {r : Running} {m : Memory} {t : StringTable}

/-- A guest's process and its host with another memory bound. -/
def withGuest (r : Running) (m : Memory) : Running := { r with host := r.host.bind m }

lemma memory_of_some (hg : r.host.guest = some m) : memory r = .ok m r := by
  unfold memory
  rw [Op.get_bind_apply, hg]
  rfl

lemma store_of_inRange (hg : r.host.guest = some m) (address : Nat) (data : List UInt8)
    (hr : m.InRange address data.length) : store address data r = .ok ⟨⟩ (r.withGuest (m.put address data)) := by
  unfold store
  rw [Op.bind_of_ok (memory_of_some hg), Memory.write_of_inRange hr, Op.lift_ok_bind]
  rfl

/-- The number of strings and that of their bytes are stored. -/
theorem tableSizes_of_inRange (hg : r.host.guest = some m) {count size : Nat} (hc : m.InRange count 4)
    (hs : m.InRange size 4) :
    tableSizes t count size r =
      .ok .success (r.withGuest ((m.put count (Bytes.ofNat 4 t.count)).put size (Bytes.ofNat 4 t.size))) := by
  have hfirst := store_of_inRange hg count (Bytes.ofNat 4 t.count) (by rwa [Bytes.length_ofNat])
  have hsecond := store_of_inRange (r := r.withGuest (m.put count (Bytes.ofNat 4 t.count))) rfl size
    (Bytes.ofNat 4 t.size) (by rwa [Memory.InRange, Memory.size_put, Bytes.length_ofNat])
  unfold tableSizes
  rw [Op.bind_of_ok (memory_of_some hg), Op.bind_of_ok hfirst, Op.bind_of_ok hsecond, Op.pure_apply]
  rfl

/-- The addresses of the strings and the strings are stored. -/
theorem tableEntries_of_addressable (hg : r.host.guest = some m) {pointers strings : Nat}
    (hp : m.InRange pointers (4 * t.count)) (hs : m.Addressable strings t.size) :
    tableEntries t pointers strings r = .ok .success
      (r.withGuest ((m.put pointers (Memory.packedAddresses strings 0 t.entries)).put strings t.strings)) := by
  have hfirst := store_of_inRange hg pointers (Memory.packedAddresses strings 0 t.entries)
    (by rwa [Memory.length_packedAddresses])
  have hsecond := store_of_inRange
    (r := r.withGuest (m.put pointers (Memory.packedAddresses strings 0 t.entries))) rfl strings t.strings
    (by rw [Memory.InRange, Memory.size_put]; exact hs.inRange)
  unfold tableEntries
  rw [Op.bind_of_ok (memory_of_some hg), StringTable.pointers_of_le hs.le_count, Op.lift_ok_bind,
    Op.bind_of_ok hfirst, Op.bind_of_ok hsecond, Op.pure_apply]
  rfl

end Running

/-- The two tables that a guest can ask for. -/
inductive TableCalls where
  | arguments
  | environ

namespace TableCalls

/-- The table. -/
def table : TableCalls → ProcessState → StringTable
  | arguments, p => p.arguments
  | environ, p => p.environ

/-- The call for the sizes of the table. -/
def sizes : TableCalls → (count size : Nat) → Op Running Errno
  | arguments => Running.argumentSizes
  | environ => Running.environSizes

/-- The call for its strings. -/
def strings : TableCalls → (pointers strings : Nat) → Op Running Errno
  | arguments => Running.arguments
  | environ => Running.environ

lemma sizes_apply (c : TableCalls) (count size : Nat) (r : Running) :
    c.sizes count size r = Running.tableSizes (c.table r.process) count size r := by
  cases c <;> rfl

lemma strings_apply (c : TableCalls) (pointers strings : Nat) (r : Running) :
    c.strings pointers strings r = Running.tableEntries (c.table r.process) pointers strings r := by
  cases c <;> rfl

end TableCalls

/-- Every string takes a byte at least. -/
lemma StringTable.count_le_size (t : StringTable) : t.count ≤ t.size := by
  obtain ⟨names⟩ := t
  induction names with
  | nil => exact Nat.le_refl 0
  | cons first rest ih =>
    simp only [count, size, strings, List.length_cons, List.flatMap_cons, List.length_append,
      List.length_nil] at ih ⊢
    omega

/-- **Arguments and environment come back.** A guest that asks for the sizes of a table learns the number of its
strings and of their bytes. If it then provides as much room, whatever it has done to its memory in between, it finds
the strings in order by the addresses stored for it, and nothing else has changed. -/
theorem strings_come_back (c : TableCalls) (count size : Nat) {r : Running} {m : Memory} (hg : r.host.guest = some m)
    (hnul : ∀ name ∈ (c.table r.process).entries, '\x00' ∉ name.toList)
    (hlt : (c.table r.process).size < Word.count) (hc : m.InRange count 4) (hs : m.InRange size 4)
    (hd : Memory.Disjoint count 4 size 4) :
    ∃ m₁, c.sizes count size r = .ok .success (r.withGuest m₁) ∧
      m₁.readWord count = .ok (c.table r.process).entries.length ∧ m₁.readWord size = .ok (c.table r.process).size ∧
      m.SameOutside count 4 size 4 m₁ ∧
      ∀ n s, m₁.readWord count = .ok n → m₁.readWord size = .ok s → ∀ (m₂ : Memory) (pointers strings : Nat),
        m₂.InRange pointers (4 * n) → m₂.Addressable strings s → Memory.Disjoint pointers (4 * n) strings s →
        ∃ m₃, c.strings pointers strings (r.withGuest m₂) = .ok .success (r.withGuest m₃) ∧
          m₃.Lists pointers strings s (c.table r.process).entries ∧ m₂.SameOutside pointers (4 * n) strings s m₃ := by
  generalize ht : c.table r.process = t at hnul hlt ⊢
  have hcount : t.count < Word.count := Nat.lt_of_le_of_lt t.count_le_size hlt
  have hlen (n : Nat) : (Bytes.ofNat 4 n).length = 4 := Bytes.length_ofNat 4 n
  obtain ⟨hcountSpan, hsizeSpan⟩ := m.spans_put_put count size (Bytes.ofNat 4 t.count) (Bytes.ofNat 4 t.size)
    (by rwa [hlen]) (by rwa [hlen]) (by rwa [hlen, hlen])
  have hframe := m.sameOutside_put_put count size (Bytes.ofNat 4 t.count) (Bytes.ofNat 4 t.size)
  have hsize := hframe.size_eq
  have hrun := Running.tableSizes_of_inRange (t := t) hg hc hs
  rw [hlen] at hcountSpan hsizeSpan
  rw [hlen, hlen] at hframe
  generalize (m.put count (Bytes.ofNat 4 t.count)).put size (Bytes.ofNat 4 t.size) = m₁ at *
  have hreadCount := Memory.readWord_of_span (by rwa [Memory.InRange, hsize]) hcount hcountSpan
  have hreadSize := Memory.readWord_of_span (by rwa [Memory.InRange, hsize]) hlt hsizeSpan
  refine ⟨m₁, by rw [c.sizes_apply, ht, hrun], hreadCount, hreadSize, hframe, ?_⟩
  -- the guest goes by the numbers it has read
  intro n s hn hsz m₂ pointers strings hp hst hdisjoint
  obtain rfl : n = t.count := Except.ok.inj (hn.symm.trans hreadCount)
  obtain rfl : s = t.size := Except.ok.inj (hsz.symm.trans hreadSize)
  have hp' := Memory.length_packedAddresses strings 0 t.entries
  obtain ⟨hpointersSpan, hstringsSpan⟩ := m₂.spans_put_put pointers strings
    (Memory.packedAddresses strings 0 t.entries) t.strings (by rwa [hp']) hst.inRange (by rwa [hp'])
  have hframe₂ := m₂.sameOutside_put_put pointers strings (Memory.packedAddresses strings 0 t.entries) t.strings
  have hsize₂ := hframe₂.size_eq
  have hrun₂ := Running.tableEntries_of_addressable (r := r.withGuest m₂) (t := t) rfl hp hst
  have htable : c.table (r.withGuest m₂).process = t := ht
  rw [hp'] at hpointersSpan hframe₂
  generalize (m₂.put pointers (Memory.packedAddresses strings 0 t.entries)).put strings t.strings = m₃ at *
  refine ⟨m₃, by rw [c.strings_apply, htable, hrun₂]; rfl, ?_, hframe₂⟩
  exact Memory.lists_of_spans hnul (by rwa [Memory.InRange, hsize₂])
    ⟨by rw [Memory.InRange, hsize₂]; exact hst.inRange, hst.le_count⟩ hpointersSpan hstringsSpan

/-- A guest with two arguments, one of them empty, and room for them. -/
def runningWithRoom : Running :=
  ⟨.new ["é", ""] "PWD=/" 1, ({} : Host).bind ⟨#[0, 0, 0, 0, 0, 0, 0, 0, 0, 0, 0, 0, 0, 0, 0, 0, 0, 0, 0, 0], #[]⟩⟩

/-- The guest finds them behind the addresses it made room for. -/
theorem strings_come_back_two : ∃ m₁ m₃,
    TableCalls.arguments.sizes 0 4 runningWithRoom = .ok .success (runningWithRoom.withGuest m₁) ∧
      m₁.readWord 0 = .ok 2 ∧ m₁.readWord 4 = .ok 4 ∧
      TableCalls.arguments.strings 8 16 (runningWithRoom.withGuest m₁) =
        .ok .success (runningWithRoom.withGuest m₃) ∧
      m₃.Lists 8 16 4 ["é", ""] := by
  have htable : (TableCalls.arguments.table runningWithRoom.process).size = 4 := by decide
  obtain ⟨m₁, hsizes, hcount, hsize, hframe, hnext⟩ := strings_come_back .arguments 0 4 (r := runningWithRoom) rfl
    (by decide) (by decide) (by decide) (by decide) (by decide)
  have hm : m₁.size = 20 := hframe.size_eq
  rw [htable] at hsize
  obtain ⟨m₃, hstrings, hlists, -⟩ := hnext 2 4 hcount hsize m₁ 8 16 (by rw [Memory.InRange, hm]; decide)
    ⟨by rw [Memory.InRange, hm], by decide⟩ (by decide)
  exact ⟨m₁, m₃, hsizes, hcount, hsize, hstrings, hlists⟩

end ToolchainHost
