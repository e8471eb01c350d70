import Mathlib.Data.List.Nodup
import ToolchainHost.Files.Store.Descriptors
import ToolchainHost.Proofs.Files.Slots
import ToolchainHost.Proofs.Memory
import ToolchainHost.Proofs.Operation

/-!
# The store as a listing

* `FileStore.listing`: the nodes as users see them, in the order of their numbers.
* `FileStore.Sound`: the invariant of the store. Files have places of their own in the part of the heap that was
  handed out, the rest of the memory is zero, and open files are files.
* `FileStore.Packed`: what it says of these places. It holds whatever bytes are written into the memory.
* `FileStore.poke`, `withNode`, `withNewNode`, `grown`: the changes every call is made of, each with what it keeps
  of the invariant and what it does to the listing.
-/

namespace ToolchainHost

/-- What a path names: a directory, or a file with its bytes. -/
inductive Entry where
  | directory
  | file (bytes : List UInt8)
  deriving DecidableEq, Repr, Inhabited

/-- The kind of an entry. -/
def Entry.kind : Entry → NodeKind
  | directory => .directory
  | file _ => .file

/-- A place in the heap: it holds the contents, and it was handed out. -/
structure Node.Placed (n : Node) (top : Nat) : Prop where
  size_le : n.size ≤ n.capacity
  base_le : FileStore.heapBase ≤ n.address
  stop_le : n.address + n.capacity ≤ top

/-- Two places that share no byte. -/
def Node.Apart (a b : Node) : Prop := a.address + a.capacity ≤ b.address ∨ b.address + b.capacity ≤ a.address

lemma Node.Apart.symm {a b : Node} (h : a.Apart b) : b.Apart a := Or.symm h

namespace FileStore

/-- The node with an index is a file. -/
def FileAt (s : FileStore) (index : Nat) (n : Node) : Prop := s.nodes[index]? = some n ∧ n.kind = .file

/-- What a node stands for. -/
def entry (s : FileStore) (n : Node) : Entry :=
  match n.kind with
  | .file => .file (s.memory.span n.address n.size)
  | .directory => .directory

/-- The nodes as users see them. -/
def listing (s : FileStore) : List (String × Entry) := s.nodes.map fun n => (n.path, s.entry n)

/-- **The invariant of the store.** -/
structure Sound (s : FileStore) : Prop where
  base_le : heapBase ≤ s.top
  top_lt : s.top < Word.count
  top_le : s.top ≤ s.memory.size
  whole : Memory.pageSize ∣ s.memory.size
  size_le : s.memory.size ≤ Word.count
  nodup : (s.nodes.map (·.path)).Nodup
  placed : ∀ {i n}, s.FileAt i n → n.Placed s.top
  apart : ∀ {i j a b}, i ≠ j → s.FileAt i a → s.FileAt j b → a.Apart b
  clean : ∀ i, s.top ≤ i → s.memory.byte i = 0
  slots : s.opened.WellFormed
  opened : ∀ {slot f}, s.opened.get? slot = some f → f.position < Word.count ∧ ∃ n, s.FileAt f.node n

/-- The places of the files: they are in the part of the heap that was handed out, and they share no byte. -/
structure Packed (s : FileStore) : Prop where
  base_le : heapBase ≤ s.top
  top_lt : s.top < Word.count
  top_le : s.top ≤ s.memory.size
  placed : ∀ {i n}, s.FileAt i n → n.Placed s.top
  apart : ∀ {i j a b}, i ≠ j → s.FileAt i a → s.FileAt j b → a.Apart b

lemma Sound.packed {s : FileStore} (hs : s.Sound) : s.Packed :=
  ⟨hs.base_le, hs.top_lt, hs.top_le, hs.placed, hs.apart⟩

lemma size_empty : empty.memory.size = 65536 := Memory.size_ofPages 1

lemma not_fileAt_empty {i : Nat} {n : Node} : ¬ empty.FileAt i n := fun h => by cases h.1

theorem sound_empty : empty.Sound where
  base_le := Nat.le_refl heapBase
  top_lt := (by decide : heapBase < Word.count)
  top_le := by rw [size_empty]; exact (by decide : heapBase ≤ 65536)
  whole := by rw [size_empty]; exact Nat.dvd_refl _
  size_le := by rw [size_empty]; decide
  nodup := List.nodup_nil
  placed h := absurd h not_fileAt_empty
  apart _ h := absurd h not_fileAt_empty
  clean i _ := Memory.byte_ofPages 1 i
  slots := Slots.wellFormed_empty
  opened h := by simp [empty, Slots.get?] at h

variable {s : FileStore} {i address : Nat} {data : List UInt8} {n n' : Node}

/-! ### The listing -/

lemma entry_of_file (hk : n.kind = .file) : s.entry n = .file (s.memory.span n.address n.size) := by
  rw [entry, hk]

lemma entry_of_directory (hk : n.kind = .directory) : s.entry n = .directory := by rw [entry, hk]

@[simp] lemma kind_entry (s : FileStore) (n : Node) : (s.entry n).kind = n.kind := by
  unfold entry
  split <;> simp [Entry.kind, *]

lemma getElem?_listing (s : FileStore) (i : Nat) :
    s.listing[i]? = s.nodes[i]?.map fun n => (n.path, s.entry n) := by simp [listing]

lemma FileAt.listing (h : s.FileAt i n) :
    s.listing[i]? = some (n.path, .file (s.memory.span n.address n.size)) := by
  rw [getElem?_listing, h.1, Option.map_some, entry_of_file h.2]

/-- The listing depends on the nodes and on the bytes of the files only. -/
lemma listing_congr {t : FileStore} (hn : t.nodes = s.nodes)
    (hm : ∀ {i n}, s.FileAt i n → t.memory.span n.address n.size = s.memory.span n.address n.size) :
    t.listing = s.listing := by
  refine List.ext_getElem? fun i => ?_
  rw [getElem?_listing, getElem?_listing, hn]
  cases hi : s.nodes[i]? with
  | none => rfl
  | some n =>
    cases hk : n.kind with
    | directory => simp [entry_of_directory hk]
    | file => simp [entry_of_file hk, hm ⟨hi, hk⟩]

/-! ### Writing bytes -/

/-- The store with bytes of its memory overwritten. -/
def poke (s : FileStore) (address : Nat) (data : List UInt8) : FileStore :=
  { s with memory := s.memory.put address data }

@[simp] lemma poke_nodes (s : FileStore) (address : Nat) (data : List UInt8) :
    (s.poke address data).nodes = s.nodes := rfl
@[simp] lemma poke_top (s : FileStore) (address : Nat) (data : List UInt8) :
    (s.poke address data).top = s.top := rfl
@[simp] lemma poke_opened (s : FileStore) (address : Nat) (data : List UInt8) :
    (s.poke address data).opened = s.opened := rfl
@[simp] lemma poke_memory (s : FileStore) (address : Nat) (data : List UInt8) :
    (s.poke address data).memory = s.memory.put address data := rfl

lemma fileAt_poke {j : Nat} {b : Node} : (s.poke address data).FileAt j b ↔ s.FileAt j b := Iff.rfl

lemma write_of_le (h : address + data.length ≤ s.memory.size) :
    write address data s = .ok ⟨⟩ (s.poke address data) := by
  have hr : s.memory.InRange address data.length := h
  simp [write, Memory.write_of_inRange hr, poke]

lemma write_of_lt (h : s.memory.size < address + data.length) :
    write address data s = .error (s.memory.refusal address data.length) s := by
  have hn : ¬ s.memory.InRange address data.length := by unfold Memory.InRange; omega
  simp [write, Memory.write_of_not_inRange hn]

lemma Sound.poke (hs : s.Sound) (h : address + data.length ≤ s.top) : (s.poke address data).Sound where
  base_le := hs.base_le
  top_lt := hs.top_lt
  top_le := by simpa using hs.top_le
  whole := by simpa using hs.whole
  size_le := by simpa using hs.size_le
  nodup := hs.nodup
  placed := hs.placed
  apart := hs.apart
  clean i hi := by
    rw [poke_top] at hi
    rw [poke_memory, Memory.byte_put_of_outside (by omega), hs.clean i hi]
  slots := hs.slots
  opened := hs.opened

/-- The listing does not change where no file's place is touched. -/
lemma listing_poke_of_outside
    (h : ∀ {j b}, s.FileAt j b → address + data.length ≤ b.address ∨ b.address + b.size ≤ address) :
    (s.poke address data).listing = s.listing :=
  listing_congr rfl fun hf => Memory.span_put_of_apart (h hf).symm

lemma Sound.base_le_size (hs : s.Sound) : heapBase ≤ s.memory.size := Nat.le_trans hs.base_le hs.top_le

lemma Sound.le_size (hs : s.Sound) {stop : Nat} (h : stop ≤ heapBase) : stop ≤ s.memory.size :=
  Nat.le_trans h hs.base_le_size

lemma Sound.poke_low (hs : s.Sound) (h : address + data.length ≤ heapBase) : (s.poke address data).Sound :=
  hs.poke (Nat.le_trans h hs.base_le)

lemma Packed.poke (hs : s.Packed) (address : Nat) (data : List UInt8) : (s.poke address data).Packed where
  base_le := hs.base_le
  top_lt := hs.top_lt
  top_le := by
    rw [poke_memory, Memory.size_put]
    exact hs.top_le
  placed := hs.placed
  apart := hs.apart

/-- Below the heap there are no files. -/
lemma Packed.listing_poke_low (hs : s.Packed) (h : address + data.length ≤ heapBase) :
    (s.poke address data).listing = s.listing :=
  listing_poke_of_outside fun hf => Or.inl (Nat.le_trans h (hs.placed hf).base_le)

lemma Sound.listing_poke_low (hs : s.Sound) (h : address + data.length ≤ heapBase) :
    (s.poke address data).listing = s.listing := hs.packed.listing_poke_low h

/-- A write within the place of a file changes that file only. -/
lemma Packed.listing_poke_within (hs : s.Packed) (hf : s.FileAt i n) (h1 : n.address ≤ address)
    (h2 : address + data.length ≤ n.address + n.capacity) (e : String × Entry) :
    (s.poke address data).listing.set i e = s.listing.set i e := by
  refine List.ext_getElem? fun j => ?_
  by_cases hj : i = j
  · subst hj
    simp [List.getElem?_set_self', getElem?_listing, hf.1]
  · rw [List.getElem?_set_ne hj, List.getElem?_set_ne hj, getElem?_listing, getElem?_listing, poke_nodes]
    cases hb : s.nodes[j]? with
    | none => rfl
    | some b =>
      cases hk : b.kind with
      | directory => simp [entry_of_directory hk]
      | file =>
        have hp := hs.placed ⟨hb, hk⟩
        have ha := hs.apart hj hf ⟨hb, hk⟩
        have hsize := hp.size_le
        unfold Node.Apart at ha
        have hspan : (s.memory.put address data).span b.address b.size = s.memory.span b.address b.size :=
          Memory.span_put_of_apart (by omega)
        simp [entry_of_file hk, hspan]

/-! ### Changing and adding nodes -/

/-- The store with another node in place of the one with an index. -/
def withNode (s : FileStore) (index : Nat) (n : Node) : FileStore := { s with nodes := s.nodes.set index n }

@[simp] lemma withNode_memory (s : FileStore) (index : Nat) (n : Node) : (s.withNode index n).memory = s.memory := rfl
@[simp] lemma withNode_top (s : FileStore) (index : Nat) (n : Node) : (s.withNode index n).top = s.top := rfl
@[simp] lemma withNode_opened (s : FileStore) (index : Nat) (n : Node) : (s.withNode index n).opened = s.opened := rfl

lemma setNode_apply (s : FileStore) (index : Nat) (n : Node) : setNode index n s = .ok ⟨⟩ (s.withNode index n) := rfl

lemma nodeAt_of_some (h : s.nodes[i]? = some n) : nodeAt i s = .ok n s := by simp [nodeAt, h]

/-- The files of a store in which the file `i` was replaced by another. -/
lemma fileAt_withNode (hf : s.FileAt i n) (hk : n'.kind = .file) {j : Nat} {b : Node} :
    (s.withNode i n').FileAt j b ↔ j = i ∧ b = n' ∨ j ≠ i ∧ s.FileAt j b := by
  have hi : i < s.nodes.length := (List.getElem?_eq_some_iff.1 hf.1).1
  unfold FileAt withNode
  by_cases hj : j = i
  · subst hj
    simp only [List.getElem?_set_self hi, Option.some.injEq, true_and, ne_eq, not_true, false_and, or_false]
    exact ⟨fun h => h.1.symm, fun h => ⟨h.symm, h ▸ hk⟩⟩
  · simp [List.getElem?_set_ne fun e : i = j => hj e.symm, hj]

section WithNode

variable (hf : s.FileAt i n) (hk : n'.kind = .file)

lemma nodup_withNode (h : (s.nodes.map (·.path)).Nodup) (hf : s.FileAt i n) (hp : n'.path = n.path) :
    ((s.withNode i n').nodes.map (·.path)).Nodup := by
  have hi := List.getElem?_eq_some_iff.1 hf.1
  have he : (s.nodes.map (·.path)).set i n'.path = s.nodes.map (·.path) := by
    rw [hp, ← hi.2, ← List.getElem_map (f := Node.path), List.set_getElem_self]
    simpa using hi.1
  simpa [FileStore.withNode, List.map_set, he] using h

include hf hk

lemma placed_withNode {top : Nat} (h : ∀ {j b}, s.FileAt j b → b.Placed top) (hn : n'.Placed top) {j : Nat} {b : Node}
    (hb : (s.withNode i n').FileAt j b) : b.Placed top := by
  rcases (fileAt_withNode hf hk).1 hb with ⟨rfl, rfl⟩ | ⟨-, hb⟩
  · exact hn
  · exact h hb

lemma apart_withNode (h : ∀ {j k a b}, j ≠ k → s.FileAt j a → s.FileAt k b → a.Apart b)
    (hn : ∀ {j b}, j ≠ i → s.FileAt j b → n'.Apart b) {j k : Nat} {a b : Node} (hne : j ≠ k)
    (ha : (s.withNode i n').FileAt j a) (hb : (s.withNode i n').FileAt k b) : a.Apart b := by
  rcases (fileAt_withNode hf hk).1 ha with ⟨rfl, rfl⟩ | ⟨hi, hfi⟩ <;>
    rcases (fileAt_withNode hf hk).1 hb with ⟨rfl, rfl⟩ | ⟨hj, hfj⟩
  · exact absurd rfl hne
  · exact hn hj hfj
  · exact (hn hi hfi).symm
  · exact h hne hfi hfj

end WithNode

lemma Sound.withNode (hs : s.Sound) (hf : s.FileAt i n) (hk : n'.kind = .file) (hp : n'.path = n.path)
    (hn : n'.Placed s.top) (ha : ∀ {j b}, j ≠ i → s.FileAt j b → n'.Apart b) : (s.withNode i n').Sound where
  base_le := hs.base_le
  top_lt := hs.top_lt
  top_le := hs.top_le
  whole := hs.whole
  size_le := hs.size_le
  nodup := nodup_withNode hs.nodup hf hp
  placed := placed_withNode hf hk hs.placed hn
  apart := apart_withNode hf hk hs.apart ha
  clean := hs.clean
  slots := hs.slots
  opened {slot f} h := by
    obtain ⟨hp, b, hb⟩ := hs.opened h
    refine ⟨hp, ?_⟩
    by_cases hj : f.node = i
    · exact ⟨n', (fileAt_withNode hf hk).2 (Or.inl ⟨hj, rfl⟩)⟩
    · exact ⟨b, (fileAt_withNode hf hk).2 (Or.inr ⟨hj, hb⟩)⟩

lemma Packed.withNode (hs : s.Packed) (hf : s.FileAt i n) (hk : n'.kind = .file) (hn : n'.Placed s.top)
    (ha : ∀ {j b}, j ≠ i → s.FileAt j b → n'.Apart b) : (s.withNode i n').Packed where
  base_le := hs.base_le
  top_lt := hs.top_lt
  top_le := hs.top_le
  placed := placed_withNode hf hk hs.placed hn
  apart := apart_withNode hf hk hs.apart ha

lemma listing_withNode (s : FileStore) (i : Nat) (n' : Node) :
    (s.withNode i n').listing = s.listing.set i (n'.path, s.entry n') := by
  simp only [listing, withNode, List.map_set]
  rfl

/-- The store with one more node. -/
def withNewNode (s : FileStore) (n : Node) : FileStore := { s with nodes := s.nodes ++ [n] }

@[simp] lemma withNewNode_memory (s : FileStore) (n : Node) : (s.withNewNode n).memory = s.memory := rfl
@[simp] lemma withNewNode_top (s : FileStore) (n : Node) : (s.withNewNode n).top = s.top := rfl
@[simp] lemma withNewNode_opened (s : FileStore) (n : Node) : (s.withNewNode n).opened = s.opened := rfl

lemma insertNode_apply (s : FileStore) (n : Node) :
    insertNode n s = .ok (s.nodes.length + 1) (s.withNewNode n) := rfl

lemma fileAt_withNewNode {j : Nat} {b : Node} :
    (s.withNewNode n).FileAt j b ↔ s.FileAt j b ∨ j = s.nodes.length ∧ b = n ∧ n.kind = .file := by
  unfold FileAt withNewNode
  rcases Nat.lt_trichotomy j s.nodes.length with hj | rfl | hj
  · simp [List.getElem?_append_left hj, Nat.ne_of_lt hj]
  · simp only [List.getElem?_concat_length, Option.some.injEq, List.getElem?_eq_none (Nat.le_refl _)]
    constructor
    · rintro ⟨rfl, hk⟩
      exact Or.inr ⟨trivial, rfl, hk⟩
    · rintro (⟨h, -⟩ | ⟨-, rfl, hk⟩)
      · cases h
      · exact ⟨rfl, hk⟩
  · have h1 : (s.nodes ++ [n])[j]? = none := List.getElem?_eq_none (by simp; omega)
    have h2 : s.nodes[j]? = none := List.getElem?_eq_none (by omega)
    simp [h1, h2, Nat.ne_of_gt hj]

lemma nodup_withNewNode (h : (s.nodes.map (·.path)).Nodup) (hp : n.path ∉ s.nodes.map (·.path)) :
    ((s.withNewNode n).nodes.map (·.path)).Nodup := by
  simp only [FileStore.withNewNode, List.map_append, List.map_cons, List.map_nil]
  exact List.nodup_append.2 ⟨h, List.nodup_singleton _, fun a h b hb e => hp (by simp_all)⟩

lemma placed_withNewNode {top : Nat} (h : ∀ {j b}, s.FileAt j b → b.Placed top) (hn : n.kind = .file → n.Placed top)
    {j : Nat} {b : Node} (hb : (s.withNewNode n).FileAt j b) : b.Placed top := by
  rcases fileAt_withNewNode.1 hb with hb | ⟨-, rfl, hk⟩
  · exact h hb
  · exact hn hk

lemma apart_withNewNode (h : ∀ {j k a b}, j ≠ k → s.FileAt j a → s.FileAt k b → a.Apart b)
    (hn : n.kind = .file → ∀ {j b}, s.FileAt j b → n.Apart b) {j k : Nat} {a b : Node} (hne : j ≠ k)
    (ha : (s.withNewNode n).FileAt j a) (hb : (s.withNewNode n).FileAt k b) : a.Apart b := by
  rcases fileAt_withNewNode.1 ha with hfi | ⟨rfl, rfl, hk⟩ <;>
    rcases fileAt_withNewNode.1 hb with hfj | ⟨rfl, rfl, hk'⟩
  · exact h hne hfi hfj
  · exact (hn hk' hfi).symm
  · exact hn hk hfj
  · exact absurd rfl hne

lemma Sound.withNewNode (hs : s.Sound) (hp : n.path ∉ s.nodes.map (·.path)) (hn : n.kind = .file → n.Placed s.top)
    (ha : n.kind = .file → ∀ {j b}, s.FileAt j b → n.Apart b) : (s.withNewNode n).Sound where
  base_le := hs.base_le
  top_lt := hs.top_lt
  top_le := hs.top_le
  whole := hs.whole
  size_le := hs.size_le
  nodup := nodup_withNewNode hs.nodup hp
  placed := placed_withNewNode hs.placed hn
  apart := apart_withNewNode hs.apart ha
  clean := hs.clean
  slots := hs.slots
  opened h := by
    obtain ⟨hp, b, hb⟩ := hs.opened h
    exact ⟨hp, b, fileAt_withNewNode.2 (Or.inl hb)⟩

lemma listing_withNewNode (s : FileStore) (n : Node) :
    (s.withNewNode n).listing = s.listing ++ [(n.path, s.entry n)] := by
  simp only [listing, withNewNode, List.map_append, List.map_cons, List.map_nil]
  rfl

/-! ### Handing out places -/

section Allocation

variable {size : Nat}

/-- Where the next place begins. -/
def aligned (s : FileStore) : Nat := (s.top + 7) / 8 * 8

/-- There is room for a place of `size` bytes. -/
def Room (s : FileStore) (size : Nat) : Prop := s.top + 7 < Word.count ∧ s.aligned + size < Word.count

instance (s : FileStore) (size : Nat) : Decidable (s.Room size) := inferInstanceAs (Decidable (_ ∧ _))

/-- What is answered where there is no room. -/
def denial (s : FileStore) (size : Nat) : Failure :=
  if s.top + 7 < Word.count then .aborted s!"out of memory allocating {size} bytes" else .crash

lemma room_congr {t : FileStore} (h : t.top = s.top) (size : Nat) : t.Room size ↔ s.Room size := by
  unfold Room aligned
  rw [h]

lemma denial_congr {t : FileStore} (h : t.top = s.top) (size : Nat) : t.denial size = s.denial size := by
  unfold denial
  rw [h]

/-- There is room where neither the place nor what was handed out is large. -/
lemma room_of_top_le {bound : Nat} (h : s.top ≤ bound) (hb : bound + 7 + size < Word.count) : s.Room size := by
  unfold Room aligned
  omega

/-- The store with another heap. -/
def withHeap (s : FileStore) (memory : Memory) (top : Nat) : FileStore := { s with memory, top }

lemma withHeap_nodes (s : FileStore) (memory : Memory) (top : Nat) : (s.withHeap memory top).nodes = s.nodes := rfl
lemma withHeap_opened (s : FileStore) (memory : Memory) (top : Nat) :
    (s.withHeap memory top).opened = s.opened := rfl

/-- The store with a place of `size` bytes handed out. -/
def grown (s : FileStore) (size : Nat) : FileStore :=
  s.withHeap (s.memory.grow (s.missingPages (s.aligned + size))) (s.aligned + size)

@[simp] lemma grown_nodes (s : FileStore) (size : Nat) : (s.grown size).nodes = s.nodes := withHeap_nodes ..
@[simp] lemma grown_opened (s : FileStore) (size : Nat) : (s.grown size).opened = s.opened := withHeap_opened ..
@[simp] lemma grown_top (s : FileStore) (size : Nat) : (s.grown size).top = s.aligned + size := rfl

lemma grown_memory (s : FileStore) (size : Nat) :
    (s.grown size).memory = s.memory.grow (s.missingPages (s.aligned + size)) := rfl

@[simp] lemma grown_byte (s : FileStore) (size i : Nat) : (s.grown size).memory.byte i = s.memory.byte i := by
  rw [grown_memory, Memory.byte_grow]

@[simp] lemma grown_span (s : FileStore) (size address count : Nat) :
    (s.grown size).memory.span address count = s.memory.span address count := by
  rw [grown_memory, Memory.span_grow]

lemma top_le_aligned (s : FileStore) : s.top ≤ s.aligned := by
  unfold aligned
  omega

lemma allocate_of_room (h : s.Room size) : allocate size s = .ok s.aligned (s.grown size) := by
  obtain ⟨h1, h2⟩ := h
  unfold aligned at h2
  simp [allocate, Word.add_of_lt h1, grown, withHeap, aligned, Nat.not_le_of_lt h2]

lemma allocate_of_not_room (h : ¬ s.Room size) : allocate size s = .error (s.denial size) s := by
  by_cases h1 : s.top + 7 < Word.count
  · have h2 : Word.count ≤ (s.top + 7) / 8 * 8 + size := Nat.le_of_not_lt fun h2 => h ⟨h1, h2⟩
    simp [allocate, denial, Word.add_of_lt h1, h1, h2]
  · have he : Word.add s.top 7 = .error .crash := if_neg h1
    simp [allocate, denial, he, h1]

lemma fileAt_grown {j : Nat} {b : Node} : (s.grown size).FileAt j b ↔ s.FileAt j b := by
  simp only [FileAt, grown_nodes]

lemma size_le_grown (s : FileStore) (size : Nat) :
    s.memory.size ≤ (s.grown size).memory.size ∧ (s.grown size).top ≤ (s.grown size).memory.size := by
  rw [grown_memory, Memory.size_grow, grown_top, missingPages]
  unfold Memory.pageSize
  omega

lemma Packed.grown (hs : s.Packed) (h : s.Room size) : (s.grown size).Packed where
  base_le := Nat.le_trans (Nat.le_trans hs.base_le s.top_le_aligned) (Nat.le_add_right ..)
  top_lt := h.2
  top_le := (s.size_le_grown size).2
  placed hf := by
    obtain ⟨h1, h2, h3⟩ := hs.placed (fileAt_grown.1 hf)
    exact ⟨h1, h2, Nat.le_trans (Nat.le_trans h3 s.top_le_aligned) (Nat.le_add_right ..)⟩
  apart hne h1 h2 := hs.apart hne (fileAt_grown.1 h1) (fileAt_grown.1 h2)

lemma Sound.grown (hs : s.Sound) (h : s.Room size) : (s.grown size).Sound := by
  obtain ⟨hbase, htop, htop', hplaced, hapart⟩ := hs.packed.grown h
  have ht := s.top_le_aligned
  have hc := h.2
  obtain ⟨q, hq⟩ := hs.whole
  have hle := hs.size_le
  have hm : (s.grown size).memory.size =
      s.memory.size + (s.aligned + size - s.memory.size + (Memory.pageSize - 1)) / Memory.pageSize *
        Memory.pageSize := by rw [grown_memory, Memory.size_grow, missingPages]
  unfold Memory.pageSize at hm hq
  unfold Word.count at hc hle
  constructor
  case base_le => exact hbase
  case top_lt => exact htop
  case top_le => exact htop'
  case placed => exact hplaced
  case apart => exact hapart
  case whole =>
    rw [hm, hq]
    exact ⟨_, by unfold Memory.pageSize; rw [Nat.mul_add, Nat.mul_comm _ 65536]⟩
  case size_le => rw [hm]; unfold Word.count; omega
  case nodup => simpa using hs.nodup
  case clean =>
    intro i hi
    rw [grown_top] at hi
    rw [grown_byte, hs.clean i (by omega)]
  case slots => simpa using hs.slots
  case opened =>
    intro slot f hf
    rw [grown_opened] at hf
    obtain ⟨hp, n, hn⟩ := hs.opened hf
    exact ⟨hp, n, fileAt_grown.2 hn⟩

@[simp] lemma listing_grown (s : FileStore) (size : Nat) : (s.grown size).listing = s.listing :=
  listing_congr (grown_nodes ..) fun _ => grown_span ..

/-- A place handed out at the end is apart from those handed out before. -/
lemma Packed.apart_aligned (hs : s.Packed) {j : Nat} {b : Node} (hb : s.FileAt j b) (hn : n.address = s.aligned) :
    n.Apart b := by
  have h1 := (hs.placed hb).stop_le
  have h2 := s.top_le_aligned
  exact Or.inr (by omega)

end Allocation

/-! ### Open files -/

/-- The store with another table of open files. -/
def withOpened (s : FileStore) (opened : Slots OpenFile) : FileStore := { s with opened }

@[simp] lemma withOpened_memory (s : FileStore) (o : Slots OpenFile) : (s.withOpened o).memory = s.memory := rfl
@[simp] lemma withOpened_nodes (s : FileStore) (o : Slots OpenFile) : (s.withOpened o).nodes = s.nodes := rfl
@[simp] lemma withOpened_top (s : FileStore) (o : Slots OpenFile) : (s.withOpened o).top = s.top := rfl
@[simp] lemma withOpened_opened (s : FileStore) (o : Slots OpenFile) : (s.withOpened o).opened = o := rfl
@[simp] lemma listing_withOpened (s : FileStore) (o : Slots OpenFile) : (s.withOpened o).listing = s.listing := rfl

lemma Packed.withOpened (hs : s.Packed) (opened : Slots OpenFile) : (s.withOpened opened).Packed :=
  ⟨hs.base_le, hs.top_lt, hs.top_le, hs.placed, hs.apart⟩

lemma Sound.withOpened (hs : s.Sound) {opened : Slots OpenFile} (hw : opened.WellFormed)
    (ho : ∀ {slot f}, opened.get? slot = some f → f.position < Word.count ∧ ∃ n, s.FileAt f.node n) :
    (s.withOpened opened).Sound :=
  { hs with slots := hw, opened := ho }

end FileStore

end ToolchainHost
