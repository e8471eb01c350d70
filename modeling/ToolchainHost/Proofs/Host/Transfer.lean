import ToolchainHost.Host.FileCalls
import ToolchainHost.Proofs.Files.Growth
import ToolchainHost.Proofs.Files.System

/-!
# Between guest and store

Every transfer either succeeds, and then changes exactly the bytes it names, or it fails and changes nothing that
users see.

* `FileStore.Looks`: a store with the same files and open files.
* `Host.copyIn_cases`, `copyOut_cases`, `storeWord_cases`: the two ways a transfer ends.
* `Host.guestSegments_of_inRange`, `guestSegments_of_not_inRange`: a list of the guest's, decoded or out of reach.
-/

namespace ToolchainHost

/-- The store `t` looks like `s` to users. -/
structure FileStore.Looks (s t : FileStore) : Prop where
  sound : t.Sound
  listing : t.listing = s.listing
  opened : t.opened = s.opened

namespace FileStore

variable {s t : FileStore} {address : Nat} {data : List UInt8}

lemma Looks.refl (hs : s.Sound) : s.Looks s := ⟨hs, rfl, rfl⟩

lemma Looks.lookup (h : s.Looks t) : t.lookup = s.lookup := lookup_congr h.listing

lemma Looks.handle (h : s.Looks t) : t.handle = s.handle := handle_congr h.listing h.opened

lemma Sound.looks_poke_low (hs : s.Sound) (h : address + data.length ≤ heapBase) : s.Looks (s.poke address data) :=
  ⟨hs.poke_low h, hs.listing_poke_low h, poke_opened ..⟩

/-- An open file is open in every store that looks the same, and has the same path and bytes. -/
lemma Looks.fileAt (h : s.Looks t) {i : Nat} {n : Node} (hf : s.FileAt i n) :
    ∃ b, t.FileAt i b ∧ b.path = n.path ∧
      t.memory.span b.address b.size = s.memory.span n.address n.size := by
  have hl := hf.listing
  rw [← h.listing, getElem?_listing] at hl
  obtain ⟨b, hb, he⟩ := Option.map_eq_some_iff.1 hl
  obtain ⟨hp, he⟩ := Prod.mk.inj he
  have hk : b.kind = .file := by rw [← kind_entry t b, he]; rfl
  rw [entry_of_file hk] at he
  exact ⟨b, ⟨hb, hk⟩, hp, Entry.file.inj he⟩

end FileStore

namespace Host

variable {h : Host} {m : Memory} {s t : FileStore} {target source size out value list count : Nat}

/-- The host with another store. -/
def withStore (h : Host) (store : FileStore) : Host := { h with files := h.files.withStore store }

@[simp] lemma withStore_store (h : Host) (s : FileStore) : (h.withStore s).files.store = s := rfl
@[simp] lemma withStore_registered (h : Host) (s : FileStore) :
    (h.withStore s).files.registered = h.files.registered := rfl
@[simp] lemma withStore_guest (h : Host) (s : FileStore) : (h.withStore s).guest = h.guest := rfl
@[simp] lemma withStore_withStore (h : Host) (s t : FileStore) : (h.withStore s).withStore t = h.withStore t := rfl
lemma withStore_self (h : Host) : h.withStore h.files.store = h := rfl

@[simp] lemma bind_guest (h : Host) (m : Memory) : (h.bind m).guest = some m := rfl
@[simp] lemma bind_files (h : Host) (m : Memory) : (h.bind m).files = h.files := rfl

section OnStore

variable {α : Type} {x : Op FileStore α} {a : α} {e : Failure}

lemma onStore_of_ok (hx : x h.files.store = .ok a s) : onStore x h = .ok a (h.withStore s) := by
  have hf := FileSystem.onStore_of_ok hx
  rw [onStore, onFiles, Op.onPart_of_ok hf]
  rfl

lemma onStore_of_error (hx : x h.files.store = .error e s) : onStore x h = .error e (h.withStore s) := by
  have hf := FileSystem.onStore_of_error hx
  rw [onStore, onFiles, Op.onPart_of_error hf]
  rfl

lemma onStore_withStore_of_ok (hx : x t = .ok a s) : onStore x (h.withStore t) = .ok a (h.withStore s) :=
  onStore_of_ok (h := h.withStore t) hx

end OnStore

/-! ### Copying -/

/-- Bytes of the guest are put into the store. -/
theorem copyIn_of_inRange (ht : target + size ≤ h.files.store.memory.size) (hg : h.guest = some m)
    (hr : m.InRange source size) :
    copyIn target source size h = .ok ⟨⟩ (h.withStore (h.files.store.poke target (m.span source size))) := by
  have hw : h.files.store.memory.write target (m.span source size) =
      .ok (h.files.store.memory.put target (m.span source size)) :=
    Memory.write_of_inRange (by rwa [Memory.length_span])
  have hx : Transfer.copyIn h.guest (some h.files.store.memory) target source size =
      (m.read source size).bind (h.files.store.memory.write target) := by rw [hg]; rfl
  rw [Memory.read_of_inRange hr, Except.bind, hw] at hx
  rw [copyIn, Op.get_bind_apply, hx, Op.lift_ok_bind]
  exact onStore_of_ok rfl

/-- The failure of an access to what the guest does not have. -/
def outOfReach (guest : Option Memory) (address count : Nat) : Failure :=
  match guest with
  | some m => m.refusal address count
  | none => .instantiation "no guest memory attached"

/-- What the guest does not have is not copied. -/
theorem copyIn_of_not_inRange (hn : ∀ m, h.guest = some m → ¬ m.InRange source size) (target : Nat) :
    copyIn target source size h = .error (outOfReach h.guest source size) h := by
  rw [copyIn, Op.get_bind_apply]
  cases hg : h.guest with
  | none => rfl
  | some m =>
    have hx : Transfer.copyIn h.guest (some h.files.store.memory) target source size =
        (m.read source size).bind (h.files.store.memory.write target) := by rw [hg]; rfl
    rw [Memory.read_of_not_inRange (hn m hg), Except.bind, hg] at hx
    rw [hx, Op.lift_error_bind]
    rfl

/-- Bytes of the guest are put into the store, or nothing happens. -/
theorem copyIn_cases (ht : target + size ≤ h.files.store.memory.size) (source : Nat) :
    (∃ m, h.guest = some m ∧ m.InRange source size ∧
      copyIn target source size h = .ok ⟨⟩ (h.withStore (h.files.store.poke target (m.span source size)))) ∨
    (∀ m, h.guest = some m → ¬ m.InRange source size) ∧ ∃ e, copyIn target source size h = .error e h := by
  by_cases hn : ∀ m, h.guest = some m → ¬ m.InRange source size
  · exact Or.inr ⟨hn, _, copyIn_of_not_inRange hn target⟩
  · push Not at hn
    obtain ⟨m, hg, hr⟩ := hn
    exact Or.inl ⟨m, hg, hr, copyIn_of_inRange ht hg hr⟩

section CopyOut

variable (hs : source + size ≤ h.files.store.memory.size)

include hs

/-- Bytes of the store are put into the guest. -/
theorem copyOut_of_inRange (hg : h.guest = some m) (hr : m.InRange target size) :
    copyOut target source size h = .ok ⟨⟩ (h.bind (m.put target (h.files.store.memory.span source size))) := by
  have hx : Transfer.copyOut h.guest (some h.files.store.memory) target source size =
      (h.files.store.memory.read source size).bind (m.write target) := by rw [hg]; rfl
  rw [Memory.read_of_inRange hs, Except.bind, Memory.write_of_inRange (by rwa [Memory.length_span])] at hx
  rw [copyOut, Op.get_bind_apply, hx, Op.lift_ok_bind, Op.modify_apply]
  rfl

/-- Bytes that the guest has no place for are not copied. -/
theorem copyOut_of_not_inRange (hn : ∀ m, h.guest = some m → ¬ m.InRange target size) :
    copyOut target source size h = .error (outOfReach h.guest target size) h := by
  have hread : h.files.store.memory.read source size = .ok (h.files.store.memory.span source size) :=
    Memory.read_of_inRange hs
  rw [copyOut, Op.get_bind_apply]
  cases hg : h.guest with
  | none =>
    have hx : Transfer.copyOut none (some h.files.store.memory) target source size =
        (h.files.store.memory.read source size).bind fun _ => .error (outOfReach none target size) := rfl
    rw [hread, Except.bind] at hx
    rw [hx, Op.lift_error_bind]
  | some m =>
    have hx : Transfer.copyOut (some m) (some h.files.store.memory) target source size =
        (h.files.store.memory.read source size).bind (m.write target) := rfl
    rw [hread, Except.bind, Memory.write_of_not_inRange (by rw [Memory.length_span]; exact hn m hg),
      Memory.length_span] at hx
    rw [hx, Op.lift_error_bind]
    rfl

/-- Bytes of the store are put into the guest, or nothing happens. -/
theorem copyOut_cases (target : Nat) :
    (∃ m, h.guest = some m ∧ m.InRange target size ∧ copyOut target source size h =
      .ok ⟨⟩ (h.bind (m.put target (h.files.store.memory.span source size)))) ∨
    ∃ e, copyOut target source size h = .error e h := by
  by_cases hn : ∀ m, h.guest = some m → ¬ m.InRange target size
  · exact Or.inr ⟨_, copyOut_of_not_inRange hs hn⟩
  · push Not at hn
    obtain ⟨m, hg, hr⟩ := hn
    exact Or.inl ⟨m, hg, hr, copyOut_of_inRange hs hg hr⟩

end CopyOut

/-! ### Results and segment lists -/

lemma scratchWord_le (value : Nat) : FileStore.scratch + (Bytes.ofNat 4 value).length ≤ FileStore.heapBase :=
  FileStore.scratch_le (by rw [Bytes.length_ofNat]; decide)

section StoreWord

variable (hb : FileStore.heapBase ≤ h.files.store.memory.size) (out value : Nat)

include hb

/-- A word goes to the guest by way of the scratch area. -/
lemma storeWord_eq : storeWord out value h = copyOut out FileStore.scratch 4
    (h.withStore (h.files.store.poke FileStore.scratch (Bytes.ofNat 4 value))) := by
  have hw := FileStore.write_of_le (Nat.le_trans (scratchWord_le value) hb)
  rw [storeWord, Op.bind_of_ok (onStore_of_ok hw)]

/-- A word in the scratch area can be read back. -/
lemma span_scratchWord : FileStore.scratch + 4 ≤
      (h.withStore (h.files.store.poke FileStore.scratch (Bytes.ofNat 4 value))).files.store.memory.size ∧
    (h.withStore (h.files.store.poke FileStore.scratch (Bytes.ofNat 4 value))).files.store.memory.span
      FileStore.scratch 4 = Bytes.ofNat 4 value := by
  have hlen : (Bytes.ofNat 4 value).length = 4 := Bytes.length_ofNat ..
  have hin : h.files.store.memory.InRange FileStore.scratch (Bytes.ofNat 4 value).length :=
    Nat.le_trans (scratchWord_le value) hb
  have hspan := Memory.span_put_self hin
  rw [withStore_store, FileStore.poke_memory, Memory.size_put]
  rw [hlen] at hspan
  exact ⟨hlen ▸ hin, hspan⟩

/-- A guest that has a place for a word gets it. -/
lemma storeWord_of_inRange (hg : h.guest = some m) (hr : m.InRange out 4) :
    storeWord out value h = .ok ⟨⟩ ((h.withStore (h.files.store.poke FileStore.scratch
      (Bytes.ofNat 4 value))).bind (m.put out (Bytes.ofNat 4 value))) := by
  obtain ⟨hsize, hspan⟩ := span_scratchWord hb value
  rw [storeWord_eq hb, copyOut_of_inRange hsize hg hr, hspan]

/-- One that has none does not, and only the scratch area is different. -/
lemma storeWord_of_not_inRange (hn : ∀ m, h.guest = some m → ¬ m.InRange out 4) :
    storeWord out value h = .error (outOfReach h.guest out 4)
      (h.withStore (h.files.store.poke FileStore.scratch (Bytes.ofNat 4 value))) := by
  obtain ⟨hsize, -⟩ := span_scratchWord hb value
  rw [storeWord_eq hb, copyOut_of_not_inRange hsize hn, withStore_guest]

end StoreWord

section Results

variable (hs : h.files.store.Sound) (out value : Nat)

include hs

lemma looks_scratchWord : h.files.store.Looks (h.files.store.poke FileStore.scratch (Bytes.ofNat 4 value)) :=
  hs.looks_poke_low (scratchWord_le value)

/-- A word is put into the guest, or nothing happens that users see. -/
theorem storeWord_cases :
    ∃ t, h.files.store.Looks t ∧
      ((∃ m, h.guest = some m ∧ m.InRange out 4 ∧
          storeWord out value h = .ok ⟨⟩ ((h.withStore t).bind (m.put out (Bytes.ofNat 4 value)))) ∨
        ∃ e, storeWord out value h = .error e (h.withStore t)) := by
  obtain ⟨hsize, hspan⟩ := span_scratchWord hs.base_le_size value
  refine ⟨_, looks_scratchWord hs value, ?_⟩
  rw [storeWord_eq hs.base_le_size]
  rcases copyOut_cases hsize out with ⟨m, hg, hr, hx⟩ | ⟨e, hx⟩
  · rw [hspan] at hx
    exact Or.inl ⟨m, hg, hr, hx⟩
  · exact Or.inr ⟨e, hx⟩

end Results

/-- The host with a segment list of the guest in the scratch area. -/
def listed (h : Host) (m : Memory) (list count : Nat) : Host :=
  h.withStore (h.files.store.poke FileStore.scratch (m.span list (count * Segment.width)))

lemma listed_store (h : Host) (m : Memory) (list count : Nat) : (h.listed m list count).files.store =
    h.files.store.poke FileStore.scratch (m.span list (count * Segment.width)) := by
  rw [listed, withStore_store]

lemma listed_guest (h : Host) (m : Memory) (list count : Nat) : (h.listed m list count).guest = h.guest := by
  rw [listed, withStore_guest]

lemma withStore_listed (h : Host) (m : Memory) (list count : Nat) (t : FileStore) :
    (h.listed m list count).withStore t = h.withStore t := by
  rw [listed, withStore_withStore]

/-- The list stays below the heap. -/
lemma scratch_list_le (hc : count * Segment.width ≤ FileStore.scratchLimit) (m : Memory) (list : Nat) :
    FileStore.scratch + (m.span list (count * Segment.width)).length ≤ FileStore.heapBase := by
  rw [Memory.length_span]
  exact FileStore.scratch_le hc

lemma looks_listed (hs : h.files.store.Sound) (hc : count * Segment.width ≤ FileStore.scratchLimit) (m : Memory)
    (list : Nat) : h.files.store.Looks (h.listed m list count).files.store := by
  rw [listed_store]
  exact hs.looks_poke_low (scratch_list_le hc m list)

/-- The segments in a guest's list. -/
def segmentsOf (m : Memory) (list count : Nat) : List Segment :=
  Segment.decodeAll (m.span list (count * Segment.width))

section GuestSegments

variable (hb : FileStore.heapBase ≤ h.files.store.memory.size) (hc : count * Segment.width ≤ FileStore.scratchLimit)

include hb hc

/-- A segment list that fits the scratch area is decoded from the guest's bytes. -/
theorem guestSegments_of_inRange (hg : h.guest = some m) (hr : m.InRange list (count * Segment.width)) :
    guestSegments list count h = .ok (some (segmentsOf m list count)) (h.listed m list count) := by
  have hin : FileStore.scratch + count * Segment.width ≤ h.files.store.memory.size :=
    Nat.le_trans (FileStore.scratch_le hc) hb
  have hcopy := copyIn_of_inRange hin hg hr
  have hlen : (m.span list (count * Segment.width)).length = count * Segment.width := Memory.length_span ..
  have hin' : (h.files.store.poke FileStore.scratch (m.span list (count * Segment.width))).memory.InRange
      FileStore.scratch (count * Segment.width) := by
    rw [Memory.InRange, FileStore.poke_memory, Memory.size_put]
    exact hin
  rw [← hlen] at hin
  have hspan := Memory.span_put_self hin
  rw [hlen] at hspan
  unfold guestSegments
  rw [if_neg (Nat.not_lt.2 hc), Op.bind_of_ok hcopy, Op.get_bind_apply, withStore_store, Memory.read_of_inRange hin',
    Op.lift_ok_bind, FileStore.poke_memory, hspan, Op.pure_apply, segmentsOf, listed]

omit hb in
lemma guestSegments_of_not_inRange (hn : ∀ m, h.guest = some m → ¬ m.InRange list (count * Segment.width)) :
    guestSegments list count h = .error (outOfReach h.guest list (count * Segment.width)) h := by
  unfold guestSegments
  rw [if_neg (Nat.not_lt.2 hc), Op.bind_of_error (copyIn_of_not_inRange hn _)]

end GuestSegments

lemma guestSegments_of_lt (hc : FileStore.scratchLimit < count * Segment.width) (list : Nat) :
    guestSegments list count h = .ok none h := by
  unfold guestSegments
  rw [if_pos hc, Op.pure_apply]

end Host

end ToolchainHost
