import ToolchainHost.Proofs.Files.Store

/-!
# Files that grow

* `FileStore.reserve_of_canHold`: making room moves a file at most; the listing stays as it is.
* `FileStore.Refits.listing_stored`: bytes stored at a position overwrite what was there. What lies between the old
  end and the position are the bytes of the place.
* `FileStore.Holds.listing_stored`: in a sound store these are the `residue`, zeros if the file was moved.
-/

namespace ToolchainHost.FileStore

variable {s : FileStore} {i capacity needed position : Nat} {data : List UInt8} {n : Node}

/-! ### Moving a file -/

/-- The file `n` in a new place. -/
def movedNode (s : FileStore) (n : Node) (capacity : Nat) : Node := { n with address := s.aligned, capacity }

/-- The store with the file `i` in a new place. -/
def moved (s : FileStore) (i : Nat) (n : Node) (capacity : Nat) : FileStore :=
  ((s.grown capacity).poke s.aligned (s.memory.span n.address n.size)).withNode i (s.movedNode n capacity)

lemma moved_memory (s : FileStore) (i : Nat) (n : Node) (capacity : Nat) :
    (s.moved i n capacity).memory = (s.grown capacity).memory.put s.aligned (s.memory.span n.address n.size) := rfl

lemma moved_opened (s : FileStore) (i : Nat) (n : Node) (capacity : Nat) :
    (s.moved i n capacity).opened = s.opened := by
  rw [moved, withNode_opened, poke_opened, grown_opened]

/-- The copy fits the new place. -/
lemma copy_le (s : FileStore) (hc : n.size ≤ capacity) :
    s.aligned + (s.memory.span n.address n.size).length ≤ (s.grown capacity).top := by
  rw [Memory.length_span, grown_top]
  omega

lemma fileAt_copied (hf : s.FileAt i n) :
    ((s.grown capacity).poke s.aligned (s.memory.span n.address n.size)).FileAt i n :=
  fileAt_poke.2 (fileAt_grown.2 hf)

lemma fileAt_moved (hf : s.FileAt i n) : (s.moved i n capacity).FileAt i (s.movedNode n capacity) := by
  have hk : (s.movedNode n capacity).kind = .file := hf.2
  exact (fileAt_withNode (fileAt_copied hf) hk).2 (Or.inl ⟨rfl, rfl⟩)

/-- The new place was handed out, and it is apart from the others. -/
lemma Packed.movedNode (hs : s.Packed) (hc : n.size ≤ capacity) :
    (s.movedNode n capacity).Placed (s.grown capacity).top ∧
      ∀ {j b}, s.FileAt j b → (s.movedNode n capacity).Apart b :=
  ⟨⟨hc, Nat.le_trans hs.base_le s.top_le_aligned, Nat.le_refl _⟩, fun hb => hs.apart_aligned hb rfl⟩

lemma Packed.moved (hs : s.Packed) (hf : s.FileAt i n) (hr : s.Room capacity) (hc : n.size ≤ capacity) :
    (s.moved i n capacity).Packed := by
  obtain ⟨hplaced, hapart⟩ := hs.movedNode (n := n) hc
  exact ((hs.grown hr).poke ..).withNode (fileAt_copied hf) hf.2 hplaced fun _ hb =>
    hapart (fileAt_grown.1 (fileAt_poke.1 hb))

lemma Sound.moved (hs : s.Sound) (hf : s.FileAt i n) (hr : s.Room capacity) (hc : n.size ≤ capacity) :
    (s.moved i n capacity).Sound := by
  obtain ⟨hplaced, hapart⟩ := hs.packed.movedNode (n := n) hc
  exact ((hs.grown hr).poke (s.copy_le hc)).withNode (fileAt_copied hf) hf.2 rfl hplaced fun _ hb =>
    hapart (fileAt_grown.1 (fileAt_poke.1 hb))

lemma Packed.span_moved (hs : s.Packed) (hr : s.Room capacity) (hc : n.size ≤ capacity) :
    (s.moved i n capacity).memory.span s.aligned n.size = s.memory.span n.address n.size := by
  have hin : (s.grown capacity).memory.InRange s.aligned (s.memory.span n.address n.size).length :=
    Nat.le_trans (s.copy_le hc) (hs.grown hr).top_le
  have h := Memory.span_put_self hin
  rwa [Memory.length_span] at h

/-- Moving a file changes nothing users see. -/
lemma Packed.listing_moved (hs : s.Packed) (hf : s.FileAt i n) (hr : s.Room capacity) (hc : n.size ≤ capacity) :
    (s.moved i n capacity).listing = s.listing := by
  have he : (s.moved i n capacity).entry (s.movedNode n capacity) = s.entry n := by
    rw [entry_of_file hf.2, entry_of_file (n := s.movedNode n capacity) hf.2]
    exact congrArg Entry.file (hs.span_moved hr hc)
  have hl : ((s.grown capacity).poke s.aligned (s.memory.span n.address n.size)).listing = s.listing := by
    rw [listing_poke_of_outside, listing_grown]
    intro j b hb
    have h1 := (hs.placed (fileAt_grown.1 hb)).stop_le
    have h2 := (hs.placed (fileAt_grown.1 hb)).size_le
    have h3 := s.top_le_aligned
    omega
  have hi : s.listing[i]? = some (n.path, s.entry n) := by rw [getElem?_listing, hf.1, Option.map_some]
  obtain ⟨hlt, hget⟩ := List.getElem?_eq_some_iff.1 hi
  have hset : (s.moved i n capacity).listing = s.listing.set i (n.path, s.entry n) := by
    rw [FileStore.moved, listing_withNode, hl]
    exact congrArg (fun e => s.listing.set i (n.path, e)) he
  rw [hset, ← hget, List.set_getElem_self]

/-- Behind the copy the new place holds zeros. -/
lemma Sound.byte_moved (hs : s.Sound) {k : Nat} (hk : n.size ≤ k) :
    (s.moved i n capacity).memory.byte (s.aligned + k) = 0 := by
  have ht := s.top_le_aligned
  rw [moved_memory, Memory.byte_put_of_outside (by rw [Memory.length_span]; omega), grown_byte,
    hs.clean _ (by omega)]

/-! ### Making room -/

/-- A file can hold `needed` bytes where it is, or there is room to move it. -/
def CanHold (s : FileStore) (n : Node) (needed : Nat) : Prop :=
  n.capacity < needed → s.Room (grownCapacity n needed)

instance (s : FileStore) (n : Node) (needed : Nat) : Decidable (s.CanHold n needed) :=
  inferInstanceAs (Decidable (_ → _))

/-- The file with an index, and the store, after room was made for `needed` bytes. -/
def reserved (s : FileStore) (i : Nat) (n : Node) (needed : Nat) : Node × FileStore :=
  if needed ≤ n.capacity then (n, s)
  else (s.movedNode n (grownCapacity n needed), s.moved i n (grownCapacity n needed))

lemma le_grownCapacity (n : Node) (needed : Nat) : needed ≤ grownCapacity n needed := by
  unfold grownCapacity
  omega

lemma reserve_of_canHold (hs : s.Packed) (hf : s.FileAt i n) (h : s.CanHold n needed) :
    reserve i needed s = .ok (s.reserved i n needed).1 (s.reserved i n needed).2 := by
  unfold reserve reserved
  rw [Op.bind_of_ok (nodeAt_of_some hf.1)]
  split_ifs with hc
  · rfl
  · have hr : s.Room (grownCapacity n needed) := h (by omega)
    obtain ⟨hsize, -, hstop⟩ := hs.placed hf
    have hcap := le_grownCapacity n needed
    have hin : (s.grown (grownCapacity n needed)).memory.InRange n.address n.size := by
      have h1 := (hs.grown hr).top_le
      have h2 := s.top_le_aligned
      rw [grown_top] at h1
      unfold Memory.InRange
      omega
    have hw : s.aligned + (s.memory.span n.address n.size).length ≤
        (s.grown (grownCapacity n needed)).memory.size :=
      Nat.le_trans (s.copy_le (by omega)) (hs.grown hr).top_le
    dsimp only
    rw [Op.bind_of_ok (allocate_of_room hr), Op.get_bind_apply, Memory.read_of_inRange hin, grown_span,
      Op.lift_ok_bind, Op.bind_of_ok (write_of_le hw)]
    rfl

lemma reserve_of_not_canHold (hf : s.FileAt i n) (h : ¬ s.CanHold n needed) :
    reserve i needed s = .error (s.denial (grownCapacity n needed)) s := by
  obtain ⟨hc, hr⟩ := Classical.not_imp.1 h
  unfold reserve
  rw [Op.bind_of_ok (nodeAt_of_some hf.1), if_neg (by omega)]
  dsimp only
  rw [Op.bind_of_error (allocate_of_not_room hr)]

/-- What comes to lie between the end of a file and a position behind it: the bytes that the place holds there,
or zeros if the file is moved. -/
def residue (s : FileStore) (n : Node) (position stop : Nat) : List UInt8 :=
  if stop ≤ n.capacity then s.memory.span (n.address + n.size) (position - n.size)
  else List.replicate (position - n.size) 0

@[simp] lemma length_residue (s : FileStore) (n : Node) (position stop : Nat) :
    (s.residue n position stop).length = position - n.size := by
  unfold residue
  split_ifs <;> simp

lemma residue_of_le (h : position ≤ n.size) (stop : Nat) : s.residue n position stop = [] :=
  List.eq_nil_of_length_eq_zero (by rw [length_residue]; omega)

/-- The file `n` of the store `s` has room for `needed` bytes as the file `n'` of the store `t`, with the same bytes. -/
structure Refits (s : FileStore) (i : Nat) (n : Node) (needed : Nat) (n' : Node) (t : FileStore) : Prop where
  packed : t.Packed
  fileAt : t.FileAt i n'
  listing : t.listing = s.listing
  opened : t.opened = s.opened
  path_eq : n'.path = n.path
  size_eq : n'.size = n.size
  span_eq : t.memory.span n'.address n.size = s.memory.span n.address n.size
  le_capacity : needed ≤ n'.capacity

theorem Packed.refits_reserved (hs : s.Packed) (hf : s.FileAt i n) (h : s.CanHold n needed) :
    s.Refits i n needed (s.reserved i n needed).1 (s.reserved i n needed).2 := by
  unfold reserved
  split_ifs with hc
  · exact ⟨hs, hf, rfl, rfl, rfl, rfl, rfl, hc⟩
  · have hr : s.Room (grownCapacity n needed) := h (by omega)
    have hcap := le_grownCapacity n needed
    have hsize : n.size ≤ grownCapacity n needed := by
      have := (hs.placed hf).size_le
      omega
    exact ⟨hs.moved hf hr hsize, fileAt_moved hf, hs.listing_moved hf hr hsize, moved_opened .., rfl, rfl,
      hs.span_moved hr hsize, hcap⟩

/-- What is written below the heap is in no file. -/
lemma Packed.refits_poke_low (hs : s.Packed) (hf : s.FileAt i n) {address : Nat}
    (h : address + data.length ≤ heapBase) : s.Refits i n n.capacity n (s.poke address data) where
  packed := hs.poke address data
  fileAt := fileAt_poke.2 hf
  listing := hs.listing_poke_low h
  opened := poke_opened ..
  path_eq := rfl
  size_eq := rfl
  span_eq := Memory.span_put_of_apart (Or.inr (Nat.le_trans h (hs.placed hf).base_le))
  le_capacity := Nat.le_refl _

/-- A file that has room for `needed` bytes has it at addresses that are words. -/
lemma Refits.stop_lt {n' : Node} {t : FileStore} (h : s.Refits i n needed n' t) :
    n'.address + needed < Word.count := by
  have h1 := (h.packed.placed h.fileAt).stop_le
  have h2 := h.le_capacity
  have h3 := h.packed.top_lt
  omega

/-- The file `n` of the store `s` can hold `needed` bytes as the file `n'` of the store `t`, which looks the same. -/
structure Holds (s : FileStore) (i : Nat) (n : Node) (needed : Nat) (n' : Node) (t : FileStore) : Prop where
  sound : t.Sound
  fileAt : t.FileAt i n'
  listing : t.listing = s.listing
  opened : t.opened = s.opened
  path_eq : n'.path = n.path
  size_eq : n'.size = n.size
  span_eq : t.memory.span n'.address n.size = s.memory.span n.address n.size
  le_capacity : needed ≤ n'.capacity
  residue_eq : ∀ position, t.memory.span (n'.address + n.size) (position - n.size) = s.residue n position needed

lemma Holds.refits {n' : Node} {t : FileStore} (h : s.Holds i n needed n' t) : s.Refits i n needed n' t :=
  ⟨h.sound.packed, h.fileAt, h.listing, h.opened, h.path_eq, h.size_eq, h.span_eq, h.le_capacity⟩

theorem holds_reserved (hs : s.Sound) (hf : s.FileAt i n) (h : s.CanHold n needed) :
    s.Holds i n needed (s.reserved i n needed).1 (s.reserved i n needed).2 := by
  obtain ⟨-, hfile, hlisting, hopened, hpath, hsize, hspan, hneeded⟩ := hs.packed.refits_reserved hf h
  suffices hnew : (s.reserved i n needed).2.Sound ∧ ∀ position, (s.reserved i n needed).2.memory.span
      ((s.reserved i n needed).1.address + n.size) (position - n.size) = s.residue n position needed from
    ⟨hnew.1, hfile, hlisting, hopened, hpath, hsize, hspan, hneeded, hnew.2⟩
  unfold reserved
  split_ifs with hc
  · exact ⟨hs, fun _ => (if_pos hc).symm⟩
  · have hr : s.Room (grownCapacity n needed) := h (by omega)
    have hcap := le_grownCapacity n needed
    have hsize : n.size ≤ grownCapacity n needed := by
      have := (hs.placed hf).size_le
      omega
    refine ⟨hs.moved hf hr hsize, fun position => ?_⟩
    rw [residue, if_neg hc]
    refine List.eq_replicate_iff.2 ⟨Memory.length_span .., fun b hb => ?_⟩
    obtain ⟨k, -, rfl⟩ := List.mem_map.1 hb
    rw [Nat.add_assoc]
    exact hs.byte_moved (by omega)

/-! ### Storing bytes -/

/-- The file `n`, at least `size` bytes long. -/
def lengthened (n : Node) (size : Nat) : Node := { n with size := max n.size size }

/-- The store after `data` was put at a position of the file `i`, for which room was made. -/
def stored (t : FileStore) (i : Nat) (n' : Node) (position : Nat) (data : List UInt8) : FileStore :=
  (t.poke (n'.address + position) data).withNode i (lengthened n' (position + data.length))

@[simp] lemma stored_opened (t : FileStore) (i : Nat) (n' : Node) (position : Nat) (data : List UInt8) :
    (t.stored i n' position data).opened = t.opened := rfl

section Stored

variable {t : FileStore} {n' : Node}

lemma extend_poke (hf : t.FileAt i n') (position : Nat) (data : List UInt8) :
    extend i (position + data.length) (t.poke (n'.address + position) data) =
      .ok ⟨⟩ (t.stored i n' position data) := by
  unfold extend
  rw [Op.bind_of_ok (nodeAt_of_some (fileAt_poke.2 hf).1)]
  rfl

/-- A file that gets longer within its place is still apart from the others. -/
lemma Packed.lengthened (ht : t.Packed) (hf : t.FileAt i n') {size : Nat} (hc : size ≤ n'.capacity) :
    (lengthened n' size).Placed t.top ∧ ∀ {j b}, j ≠ i → t.FileAt j b → (FileStore.lengthened n' size).Apart b := by
  obtain ⟨h1, h2, h3⟩ := ht.placed hf
  exact ⟨⟨Nat.max_le.2 ⟨h1, hc⟩, h2, h3⟩, fun hj hb => (ht.apart hj.symm hf hb : n'.Apart _)⟩

lemma Packed.stored (ht : t.Packed) (hf : t.FileAt i n') (hc : position + data.length ≤ n'.capacity) :
    (t.stored i n' position data).Packed := by
  obtain ⟨hplaced, hapart⟩ := ht.lengthened hf hc
  exact (ht.poke ..).withNode (fileAt_poke.2 hf) hf.2 hplaced fun hj hb => hapart hj (fileAt_poke.1 hb)

lemma Sound.stored (ht : t.Sound) (hf : t.FileAt i n') (hc : position + data.length ≤ n'.capacity) :
    (t.stored i n' position data).Sound := by
  obtain ⟨hplaced, hapart⟩ := ht.packed.lengthened hf hc
  have hstop := (ht.placed hf).stop_le
  exact (ht.poke (by omega)).withNode (fileAt_poke.2 hf) hf.2 rfl hplaced fun hj hb => hapart hj (fileAt_poke.1 hb)

lemma fileAt_stored (hf : t.FileAt i n') :
    (t.stored i n' position data).FileAt i (lengthened n' (position + data.length)) := by
  have hk : (lengthened n' (position + data.length)).kind = .file := hf.2
  exact (fileAt_withNode (fileAt_poke.2 hf) hk).2 (Or.inl ⟨rfl, rfl⟩)

/-- The bytes of a file after bytes were stored in it. -/
lemma span_stored (ht : t.Packed) (hf : t.FileAt i n') (hc : position + data.length ≤ n'.capacity) :
    (t.stored i n' position data).memory.span n'.address (max n'.size (position + data.length)) =
      Bytes.splice
        (t.memory.span n'.address n'.size ++ t.memory.span (n'.address + n'.size) (position - n'.size))
        position data := by
  obtain ⟨h1, h2, h3⟩ := ht.placed hf
  have hle := ht.top_le
  have hin : t.memory.InRange n'.address (max n'.size (position + data.length)) := by
    unfold Memory.InRange
    omega
  have hput := Memory.span_put_within hin (Nat.le_max_right n'.size (position + data.length))
  have hsum : max n'.size (position + data.length) =
      n'.size + (position - n'.size) + (max n'.size (position + data.length) - max n'.size position) := by omega
  calc (t.stored i n' position data).memory.span n'.address (max n'.size (position + data.length))
      = Bytes.splice (t.memory.span n'.address (max n'.size (position + data.length))) position data := hput
    _ = _ := by
        rw [hsum, Memory.span_add, Memory.span_add]
        refine Bytes.splice_append_of_covered ?_ fun hb => ?_
        · rw [List.length_append, Memory.length_span, Memory.length_span]
          omega
        · have hpos := List.length_pos_of_ne_nil hb
          rw [Memory.length_span] at hpos
          simp only [List.length_append, Memory.length_span]
          omega

end Stored

/-- **Storing bytes in a file.** The bytes at the position are overwritten, behind the old end the bytes of the place
come to light, and no other file changes. -/
theorem Refits.listing_stored {t : FileStore} {n' : Node}
    (h : s.Refits i n (position + data.length) n' t) :
    (t.stored i n' position data).listing = s.listing.set i (n.path, .file (Bytes.splice
      (s.memory.span n.address n.size ++ t.memory.span (n'.address + n.size) (position - n.size)) position data)) := by
  have hf := h.fileAt
  obtain ⟨h1, h2, h3⟩ := h.packed.placed hf
  have hc := h.le_capacity
  have hout : (t.stored i n' position data).listing =
      s.listing.set i (n.path, (t.stored i n' position data).entry (lengthened n' (position + data.length))) := by
    rw [stored, listing_withNode, h.packed.listing_poke_within hf (by omega) (by omega), h.listing, ← h.path_eq]
    rfl
  rw [hout, entry_of_file (n := lengthened n' _) hf.2]
  have hs := span_stored h.packed hf hc
  rw [h.size_eq, h.span_eq] at hs
  exact congrArg (fun b => s.listing.set i (n.path, Entry.file b)) (h.size_eq ▸ hs)

/-- In a sound store what comes to light is the residue. -/
theorem Holds.listing_stored {t : FileStore} {n' : Node}
    (h : s.Holds i n (position + data.length) n' t) :
    (t.stored i n' position data).listing = s.listing.set i (n.path, .file (Bytes.splice
      (s.memory.span n.address n.size ++ s.residue n position (position + data.length)) position data)) := by
  rw [h.refits.listing_stored, h.residue_eq]

end ToolchainHost.FileStore
