import ToolchainHost.Proofs.Files.Growth
import ToolchainHost.Proofs.Files.Nodes

/-!
# The layout of the heap

Where files lie, whatever their bytes are.

* `FileStore.Laid`: the places of files are below the end of what was handed out and share no byte, and the positions of
  open files are within the places of their files.
* `FileStore.Extends`: no node is lost or changes its kind, and no place shrinks.
* `FileStore.Advances`: a step keeps the first, does the second, and changes bytes in an area only. The operations of
  the store do.
-/

namespace ToolchainHost.FileStore

/-- **The layout of the heap.** -/
structure Laid (s : FileStore) : Prop where
  base_le : heapBase ≤ s.top
  top_le : s.top ≤ s.memory.size
  nodup : (s.nodes.map (·.path)).Nodup
  placed : ∀ {i n}, s.FileAt i n → n.Placed s.top
  apart : ∀ {i j a b}, i ≠ j → s.FileAt i a → s.FileAt j b → a.Apart b
  slots : s.opened.WellFormed
  opened : ∀ {slot f}, s.opened.get? slot = some f → ∃ n, s.FileAt f.node n ∧ f.position ≤ n.capacity

/-- The nodes of `s` are in `t`, with their paths and kinds and with places that have not shrunk. -/
structure Extends (s t : FileStore) : Prop where
  top_le : s.top ≤ t.top
  size_le : s.memory.size ≤ t.memory.size
  node : ∀ {i : Nat} {n : Node}, s.nodes[i]? = some n →
    ∃ n' : Node, t.nodes[i]? = some n' ∧ n'.path = n.path ∧ n'.kind = n.kind ∧ n.capacity ≤ n'.capacity

variable {s t u : FileStore} {i slot position size needed address length flags : Nat} {n n' : Node} {path : String}
  {data : List UInt8} {area : Nat → Prop}

lemma laid_empty : empty.Laid where
  base_le := sound_empty.base_le
  top_le := sound_empty.top_le
  nodup := sound_empty.nodup
  placed h := absurd h not_fileAt_empty
  apart _ h := absurd h not_fileAt_empty
  slots := sound_empty.slots
  opened h := by simp [empty, Slots.get?] at h

lemma Extends.refl (s : FileStore) : s.Extends s :=
  ⟨Nat.le_refl _, Nat.le_refl _, fun h => ⟨_, h, rfl, rfl, Nat.le_refl _⟩⟩

lemma Extends.trans (h1 : s.Extends t) (h2 : t.Extends u) : s.Extends u where
  top_le := Nat.le_trans h1.top_le h2.top_le
  size_le := Nat.le_trans h1.size_le h2.size_le
  node h := by
    obtain ⟨n₁, hn₁, hp₁, hk₁, hc₁⟩ := h1.node h
    obtain ⟨n₂, hn₂, hp₂, hk₂, hc₂⟩ := h2.node hn₁
    exact ⟨n₂, hn₂, hp₂.trans hp₁, hk₂.trans hk₁, Nat.le_trans hc₁ hc₂⟩

lemma Laid.packed (hs : s.Laid) (h : s.top < Word.count) : s.Packed :=
  ⟨hs.base_le, h, hs.top_le, hs.placed, hs.apart⟩

lemma Laid.base_le_size (hs : s.Laid) : heapBase ≤ s.memory.size := Nat.le_trans hs.base_le hs.top_le

lemma Laid.le_size (hs : s.Laid) {stop : Nat} (h : stop ≤ heapBase) : stop ≤ s.memory.size :=
  Nat.le_trans h hs.base_le_size

/-- The position behind a descriptor is a word, and it is in a file. -/
lemma Laid.fileAt_of_open (hs : s.Laid) (htop : s.top < Word.count) {d : Int} {f : OpenFile}
    (h : s.openFile? d = some f) : f.position < Word.count ∧ ∃ n, s.FileAt f.node n := by
  obtain ⟨slot, -, hget⟩ := openFile?_eq_some.1 h
  obtain ⟨n, hn, hle⟩ := hs.opened hget
  have hstop := (hs.placed hn).stop_le
  exact ⟨by omega, n, hn⟩

/-- The index finds exactly the node that has a path. -/
theorem Laid.indexOf?_eq_some (hs : s.Laid) :
    s.indexOf? path = some i ↔ ∃ n, s.nodes[i]? = some n ∧ n.path = path := by
  refine ⟨exists_node_of_indexOf?, ?_⟩
  rintro ⟨n, hn, rfl⟩
  exact indexOf?_of_nodup hs.nodup hn

lemma notMem_of_indexOf?_eq_none (h : s.indexOf? path = none) : path ∉ s.nodes.map (·.path) := by
  intro hm
  obtain ⟨n, hn, rfl⟩ := List.mem_map.1 hm
  have hne := List.findIdx?_eq_none_iff.1 h n hn
  simp at hne

lemma Laid.apart_of_top_le (hs : s.Laid) {j : Nat} {b : Node} (hb : s.FileAt j b) (h : s.top ≤ n.address) :
    n.Apart b := Or.inr (Nat.le_trans (hs.placed hb).stop_le h)

lemma fileAt_of_not_directory (hn : s.nodes[i]? = some n) (h : n.kind ≠ .directory) : s.FileAt i n := by
  refine ⟨hn, ?_⟩
  cases hk : n.kind with
  | file => rfl
  | directory => exact absurd hk h

/-! ### Steps -/

/-- The store `t` comes from `s` by a step that keeps the layout and the nodes, and changes bytes only in an area and
below the end of what is handed out then. -/
structure Advances (area : Nat → Prop) (s t : FileStore) : Prop where
  laid : t.Laid
  grows : s.Extends t
  byte_eq : ∀ k, ¬ area k ∨ t.top ≤ k → t.memory.byte k = s.memory.byte k

lemma Advances.refl (hs : s.Laid) : Advances area s s := ⟨hs, .refl s, fun _ _ => rfl⟩

lemma Advances.trans (h1 : Advances area s t) (h2 : Advances area t u) : Advances area s u where
  laid := h2.laid
  grows := h1.grows.trans h2.grows
  byte_eq k hk := by
    rw [h2.byte_eq k hk, h1.byte_eq k (hk.imp_right (Nat.le_trans h2.grows.top_le))]

section Heap

variable {memory : Memory} {top : Nat}

/-- Bytes change, and more of the heap may be handed out. -/
lemma Laid.withHeap (hs : s.Laid) (ht : s.top ≤ top) (hm : top ≤ memory.size) : (s.withHeap memory top).Laid where
  base_le := Nat.le_trans hs.base_le ht
  top_le := hm
  nodup := hs.nodup
  placed hf := by
    obtain ⟨h1, h2, h3⟩ := hs.placed hf
    exact ⟨h1, h2, Nat.le_trans h3 ht⟩
  apart hne h1 h2 := hs.apart hne h1 h2
  slots := hs.slots
  opened h := hs.opened h

lemma extends_withHeap (ht : s.top ≤ top) (hm : s.memory.size ≤ memory.size) : s.Extends (s.withHeap memory top) :=
  ⟨ht, hm, fun h => ⟨_, h, rfl, rfl, Nat.le_refl _⟩⟩

end Heap

lemma Laid.poke (hs : s.Laid) (address : Nat) (data : List UInt8) : (s.poke address data).Laid :=
  hs.withHeap (Nat.le_refl s.top) (by rw [Memory.size_put]; exact hs.top_le)

/-- Below the heap there are no files. -/
lemma Laid.listing_poke_low (hs : s.Laid) (h : address + data.length ≤ heapBase) :
    (s.poke address data).listing = s.listing :=
  listing_poke_of_outside fun hf => Or.inl (Nat.le_trans h (hs.placed hf).base_le)

lemma extends_poke (s : FileStore) (address : Nat) (data : List UInt8) : s.Extends (s.poke address data) :=
  extends_withHeap (Nat.le_refl s.top) (Nat.le_of_eq (Memory.size_put ..).symm)

lemma advances_poke (hs : s.Laid) (htop : address + data.length ≤ s.top)
    (h : ∀ k, address ≤ k → k < address + data.length → area k) : Advances area s (s.poke address data) where
  laid := hs.poke address data
  grows := s.extends_poke address data
  byte_eq k hk := by
    refine Memory.byte_put_of_outside (Classical.byContradiction fun hc => ?_)
    rcases hk with hk | hk
    · exact hk (h k (by omega) (by omega))
    · rw [poke_top] at hk
      omega

lemma advances_grown (hs : s.Laid) (size : Nat) : Advances area s (s.grown size) := by
  have htop : s.top ≤ (s.grown size).top := by
    have := s.top_le_aligned
    rw [grown_top]
    omega
  obtain ⟨hsize, hle⟩ := s.size_le_grown size
  exact ⟨hs.withHeap htop hle, extends_withHeap htop hsize, fun _ _ => grown_byte ..⟩

/-- A file gets another place that is no smaller, or another size. -/
lemma advances_withNode (hs : s.Laid) (hf : s.FileAt i n) (hk : n'.kind = .file) (hp : n'.path = n.path)
    (hc : n.capacity ≤ n'.capacity) (hn : n'.Placed s.top) (ha : ∀ {j b}, j ≠ i → s.FileAt j b → n'.Apart b) :
    Advances area s (s.withNode i n') where
  laid :=
    { base_le := hs.base_le
      top_le := hs.top_le
      nodup := nodup_withNode hs.nodup hf hp
      placed := placed_withNode hf hk hs.placed hn
      apart := apart_withNode hf hk hs.apart ha
      slots := hs.slots
      opened := fun {slot f} h => by
        obtain ⟨b, hb, hpos⟩ := hs.opened h
        by_cases hj : f.node = i
        · obtain rfl : b = n := Option.some.inj ((hj ▸ hb.1).symm.trans hf.1)
          exact ⟨n', (fileAt_withNode hf hk).2 (Or.inl ⟨hj, rfl⟩), Nat.le_trans hpos hc⟩
        · exact ⟨b, (fileAt_withNode hf hk).2 (Or.inr ⟨hj, hb⟩), hpos⟩ }
  grows := by
    refine ⟨Nat.le_refl _, Nat.le_refl _, fun {j b} hj => ?_⟩
    have hi := (List.getElem?_eq_some_iff.1 hf.1).1
    by_cases h : i = j
    · subst h
      obtain rfl : b = n := Option.some.inj (hj.symm.trans hf.1)
      exact ⟨n', List.getElem?_set_self hi, hp, hk.trans hf.2.symm, hc⟩
    · exact ⟨b, (List.getElem?_set_ne h).trans hj, rfl, rfl, Nat.le_refl _⟩
  byte_eq _ _ := rfl

/-- A file gets another size in its place. -/
lemma advances_resize (hs : s.Laid) (hf : s.FileAt i n) (hc : size ≤ n.capacity) :
    Advances area s (s.withNode i { n with size }) := by
  obtain ⟨-, h2, h3⟩ := hs.placed hf
  exact advances_withNode hs hf hf.2 rfl (Nat.le_refl _) ⟨hc, h2, h3⟩ fun hj hb => (hs.apart hj.symm hf hb : n.Apart _)

/-- A file gets the place that was handed out last. -/
lemma advances_relocate (hs : s.Laid) (ht : t.Laid) (hnodes : t.nodes = s.nodes) (hf : s.FileAt i n)
    (hk : n'.kind = .file) (hp : n'.path = n.path) (hc : n.capacity ≤ n'.capacity) (hle : s.top ≤ n'.address)
    (hn : n'.Placed t.top) : Advances area t (t.withNode i n') := by
  have hfile {j : Nat} {b : Node} : t.FileAt j b ↔ s.FileAt j b := by rw [FileAt, hnodes, FileAt]
  exact advances_withNode ht (hfile.2 hf) hk hp hc hn fun _ hb => hs.apart_of_top_le (hfile.1 hb) hle

/-- There is one more node. -/
lemma advances_withNewNode (hs : s.Laid) (hp : s.indexOf? n.path = none) (hn : n.kind = .file → n.Placed s.top)
    (ha : n.kind = .file → ∀ {j b}, s.FileAt j b → n.Apart b) : Advances area s (s.withNewNode n) where
  laid :=
    { base_le := hs.base_le
      top_le := hs.top_le
      nodup := nodup_withNewNode hs.nodup (notMem_of_indexOf?_eq_none hp)
      placed := placed_withNewNode hs.placed hn
      apart := apart_withNewNode hs.apart ha
      slots := hs.slots
      opened := fun h => by
        obtain ⟨b, hb, hpos⟩ := hs.opened h
        exact ⟨b, fileAt_withNewNode.2 (Or.inl hb), hpos⟩ }
  grows := ⟨Nat.le_refl _, Nat.le_refl _, fun {_ b} h =>
    ⟨b, (List.getElem?_append_left (List.getElem?_eq_some_iff.1 h).1).trans h, rfl, rfl, Nat.le_refl _⟩⟩
  byte_eq _ _ := rfl

/-- The table of open files changes. -/
lemma advances_withOpened (hs : s.Laid) {o : Slots OpenFile} (hw : o.WellFormed)
    (ho : ∀ {slot f}, o.get? slot = some f → ∃ n, s.FileAt f.node n ∧ f.position ≤ n.capacity) :
    Advances area s (s.withOpened o) :=
  ⟨{ hs with slots := hw, opened := ho },
    ⟨Nat.le_refl _, Nat.le_refl _, fun h => ⟨_, h, rfl, rfl, Nat.le_refl _⟩⟩, fun _ _ => rfl⟩

/-! ### Operations -/

section Operations

variable (hs : s.Laid)

include hs

lemma allocate_ends (size : Nat) :
    Op.Ends (allocate size) s (fun a t => a = s.aligned ∧ t = s.grown size) (Advances area s) := by
  by_cases hr : s.Room size
  · exact Op.ends_of_ok (allocate_of_room hr) ⟨rfl, rfl⟩
  · exact Op.ends_of_error (allocate_of_not_room hr) (.refl hs)

theorem addDirectoryNode_ends (length : Nat) :
    Op.Ends (addDirectoryNode length) s (fun _ => Advances area s) (Advances area s) := by
  unfold addDirectoryNode
  refine Op.ends_get_bind (Op.ends_lift_bind (fun path _ => ?_) (.refl hs))
  split
  · rename_i i hi
    obtain ⟨n, hn, -⟩ := exists_node_of_indexOf? hi
    refine Op.ends_bind_of_ok (nodeAt_of_some hn) ?_
    dsimp only
    split_ifs
    · exact Op.ends_throw _ (.refl hs)
    · exact Op.ends_pure (.refl hs)
  · rename_i hi
    exact Op.ends_of_ok (insertNode_apply ..)
      (advances_withNewNode hs hi (fun hk => by cases hk) fun hk => by cases hk)

/-- A new place is as large as it has to be. -/
lemma placed_aligned {capacity : Nat} (ha : n.address = s.aligned) (hc : n.capacity = capacity)
    (hn : n.size ≤ capacity) : n.Placed (s.grown capacity).top :=
  ⟨hc ▸ hn, ha ▸ Nat.le_trans hs.base_le s.top_le_aligned, Nat.le_of_eq (by rw [ha, hc, grown_top])⟩

theorem addFileNode_ends (length size : Nat) :
    Op.Ends (addFileNode length size) s (fun _ => Advances area s) (Advances area s) := by
  unfold addFileNode
  refine Op.ends_get_bind (Op.ends_lift_bind (fun path _ => ?_) (.refl hs))
  split
  · rename_i i hi
    obtain ⟨n, hn, rfl⟩ := exists_node_of_indexOf? hi
    refine Op.ends_bind_of_ok (nodeAt_of_some hn) ?_
    by_cases hd : n.kind = .directory
    · rw [if_pos hd]
      exact Op.ends_throw _ (.refl hs)
    rw [if_neg hd]
    have hf := fileAt_of_not_directory hn hd
    split_ifs with hc
    · exact Op.ends_bind_of_ok (setNode_apply ..) (Op.ends_pure (advances_resize hs hf hc))
    · refine .bind (allocate_ends hs size) ?_
      rintro _ _ ⟨rfl, rfl⟩
      have hg : Advances area s (s.grown size) := advances_grown hs size
      refine Op.ends_bind_of_ok (setNode_apply ..) (Op.ends_pure (hg.trans ?_))
      exact advances_relocate hs hg.laid (grown_nodes ..) hf rfl rfl (Nat.le_of_not_le hc) s.top_le_aligned
        (placed_aligned hs rfl rfl (Nat.le_refl _))
  · rename_i hi
    refine .bind (allocate_ends hs size) ?_
    rintro _ _ ⟨rfl, rfl⟩
    have hg : Advances area s (s.grown size) := advances_grown hs size
    have hi' : (s.grown size).indexOf? path = none := by
      rw [indexOf?, grown_nodes]
      exact hi
    exact Op.ends_of_ok (insertNode_apply ..) (hg.trans (advances_withNewNode hg.laid hi'
      (fun _ => placed_aligned hs rfl rfl (Nat.le_refl _)) fun _ _ b hb =>
        hs.apart_of_top_le (fileAt_grown.1 hb) s.top_le_aligned))

theorem openTarget_ends (path : String) (flags : Nat) :
    Op.Ends (openTarget path flags) s
      (fun r t => Advances area s t ∧ ∀ i, r = .ok i → ∃ n, t.FileAt i n) (Advances area s) := by
  unfold openTarget
  refine Op.ends_get_bind ?_
  split
  · rename_i i hi
    obtain ⟨n, hn, rfl⟩ := exists_node_of_indexOf? hi
    refine Op.ends_bind_of_ok (nodeAt_of_some hn) ?_
    by_cases hd : n.kind = .directory
    · rw [if_pos hd]
      exact Op.ends_pure ⟨.refl hs, fun _ h => by cases h⟩
    rw [if_neg hd]
    have hf := fileAt_of_not_directory hn hd
    split_ifs
    · refine Op.ends_of_ok rfl ⟨advances_resize hs hf (Nat.zero_le _), fun j hj => ?_⟩
      cases hj
      have hk : ({ n with size := 0 } : Node).kind = .file := hf.2
      exact ⟨_, (fileAt_withNode hf hk).2 (Or.inl ⟨rfl, rfl⟩)⟩
    · refine Op.ends_pure ⟨.refl hs, fun j hj => ?_⟩
      cases hj
      exact ⟨n, hf⟩
  · rename_i hi
    split_ifs
    · refine Op.ends_of_ok rfl ⟨advances_withNewNode (n := freshFile path) hs hi
        (fun _ => ⟨Nat.le_refl _, Nat.le_refl _, hs.base_le⟩) fun _ _ b hb => Or.inl (hs.placed hb).base_le,
        fun j hj => ?_⟩
      cases hj
      exact ⟨_, fileAt_withNewNode.2 (Or.inr ⟨rfl, rfl, rfl⟩)⟩
    · exact Op.ends_pure ⟨.refl hs, fun _ h => by cases h⟩

/-- A file is opened at its start. -/
lemma advances_withOpenFile (hf : s.FileAt i n) : Advances area s (s.withOpenFile i) := by
  refine advances_withOpened hs (hs.slots.insert _) fun {slot f} h => ?_
  rw [hs.slots.get?_insert] at h
  split_ifs at h
  · cases h
    exact ⟨n, hf, Nat.zero_le _⟩
  · exact hs.opened h

theorem close_ends (descriptor : Int) :
    Op.Ends (close descriptor) s (fun _ => Advances area s) (Advances area s) := by
  cases hf : s.openFile? descriptor with
  | none => exact Op.ends_of_ok (close_of_none hf) (.refl hs)
  | some f =>
    obtain ⟨slot, hd, hget⟩ := openFile?_eq_some.1 hf
    refine Op.ends_of_ok (close_of_some hd hget) (advances_withOpened hs (hs.slots.erase (by rw [hget]; rfl)) ?_)
    intro k g h
    rw [Slots.get?_erase] at h
    split_ifs at h
    exact hs.opened h

/-- A position within the place of the file that is open there. -/
lemma advances_withPosition {f : OpenFile} (hget : s.opened.get? slot = some f) (hf : s.FileAt f.node n)
    (hp : position ≤ n.capacity) : Advances area s (s.withPosition slot position) := by
  refine advances_withOpened hs (hs.slots.modify _ _) fun {k g} h => ?_
  rw [Slots.get?_modify] at h
  split_ifs at h with hk
  · rw [hk, hget] at h
    cases h
    exact ⟨n, hf, hp⟩
  · exact hs.opened h

end Operations

/-! ### Making room in a file -/

/-- The place of the file `i`, and what may still be handed out, are in an area. -/
structure Owns (area : Nat → Prop) (s : FileStore) (i : Nat) (n : Node) : Prop where
  fileAt : s.FileAt i n
  place : ∀ k, n.address ≤ k → k < n.address + n.capacity → area k
  fresh : ∀ k, s.top ≤ k → area k

/-- **Room is made** in the place of the file or in a new one. -/
theorem reserve_ends (hs : s.Laid) (ho : Owns area s i n) (needed : Nat) :
    Op.Ends (reserve i needed) s
      (fun n' t => Advances area s t ∧ Owns area t i n' ∧ needed ≤ n'.capacity ∧ t.opened = s.opened)
      (Advances area s) := by
  have hf := ho.fileAt
  unfold reserve
  refine Op.ends_bind_of_ok (nodeAt_of_some hf.1) ?_
  dsimp only
  split_ifs with hc
  · exact Op.ends_pure ⟨.refl hs, ho, hc, rfl⟩
  · have hcap := le_grownCapacity n needed
    have hg : Advances area s (s.grown (grownCapacity n needed)) := advances_grown hs _
    refine .bind (allocate_ends hs _) ?_
    rintro _ _ ⟨rfl, rfl⟩
    refine Op.ends_get_bind (Op.ends_lift_bind (fun contents hread => ?_) hg)
    have hlen : contents.length = n.size := by rw [(Memory.read_eq_ok.1 hread).2, Memory.length_span]
    have hsize := (hs.placed hf).size_le
    have htop := s.top_le_aligned
    have hin : s.aligned + contents.length ≤ (s.grown (grownCapacity n needed)).top := by
      rw [grown_top, hlen]
      omega
    have hp := hg.trans (advances_poke hg.laid hin fun k hk _ => ho.fresh k (Nat.le_trans htop hk))
    refine Op.ends_bind_of_ok (write_of_le (Nat.le_trans hin hg.laid.top_le)) ?_
    have hk : (s.movedNode n (grownCapacity n needed)).kind = .file := hf.2
    refine Op.ends_of_ok rfl ⟨hp.trans (advances_relocate hs hp.laid ?_ hf hk rfl ?_ htop ?_), ⟨?_, ?_, ?_⟩, hcap, ?_⟩
    · rw [poke_nodes, grown_nodes]
    · exact Nat.le_trans (Nat.le_of_not_le hc) hcap
    · exact placed_aligned hs rfl rfl (Nat.le_trans hsize (Nat.le_trans (Nat.le_of_not_le hc) hcap))
    · exact fileAt_moved hf
    · exact fun k hk _ => ho.fresh k (Nat.le_trans htop hk)
    · exact fun k hk => ho.fresh k (Nat.le_trans hg.grows.top_le hk)
    · exact moved_opened s i n _

/-- Bytes are put into the place of a file, which may get longer. -/
theorem Owns.stored (ho : Owns area s i n) (hs : s.Laid) (hc : position + data.length ≤ n.capacity) :
    Advances area s (s.stored i n position data) ∧
      Owns area (s.stored i n position data) i (lengthened n (position + data.length)) := by
  obtain ⟨h1, h2, h3⟩ := hs.placed ho.fileAt
  have hp : Advances area s (s.poke (n.address + position) data) :=
    advances_poke hs (by omega) fun k _ _ => ho.place k (by omega) (by omega)
  have hsize : max n.size (position + data.length) ≤ n.capacity := Nat.max_le.2 ⟨h1, hc⟩
  exact ⟨hp.trans (advances_resize hp.laid (fileAt_poke.2 ho.fileAt) hsize), fileAt_stored ho.fileAt, ho.place,
    ho.fresh⟩

end ToolchainHost.FileStore
