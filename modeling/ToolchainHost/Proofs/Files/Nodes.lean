import ToolchainHost.Proofs.Files.Opening

/-!
# Adding and finding nodes

What the calls do that name a node by a staged path, in the cases a path can be in: a directory, a file, or nothing.

* `FileStore.Prepared`: a store in which the file of a path has a given size and a place for it.
* `FileStore.addFileNode_cases`: the ways in which a file is made or replaced.
-/

namespace ToolchainHost.FileStore

variable {s t : FileStore} {i length size : Nat} {n : Node} {path : String} {bytes data : List UInt8}

/-! ### Finding nodes -/

lemma fileNode_of_fileAt (hf : s.FileAt i n) : s.fileNode (i + 1) = .ok n := by
  have hk : ¬ n.kind ≠ .file := not_not.2 hf.2
  simp only [fileNode, node, hf.1]
  exact if_neg hk

lemma fileAddress_of_fileAt (hf : s.FileAt i n) : s.fileAddress (i + 1) = .ok n.address := by
  rw [fileAddress, fileNode_of_fileAt hf]
  rfl

lemma fileSize_of_fileAt (hf : s.FileAt i n) : s.fileSize (i + 1) = .ok n.size := by
  rw [fileSize, fileNode_of_fileAt hf]
  rfl

lemma fileAddress_of_directory (hn : s.nodes[i]? = some n) (hk : n.kind = .directory) :
    s.fileAddress (i + 1) = .error (.notFound s!"inode {i + 1} is a directory") := by
  have hk' : n.kind ≠ .file := by rw [hk]; decide
  have hf : s.fileNode (i + 1) = .error (.notFound s!"inode {i + 1} is a directory") := by
    simp only [fileNode, node, hn]
    exact (if_pos hk').trans rfl
  rw [fileAddress, hf]
  rfl

lemma findNode_of_staged (hp : s.stagedPath length = .ok path) :
    s.findNode length = .ok ((s.indexOf? path).map (· + 1)) := by
  rw [findNode, hp]
  rfl

/-! ### Making directories -/

/-- A directory as the host makes it. -/
def freshDirectory (path : String) : Node := ⟨path, .directory, 0, 0, 0⟩

lemma Sound.withFreshDirectory (hs : s.Sound) (h : s.lookup path = none) :
    (s.withNewNode (freshDirectory path)).Sound :=
  hs.withNewNode (path_notMem_of_lookup_none h) (fun e => by cases e) (fun e => by cases e)

lemma listing_withFreshDirectory (s : FileStore) (path : String) :
    (s.withNewNode (freshDirectory path)).listing = s.listing ++ [(path, .directory)] := listing_withNewNode ..

lemma addDirectoryNode_of_directory (hs : s.Sound) (hp : s.stagedPath length = .ok path)
    (h : s.lookup path = some .directory) : ∃ number, addDirectoryNode length s = .ok number s := by
  obtain ⟨i, n, hi, hn, -, hk⟩ := hs.directory_of_lookup h
  have hk' : ¬ n.kind = .file := by rw [hk]; decide
  refine ⟨i + 1, ?_⟩
  simp only [addDirectoryNode, Op.get_bind_apply, hp, Op.lift_ok_bind, hi]
  rw [Op.bind_of_ok (nodeAt_of_some hn), if_neg hk']
  rfl

lemma addDirectoryNode_of_file (hs : s.Sound) (hp : s.stagedPath length = .ok path)
    (h : s.lookup path = some (.file bytes)) :
    addDirectoryNode length s = .error (.pathConflict path .file) s := by
  obtain ⟨i, n, hi, hf, -, -⟩ := hs.file_of_lookup h
  simp only [addDirectoryNode, Op.get_bind_apply, hp, Op.lift_ok_bind, hi]
  rw [Op.bind_of_ok (nodeAt_of_some hf.1), if_pos hf.2, hf.2]
  rfl

lemma addDirectoryNode_of_none (hp : s.stagedPath length = .ok path) (h : s.lookup path = none) :
    addDirectoryNode length s = .ok (s.nodes.length + 1) (s.withNewNode (freshDirectory path)) := by
  simp only [addDirectoryNode, Op.get_bind_apply, hp, Op.lift_ok_bind, indexOf?_of_lookup_none h]
  rfl

/-! ### Making files -/

/-- What a file of `size` bytes holds before it is filled: the bytes of the place it had, or zeros if it gets a new
one. -/
def recycled (s : FileStore) (path : String) (size : Nat) : List UInt8 :=
  match (s.indexOf? path).bind fun i => s.nodes[i]? with
  | some n => if size ≤ n.capacity then s.memory.span n.address size else List.replicate size 0
  | none => List.replicate size 0

lemma recycled_of_le (hi : s.indexOf? path = some i) (hn : s.nodes[i]? = some n) (hc : size ≤ n.capacity) :
    s.recycled path size = s.memory.span n.address size := by
  simp only [recycled, hi, Option.bind_some, hn, if_pos hc]

lemma recycled_of_lt (hi : s.indexOf? path = some i) (hn : s.nodes[i]? = some n) (hc : ¬ size ≤ n.capacity) :
    s.recycled path size = List.replicate size 0 := by
  simp only [recycled, hi, Option.bind_some, hn, if_neg hc]

lemma recycled_of_none (h : s.lookup path = none) : s.recycled path size = List.replicate size 0 := by
  simp only [recycled, indexOf?_of_lookup_none h, Option.bind_none]

@[simp] lemma length_recycled (s : FileStore) (path : String) (size : Nat) :
    (s.recycled path size).length = size := by
  unfold recycled
  split
  · split_ifs <;> simp
  · simp

/-- What is written below the heap does not show in recycled places. -/
lemma Sound.recycled_poke_low (hs : s.Sound) {address : Nat} (h : address + data.length ≤ heapBase)
    (hd : s.lookup path ≠ some .directory) : (s.poke address data).recycled path size = s.recycled path size := by
  cases hl : s.lookup path with
  | none =>
    rw [recycled_of_none hl, recycled_of_none ((lookup_congr (hs.listing_poke_low h)).symm ▸ hl)]
  | some e =>
    cases e with
    | directory => exact absurd hl hd
    | file bytes =>
      obtain ⟨i, n, hi, hf, -, -⟩ := hs.file_of_lookup hl
      obtain ⟨-, hb, -⟩ := hs.placed hf
      have hi' : (s.poke address data).indexOf? path = some i := hi
      by_cases hc : size ≤ n.capacity
      · rw [recycled_of_le hi hf.1 hc, recycled_of_le hi' (fileAt_poke.2 hf).1 hc, poke_memory,
          Memory.span_put_of_apart (Or.inr (by omega))]
      · rw [recycled_of_lt hi hf.1 hc, recycled_of_lt hi' (fileAt_poke.2 hf).1 hc]

/-- The store `t` is `s` with a place of `size` bytes for the file of a path, its node `n` at the index `i`. -/
structure Prepared (s : FileStore) (path : String) (size i : Nat) (n : Node) (t : FileStore) : Prop where
  sound : t.Sound
  fileAt : t.FileAt i n
  path_eq : n.path = path
  size_eq : n.size = size
  lookup : t.lookup = Function.update s.lookup path (some (.file (s.recycled path size)))
  handle : t.handle = s.handle

/-- A file with a new place. -/
def placedFile (s : FileStore) (path : String) (size : Nat) : Node := ⟨path, .file, s.aligned, size, size⟩

lemma Sound.placed_placedFile (hs : s.Sound) (path : String) (size : Nat) :
    (s.placedFile path size).Placed (s.grown size).top :=
  ⟨Nat.le_refl _, Nat.le_trans hs.base_le s.top_le_aligned, Nat.le_refl _⟩

/-- A new place is filled with zeros. -/
lemma Sound.entry_placedFile (hs : s.Sound) (path : String) (size : Nat) :
    (s.grown size).entry (s.placedFile path size) = .file (List.replicate size 0) := by
  rw [entry_of_file (n := s.placedFile path size) rfl]
  refine congrArg Entry.file (List.eq_replicate_iff.2 ⟨Memory.length_span .., fun b hb => ?_⟩)
  obtain ⟨k, -, rfl⟩ := List.mem_map.1 hb
  have ht := s.top_le_aligned
  rw [grown_byte]
  exact hs.clean _ (Nat.le_trans ht (Nat.le_add_right ..))

/-- A file that keeps its place. -/
lemma Sound.prepared_inPlace (hs : s.Sound) (hf : s.FileAt i n) (hc : size ≤ n.capacity) :
    s.Prepared n.path size i { n with size } (s.withNode i { n with size }) := by
  obtain ⟨h1, h2, h3⟩ := hs.placed hf
  have hl : (s.withNode i { n with size }).listing =
      s.listing.set i (n.path, .file (s.recycled n.path size)) := by
    rw [listing_withNode, entry_of_file (n := { n with size }) hf.2,
      recycled_of_le (hs.indexOf?_path hf.1) hf.1 hc]
  have hw : (s.withNode i { n with size }).Sound :=
    hs.withNode hf hf.2 rfl ⟨hc, h2, h3⟩ fun hj hb => (hs.apart hj.symm hf hb : n.Apart _)
  have hk : ({ n with size } : Node).kind = .file := hf.2
  exact ⟨hw, (fileAt_withNode hf hk).2 (Or.inl ⟨rfl, rfl⟩), rfl, rfl,
    hs.lookup_of_set hf.1 hl, handle_of_set hf.1 hl rfl⟩

/-- A file that gets a new place. -/
lemma Sound.prepared_moved (hs : s.Sound) (hf : s.FileAt i n) (hc : ¬ size ≤ n.capacity) (hr : s.Room size) :
    s.Prepared n.path size i (s.placedFile n.path size)
      ((s.grown size).withNode i (s.placedFile n.path size)) := by
  have hl : ((s.grown size).withNode i (s.placedFile n.path size)).listing =
      s.listing.set i (n.path, .file (s.recycled n.path size)) := by
    rw [listing_withNode, listing_grown, hs.entry_placedFile,
      recycled_of_lt (hs.indexOf?_path hf.1) hf.1 hc]
    rfl
  have ho : ((s.grown size).withNode i (s.placedFile n.path size)).opened = s.opened := by
    rw [withNode_opened, grown_opened]
  have hw := (hs.grown hr).withNode (fileAt_grown.2 hf) (rfl : (s.placedFile n.path size).kind = .file) rfl
    (hs.placed_placedFile n.path size) fun _ hb => hs.packed.apart_aligned (fileAt_grown.1 hb) rfl
  exact ⟨hw, (fileAt_withNode (fileAt_grown.2 hf) rfl).2 (Or.inl ⟨rfl, rfl⟩), rfl, rfl,
    hs.lookup_of_set hf.1 hl, handle_of_set hf.1 hl ho⟩

/-- A file that is new. -/
lemma Sound.prepared_new (hs : s.Sound) (hn : s.lookup path = none) (hr : s.Room size) :
    s.Prepared path size s.nodes.length (s.placedFile path size)
      ((s.grown size).withNewNode (s.placedFile path size)) := by
  have hl : ((s.grown size).withNewNode (s.placedFile path size)).listing =
      s.listing ++ [(path, .file (s.recycled path size))] := by
    rw [listing_withNewNode, listing_grown, hs.entry_placedFile, recycled_of_none hn]
    rfl
  have hg : (s.grown size).lookup path = none := by rw [lookup_congr (listing_grown ..), hn]
  have ho : ((s.grown size).withNewNode (s.placedFile path size)).opened = s.opened := by
    rw [withNewNode_opened, grown_opened]
  have hw := (hs.grown hr).withNewNode (n := s.placedFile path size) (path_notMem_of_lookup_none hg)
    (fun _ => hs.placed_placedFile path size) fun _ _ _ hb => hs.packed.apart_aligned (fileAt_grown.1 hb) rfl
  have hfile := fileAt_withNewNode (s := s.grown size) (n := s.placedFile path size)
    (j := s.nodes.length) |>.2 (Or.inr ⟨by rw [grown_nodes], rfl, rfl⟩)
  exact ⟨hw, hfile, rfl, rfl, lookup_of_concat hn hl, hs.handle_of_concat hl ho⟩

lemma addFileNode_of_directory (hs : s.Sound) (hp : s.stagedPath length = .ok path)
    (h : s.lookup path = some .directory) (size : Nat) :
    addFileNode length size s = .error (.pathConflict path .directory) s := by
  obtain ⟨i, n, hi, hn, -, hk⟩ := hs.directory_of_lookup h
  simp only [addFileNode, Op.get_bind_apply, hp, Op.lift_ok_bind, hi]
  rw [Op.bind_of_ok (nodeAt_of_some hn), if_pos hk, hk]
  rfl

lemma addFileNode_of_new (hp : s.stagedPath length = .ok path) (hi : s.indexOf? path = none) (hr : s.Room size) :
    addFileNode length size s =
      .ok (s.nodes.length + 1) ((s.grown size).withNewNode ⟨path, .file, s.aligned, size, size⟩) := by
  simp only [addFileNode, Op.get_bind_apply, hp, Op.lift_ok_bind, hi]
  rw [Op.bind_of_ok (allocate_of_room hr), insertNode_apply, grown_nodes]

/-- **Making a file.** A path that names no directory gets a file of the wanted size, unless the heap is full. -/
theorem addFileNode_cases (hs : s.Sound) (hp : s.stagedPath length = .ok path)
    (hd : s.lookup path ≠ some .directory) (size : Nat) :
    (∃ i n t, addFileNode length size s = .ok (i + 1) t ∧ s.Prepared path size i n t) ∨
      ¬ s.Room size ∧ addFileNode length size s = .error (s.denial size) s := by
  cases hl : s.lookup path with
  | none =>
    have hi := indexOf?_of_lookup_none hl
    by_cases hr : s.Room size
    · exact Or.inl ⟨_, _, _, addFileNode_of_new hp hi hr, hs.prepared_new hl hr⟩
    · refine Or.inr ⟨hr, ?_⟩
      simp only [addFileNode, Op.get_bind_apply, hp, Op.lift_ok_bind, hi]
      rw [Op.bind_of_error (allocate_of_not_room hr)]
  | some e =>
    cases e with
    | directory => exact absurd hl hd
    | file bytes =>
      obtain ⟨i, n, hi, hf, rfl, -⟩ := hs.file_of_lookup hl
      have hk : ¬ n.kind = .directory := by rw [hf.2]; decide
      have hx : addFileNode length size s = (do
          if size ≤ n.capacity then setNode i { n with size }
          else
            let address ← allocate size
            setNode i ⟨n.path, .file, address, size, size⟩
          return i + 1 : Op FileStore Nat) s := by
        simp only [addFileNode, Op.get_bind_apply, hp, Op.lift_ok_bind, hi]
        rw [Op.bind_of_ok (nodeAt_of_some hf.1), if_neg hk]
      by_cases hc : size ≤ n.capacity
      · refine Or.inl ⟨_, _, _, ?_, hs.prepared_inPlace hf hc⟩
        rw [hx, if_pos hc]
        rfl
      · rw [hx, if_neg hc]
        by_cases hr : s.Room size
        · refine Or.inl ⟨_, _, _, ?_, hs.prepared_moved hf hc hr⟩
          rw [Op.bind_of_ok (allocate_of_room hr)]
          rfl
        · refine Or.inr ⟨hr, ?_⟩
          rw [Op.bind_of_error (allocate_of_not_room hr)]

lemma allocate_eq_ok {address : Nat} : allocate size s = .ok address t ↔
    s.Room size ∧ address = s.aligned ∧ t = s.grown size := by
  by_cases hr : s.Room size
  · rw [allocate_of_room hr]
    simp [hr, eq_comm]
  · rw [allocate_of_not_room hr]
    simp [hr]

lemma nodeAt_eq_ok : nodeAt i s = .ok n t ↔ s.nodes[i]? = some n ∧ t = s := by
  unfold nodeAt
  rw [Op.get_bind_apply]
  cases h : s.nodes[i]? with
  | none => simp
  | some b => simp [eq_comm]

/-- A file is made without touching memory, except that it may grow for a new place. -/
lemma addFileNode_heap {number : Nat} (h : addFileNode length size s = .ok number t) :
    t.memory = s.memory ∧ t.top = s.top ∨ t.memory = (s.grown size).memory ∧ t.top = (s.grown size).top := by
  unfold addFileNode at h
  rw [Op.get_bind_apply] at h
  obtain ⟨path, u, hpath, hfile⟩ := Op.bind_eq_ok.1 h
  obtain ⟨-, rfl⟩ := Op.lift_eq_ok.1 hpath
  cases hi : s.indexOf? path with
  | none =>
    rw [hi] at hfile
    obtain ⟨address, u, ha, hinsert⟩ := Op.bind_eq_ok.1 hfile
    obtain ⟨-, -, rfl⟩ := allocate_eq_ok.1 ha
    cases hinsert
    exact Or.inr ⟨rfl, rfl⟩
  | some index =>
    rw [hi] at hfile
    obtain ⟨n, u, hn, hset⟩ := Op.bind_eq_ok.1 hfile
    obtain ⟨-, rfl⟩ := nodeAt_eq_ok.1 hn
    dsimp only at hset
    by_cases hk : n.kind = .directory
    · rw [if_pos hk] at hset
      cases hset
    rw [if_neg hk] at hset
    by_cases hc : size ≤ n.capacity
    · rw [if_pos hc] at hset
      cases hset
      exact Or.inl ⟨rfl, rfl⟩
    · rw [if_neg hc] at hset
      obtain ⟨address, u, ha, hmoved⟩ := Op.bind_eq_ok.1 hset
      obtain ⟨-, -, rfl⟩ := allocate_eq_ok.1 ha
      cases hmoved
      exact Or.inr ⟨rfl, rfl⟩

/-! ### Filling a file -/

/-- The contents that are put into the place prepared for them are what the path names then. -/
lemma Prepared.filled (h : s.Prepared path data.length i n t) :
    (t.poke n.address data).Sound ∧
      (t.poke n.address data).lookup = Function.update s.lookup path (some (.file data)) ∧
      (t.poke n.address data).handle = s.handle := by
  obtain ⟨h1, h2, h3⟩ := h.sound.placed h.fileAt
  have hsize := h.size_eq
  have hfile : (t.poke n.address data).FileAt i n := fileAt_poke.2 h.fileAt
  have hin : t.memory.InRange n.address data.length := by
    have := h.sound.top_le
    unfold Memory.InRange
    omega
  have hp : (t.poke n.address data).Sound := h.sound.poke (by omega)
  have hi : (t.poke n.address data).listing[i]? = some (n.path, .file data) := by
    rw [hfile.listing, hsize, poke_memory, Memory.span_put_self hin]
  obtain ⟨hlt, hget⟩ := List.getElem?_eq_some_iff.1 hi
  have hl : (t.poke n.address data).listing = t.listing.set i (n.path, .file data) := by
    rw [← h.sound.packed.listing_poke_within h.fileAt (Nat.le_refl n.address)
      (by omega : n.address + data.length ≤ n.address + n.capacity), ← hget, List.set_getElem_self]
  refine ⟨hp, ?_, (handle_of_set h.fileAt.1 hl rfl).trans h.handle⟩
  rw [h.sound.lookup_of_set h.fileAt.1 hl, h.lookup, h.path_eq, Function.update_idem]

end ToolchainHost.FileStore
