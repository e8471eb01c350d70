import ToolchainHost.Proofs.Files.Lookup

/-!
# Open files

* `FileStore.handle`: what a descriptor stands for, the path of its file and the position in it. Only opening,
  closing and moving a position change it.
* `nodePath`: the path that bytes in the path buffer stand for.
* `FileStore.openTarget_of_file` and its siblings: what opening a path does in each case.
-/

namespace ToolchainHost

/-- The path that staged bytes stand for. -/
def nodePath (bytes : List UInt8) : String := Path.normalize (Memory.textOf bytes)

namespace FileStore

variable {s t : FileStore} {i slot position flags : Nat} {n : Node} {path : String} {d : Int} {f : OpenFile}
  {bytes : List UInt8}

/-! ### What a descriptor stands for -/

/-- The path and the position of an open file. -/
def handleOf (s : FileStore) (f : OpenFile) : Option (String × Nat) :=
  s.listing[f.node]?.map fun e => (e.1, f.position)

/-- The path and the position behind a descriptor. -/
def handle (s : FileStore) (d : Int) : Option (String × Nat) := (s.openFile? d).bind s.handleOf

lemma slotOf?_eq_some : slotOf? d = some slot ↔ d = (slot : Int) + 3 := by
  unfold slotOf? firstDescriptor
  split_ifs with h
  · rw [Option.some.injEq]
    omega
  · simp only [false_iff]
    omega

lemma openFile?_eq_some : s.openFile? d = some f ↔ ∃ slot, slotOf? d = some slot ∧ s.opened.get? slot = some f :=
  Option.bind_eq_some_iff

lemma Sound.fileAt_of_open (hs : s.Sound) (h : s.openFile? d = some f) :
    f.position < Word.count ∧ ∃ n, s.FileAt f.node n := by
  obtain ⟨slot, -, h⟩ := openFile?_eq_some.1 h
  exact hs.opened h

lemma handle_of_open (h : s.openFile? d = some f) (hn : s.nodes[f.node]? = some n) :
    s.handle d = some (n.path, f.position) := by
  rw [handle, h, Option.bind_some, handleOf, getElem?_listing, hn]
  rfl

/-- What stands behind a descriptor is a file that is open. -/
lemma Sound.exists_open (hs : s.Sound) {name : String} {position : Nat} (h : s.handle d = some (name, position)) :
    ∃ f n, s.openFile? d = some f ∧ s.FileAt f.node n ∧ n.path = name ∧ f.position = position := by
  cases hf : s.openFile? d with
  | none =>
    rw [handle, hf] at h
    cases h
  | some f =>
    obtain ⟨-, n, hn⟩ := hs.fileAt_of_open hf
    rw [handle_of_open hf hn.1] at h
    cases h
    exact ⟨f, n, rfl, hn, rfl, rfl⟩

lemma Sound.handle_eq_none (hs : s.Sound) : s.handle d = none ↔ s.openFile? d = none := by
  constructor
  · intro h
    cases hf : s.openFile? d with
    | none => rfl
    | some f =>
      obtain ⟨-, n, hn⟩ := hs.fileAt_of_open hf
      rw [handle_of_open hf hn.1] at h
      cases h
  · intro h
    rw [handle, h, Option.bind_none]

lemma handleOf_congr (hl : t.listing = s.listing) : t.handleOf = s.handleOf := by
  funext f
  rw [handleOf, hl, handleOf]

lemma handle_congr (hl : t.listing = s.listing) (ho : t.opened = s.opened) : t.handle = s.handle := by
  funext d
  rw [handle, openFile?, ho, handleOf_congr hl, handle, openFile?]

lemma handle_of_set (hn : s.nodes[i]? = some n) {e : Entry} (hl : t.listing = s.listing.set i (n.path, e))
    (ho : t.opened = s.opened) : t.handle = s.handle := by
  have hi : s.listing[i]? = some (n.path, s.entry n) := by rw [getElem?_listing, hn, Option.map_some]
  have hf : ∀ f, t.handleOf f = s.handleOf f := by
    intro f
    unfold handleOf
    by_cases hj : i = f.node
    · rw [hl, ← hj, List.getElem?_set_self (List.getElem?_eq_some_iff.1 hi).1, hi]
      rfl
    · rw [hl, List.getElem?_set_ne hj]
  funext d
  simp only [handle, openFile?, ho]
  exact Option.bind_congr fun f _ => hf f

lemma Sound.handle_of_concat (hs : s.Sound) {e : String × Entry} (hl : t.listing = s.listing ++ [e])
    (ho : t.opened = s.opened) : t.handle = s.handle := by
  funext d
  have he : t.openFile? d = s.openFile? d := by simp only [openFile?, ho]
  rw [handle, he, handle]
  refine Option.bind_congr fun f hf => ?_
  obtain ⟨-, n, hn⟩ := hs.fileAt_of_open hf
  have hlt : f.node < s.listing.length := (List.getElem?_eq_some_iff.1 hn.listing).1
  rw [handleOf, hl, List.getElem?_append_left hlt, handleOf]

/-- A changed slot is seen behind its descriptor only. -/
lemma handle_withOpened {o : Slots OpenFile} {v : Option OpenFile} (hd : slotOf? d = some slot)
    (ho : ∀ k, o.get? k = if k = slot then v else s.opened.get? k) :
    (s.withOpened o).handle = Function.update s.handle d (v.bind s.handleOf) := by
  funext c
  have ho' : (s.withOpened o).openFile? c = if c = d then v else s.openFile? c := by
    unfold openFile?
    rw [withOpened_opened]
    split_ifs with hc
    · rw [hc, hd, Option.bind_some, ho, if_pos rfl]
    · cases hk : slotOf? c with
      | none => rfl
      | some k =>
        have hne : k ≠ slot := fun e => hc (by rw [slotOf?_eq_some.1 hk, slotOf?_eq_some.1 hd, e])
        rw [Option.bind_some, ho, if_neg hne, Option.bind_some]
  rw [handle, ho', handleOf_congr (listing_withOpened s o)]
  by_cases hc : c = d
  · rw [if_pos hc, hc, Function.update_self]
  · rw [if_neg hc, Function.update_of_ne hc, handle]

/-! ### Staged paths -/

lemma pathBuffer_le {length : Nat} (h : length ≤ Interface.pathLimit) : pathBuffer + length ≤ heapBase := by
  unfold Interface.pathLimit at h
  unfold pathBuffer heapBase
  omega

lemma scratch_le {length : Nat} (h : length ≤ scratchLimit) : scratch + length ≤ heapBase := by
  unfold scratchLimit at h
  unfold scratch pathBuffer heapBase Interface.pathLimit
  omega

/-- A path that was put into the path buffer is read back. -/
lemma stagedPath_poke (hbase : heapBase ≤ s.memory.size) (hb : bytes.length ≤ Interface.pathLimit) :
    (s.poke pathBuffer bytes).stagedPath bytes.length = .ok (nodePath bytes) := by
  have hin : s.memory.InRange pathBuffer bytes.length := Nat.le_trans (pathBuffer_le hb) hbase
  have hin' : (s.poke pathBuffer bytes).memory.InRange pathBuffer bytes.length := by
    simpa [Memory.InRange] using hin
  have hr : (s.poke pathBuffer bytes).memory.read pathBuffer bytes.length = .ok bytes := by
    rw [Memory.read_of_inRange hin', poke_memory, Memory.span_put_self hin]
  rw [stagedPath, if_neg (by omega), Memory.readText, hr]
  rfl

/-! ### Opening and closing -/

/-- A file as `path_open` makes it. -/
def freshFile (path : String) : Node := ⟨path, .file, heapBase, 0, 0⟩

/-- The store with the file `i` emptied. -/
def emptied (s : FileStore) (i : Nat) (n : Node) : FileStore := s.withNode i { n with size := 0 }

lemma Sound.emptied (hs : s.Sound) (hf : s.FileAt i n) : (s.emptied i n).Sound := by
  obtain ⟨h1, h2, h3⟩ := hs.placed hf
  exact hs.withNode hf hf.2 rfl ⟨Nat.zero_le _, h2, h3⟩ fun hj hb => (hs.apart hj.symm hf hb : n.Apart _)

lemma listing_emptied (hf : s.FileAt i n) : (s.emptied i n).listing = s.listing.set i (n.path, .file []) := by
  rw [emptied, listing_withNode, entry_of_file (n := { n with size := 0 }) hf.2, Memory.span_zero]

lemma Sound.withFreshFile (hs : s.Sound) (h : s.lookup path = none) : (s.withNewNode (freshFile path)).Sound := by
  refine hs.withNewNode (path_notMem_of_lookup_none h) (fun _ => ⟨Nat.le_refl _, Nat.le_refl _, hs.base_le⟩) ?_
  intro _ j b hb
  exact Or.inl (hs.placed hb).base_le

lemma listing_withFreshFile (s : FileStore) (path : String) :
    (s.withNewNode (freshFile path)).listing = s.listing ++ [(path, .file [])] := listing_withNewNode ..

lemma openTarget_of_directory (hd : (s.nodes.map (·.path)).Nodup) (h : s.lookup path = some .directory)
    (flags : Nat) : openTarget path flags s = .ok (.error .invalid) s := by
  obtain ⟨i, n, hi, hn, -, hk⟩ := directory_of_lookup_of_nodup hd h
  simp only [openTarget, Op.get_bind_apply, hi]
  rw [Op.bind_of_ok (nodeAt_of_some hn), if_pos hk]
  rfl

lemma openTarget_of_file (hi : s.indexOf? path = some i) (hf : s.FileAt i n) (flags : Nat) :
    openTarget path flags s =
      .ok (.ok i) (if Interface.hasFlag flags Interface.truncateFlag then s.emptied i n else s) := by
  have hk : n.kind ≠ .directory := by rw [hf.2]; decide
  simp only [openTarget, Op.get_bind_apply, hi]
  rw [Op.bind_of_ok (nodeAt_of_some hf.1), if_neg hk]
  split_ifs <;> rfl

lemma openTarget_of_none (h : s.lookup path = none) (flags : Nat) :
    openTarget path flags s =
      if Interface.hasFlag flags Interface.createFlag then
        .ok (.ok s.nodes.length) (s.withNewNode (freshFile path))
      else .ok (.error .noEntry) s := by
  simp only [openTarget, Op.get_bind_apply, indexOf?_of_lookup_none h]
  split_ifs <;> rfl

/-- The store with the file `i` opened. -/
def withOpenFile (s : FileStore) (i : Nat) : FileStore := s.withOpened (s.opened.insert ⟨i, 0⟩)

lemma openNode_apply (s : FileStore) (i : Nat) :
    openNode i s = .ok (s.opened.nextSlot + firstDescriptor) (s.withOpenFile i) := rfl

lemma Sound.withOpenFile (hs : s.Sound) (hf : s.FileAt i n) : (s.withOpenFile i).Sound := by
  refine hs.withOpened (hs.slots.insert _) fun {slot f} h => ?_
  rw [hs.slots.get?_insert] at h
  split_ifs at h
  · cases h
    exact ⟨(by decide : 0 < Word.count), n, hf⟩
  · exact hs.opened h

lemma slotOf?_nextSlot (s : FileStore) : slotOf? ((s.opened.nextSlot + firstDescriptor : Nat) : Int) =
    some s.opened.nextSlot := slotOf?_eq_some.2 (by simp [firstDescriptor])

/-- A new descriptor stands for no open file. -/
lemma Sound.handle_nextSlot (hs : s.Sound) :
    s.handle ((s.opened.nextSlot + firstDescriptor : Nat) : Int) = none := by
  rw [hs.handle_eq_none, openFile?, slotOf?_nextSlot, Option.bind_some, hs.slots.get?_nextSlot]

lemma Sound.handle_withOpenFile (hs : s.Sound) (hf : s.FileAt i n) :
    (s.withOpenFile i).handle =
      Function.update s.handle ((s.opened.nextSlot + firstDescriptor : Nat) : Int) (some (n.path, 0)) := by
  rw [FileStore.withOpenFile, handle_withOpened (slotOf?_nextSlot s) (hs.slots.get?_insert _)]
  simp [handleOf, hf.listing]

lemma close_of_some (hd : slotOf? d = some slot) (hf : s.opened.get? slot = some f) :
    close d s = .ok .success (s.withOpened (s.opened.erase slot)) := by
  simp [close, hd, hf]
  rfl

lemma close_of_none (h : s.openFile? d = none) : close d s = .ok .badDescriptor s := by
  unfold openFile? at h
  cases hd : slotOf? d with
  | none => simp [close, hd]
  | some slot =>
    rw [hd, Option.bind_some] at h
    simp [close, hd, h]

lemma Sound.withErased (hs : s.Sound) (hf : s.opened.get? slot = some f) :
    (s.withOpened (s.opened.erase slot)).Sound := by
  refine hs.withOpened (hs.slots.erase (by rw [hf]; rfl)) fun {k g} h => ?_
  rw [Slots.get?_erase] at h
  split_ifs at h
  exact hs.opened h

lemma handle_withErased (hd : slotOf? d = some slot) :
    (s.withOpened (s.opened.erase slot)).handle = Function.update s.handle d none :=
  handle_withOpened hd fun k => Slots.get?_erase k

/-! ### Positions -/

/-- The store with the position in a slot moved. -/
def withPosition (s : FileStore) (slot position : Nat) : FileStore :=
  s.withOpened (s.opened.modify slot fun f => { f with position })

lemma setPosition_apply (hd : slotOf? d = some slot) (position : Nat) :
    setPosition d position s = .ok ⟨⟩ (s.withPosition slot position) := by
  simp [setPosition, hd]
  rfl

lemma Sound.withPosition (hs : s.Sound) (hp : position < Word.count) : (s.withPosition slot position).Sound := by
  refine hs.withOpened (hs.slots.modify _ _) fun {k f} h => ?_
  rw [Slots.get?_modify] at h
  split_ifs at h
  · obtain ⟨g, hg, rfl⟩ := Option.map_eq_some_iff.1 h
    exact ⟨hp, (hs.opened hg).2⟩
  · exact hs.opened h

/-- Moving a position is seen behind its descriptor only. -/
lemma handle_withPosition_eq (hd : slotOf? d = some slot) (position : Nat) :
    (s.withPosition slot position).handle =
      Function.update s.handle d ((s.handle d).map fun file => (file.1, position)) := by
  have ho : ∀ k, (s.opened.modify slot fun f => { f with position }).get? k =
      if k = slot then (s.opened.get? slot).map fun f => { f with position } else s.opened.get? k := by
    intro k
    rw [Slots.get?_modify]
    split_ifs with h
    · rw [h]
    · rfl
  rw [withPosition, handle_withOpened hd ho, handle, openFile?, hd, Option.bind_some]
  cases s.opened.get? slot with
  | none => rfl
  | some f => simp [handleOf, Function.comp_def]

lemma handle_withPosition (hd : slotOf? d = some slot) (hf : s.opened.get? slot = some f)
    (hn : s.FileAt f.node n) (position : Nat) :
    (s.withPosition slot position).handle = Function.update s.handle d (some (n.path, position)) := by
  rw [handle_withPosition_eq hd, handle_of_open (openFile?_eq_some.2 ⟨slot, hd, hf⟩) hn.1, Option.map_some]

end FileStore

end ToolchainHost
