import ToolchainHost.Proofs.Files.System

/-!
# Calls that fail again

A call of the host that adds a node may leave traces where it fails: its path stays in the path buffer, and a file
may have got its place. None of them matters to the same call, which fails again in the same way.

* `FileSystem.Stages`: a path is in the path buffer, so that putting it there changes nothing.
* `FileSystem.addDirectory_again`, `addFile_again`: a call that failed, made again, fails with the same failure and
  changes nothing at all.
-/

namespace ToolchainHost

namespace FileStore

variable {s t : FileStore} {i length size : Nat} {n : Node} {path : String}

/-- A file that has just been made is made again without a change. -/
lemma Prepared.again (h : s.Prepared path size i n t) (hp : t.stagedPath length = .ok path) :
    addFileNode length size t = .ok (i + 1) t := by
  have hk : ¬ n.kind = .directory := by rw [h.fileAt.2]; decide
  have hc : size ≤ n.capacity := h.size_eq ▸ (h.sound.placed h.fileAt).size_le
  have hi : t.indexOf? path = some i := h.path_eq ▸ h.sound.indexOf?_path h.fileAt.1
  have hsame : { n with size } = n := by rw [← h.size_eq]
  have hset : setNode i n t = .ok ⟨⟩ t := by
    obtain ⟨hlt, hget⟩ := List.getElem?_eq_some_iff.1 h.fileAt.1
    rw [setNode_apply, withNode, ← hget, List.set_getElem_self]
  simp only [addFileNode, Op.get_bind_apply, hp, Op.lift_ok_bind, hi]
  rw [Op.bind_of_ok (nodeAt_of_some h.fileAt.1), if_neg hk, if_pos hc, hsame, Op.bind_of_ok hset]
  rfl

end FileStore

namespace FileSystem

variable {fs fs' : FileSystem} {path : String} {contents : List UInt8} {e : Failure} {t : FileStore}

lemma withStore_withStore (fs : FileSystem) (s t : FileStore) : (fs.withStore s).withStore t = fs.withStore t := rfl

/-- A path is in the path buffer. -/
def Stages (fs : FileSystem) (path : String) : Prop :=
  fs.store.memory.span FileStore.pathBuffer (pathLength path) = Utf8.encode (Path.normalize path)

lemma Stages.staged_eq (h : fs.Stages path) : fs.staged path = fs := by
  rw [staged, FileStore.poke, ← h, Memory.put_span]
  rfl

lemma stages_staged (hs : fs.store.Sound) (hl : pathLength path ≤ Interface.pathLimit) :
    (fs.staged path).Stages path := by
  have hin : fs.store.memory.InRange FileStore.pathBuffer (Utf8.encode (Path.normalize path)).length :=
    hs.le_size (FileStore.pathBuffer_le hl)
  rw [Stages, staged_store, FileStore.poke, pathLength, Memory.span_put_self hin]

/-- Making a file leaves the path buffer as it is. -/
lemma Stages.addFileNode {number length size : Nat} (h : fs.Stages path)
    (hx : FileStore.addFileNode length size fs.store = .ok number t) : (fs.withStore t).Stages path := by
  rw [Stages, withStore_store, ← h]
  rcases FileStore.addFileNode_heap hx with ⟨hm, -⟩ | ⟨hm, -⟩
  · rw [hm]
  · rw [hm, FileStore.grown_span]

section Staged

variable (hs : fs.store.Sound) (hl : pathLength path ≤ Interface.pathLimit)

include hs hl

lemma stage_staged : stage (Path.normalize path) (fs.staged path) = stage (Path.normalize path) fs := by
  rw [stage_of_le hs hl, stage_of_le (keeps_staged hs hl).sound hl, (stages_staged hs hl).staged_eq]

lemma addDirectory_staged (h : fs.kindOf path = none) : addDirectory path (fs.staged path) = addDirectory path fs := by
  have h' : (fs.staged path).kindOf path = none := (kindOf_congr (staged_registered ..) path).trans h
  rw [addDirectory_unregistered h, addDirectory_unregistered h', Op.bind_apply, Op.bind_apply, stage_staged hs hl]

lemma addFile_staged (h : fs.kindOf path ≠ some .directory) (contents : List UInt8) :
    addFile path contents (fs.staged path) = addFile path contents fs := by
  have h' : (fs.staged path).kindOf path ≠ some .directory := by rwa [kindOf_congr (staged_registered ..)]
  rw [addFile_of_not h, addFile_of_not h', Op.bind_apply, Op.bind_apply, stage_staged hs hl]

end Staged

/-- **Adding a directory** fails again in the same way. -/
theorem addDirectory_again (hs : fs.store.Sound) (h : addDirectory path fs = .error e fs') :
    addDirectory path fs' = .error e fs' := by
  obtain ⟨r, fs'', hx, hadd⟩ := addDirectory_cases hs path
  obtain ⟨rfl, rfl⟩ := EStateM.Result.ok.inj (hx.symm.trans (Op.attempt_of_error h))
  cases hadd with
  | registered | tooLong => exact h
  | file bytes hk hl hn => rw [addDirectory_staged hs hl hk, h]

/-- A file that got its place gets it again. -/
lemma addFile_placed {i : Nat} {n : Node} (hs : fs.store.Sound) (h : fs.kindOf path ≠ some .directory)
    (hl : pathLength path ≤ Interface.pathLimit)
    (hx : FileStore.addFileNode (pathLength path) (contents.length % Word.count) (fs.staged path).store =
      .ok (i + 1) t)
    (hprep : (fs.staged path).store.Prepared (storedPath path) (contents.length % Word.count) i n t) :
    addFile path contents ((fs.staged path).withStore t) = addFile path contents fs := by
  have hst : ((fs.staged path).withStore t).staged path = (fs.staged path).withStore t :=
    ((stages_staged hs hl).addFileNode hx).staged_eq
  have h' : ((fs.staged path).withStore t).kindOf path ≠ some .directory := by
    rwa [kindOf_congr ((withStore_registered ..).trans (staged_registered fs path))]
  have hpath : t.stagedPath (pathLength path) = .ok (storedPath path) := by
    have hp : (((fs.staged path).withStore t).staged path).store.stagedPath (pathLength path) = _ :=
      stagedPath_staged hprep.sound hl
    rwa [hst, withStore_store] at hp
  have hx' : FileStore.addFileNode (pathLength path) (contents.length % Word.count)
      (((fs.staged path).withStore t).staged path).store = .ok (i + 1) t := by
    rw [hst]
    exact hprep.again hpath
  rw [addFile_of_node hs h hl hx hprep.fileAt, addFile_of_node hprep.sound h' hl hx' hprep.fileAt, hst,
    withStore_withStore]

/-- **Adding a file** fails again in the same way. -/
theorem addFile_again (hs : fs.store.Sound) (h : addFile path contents fs = .error e fs') :
    addFile path contents fs' = .error e fs' := by
  obtain ⟨r, fs'', hx, hadd⟩ := addFile_cases hs path contents
  obtain ⟨rfl, rfl⟩ := EStateM.Result.ok.inj (hx.symm.trans (Op.attempt_of_error h))
  cases hadd with
  | registered | tooLong => exact h
  | directory hk hl hn => rw [addFile_staged hs hl hk, h]
  | full hk hl hn hr => rw [addFile_staged hs hl hk, h]
  | cut address size hk hl hn hc =>
    have hd : (fs.staged path).store.lookup (storedPath path) ≠ some .directory := by
      rwa [(keeps_staged hs hl).lookup]
    rcases FileStore.addFileNode_cases (keeps_staged hs hl).sound (stagedPath_staged hs hl) hd
        (contents.length % Word.count) with ⟨i, n, t, hnode, hprep⟩ | ⟨-, hnode⟩
    · -- the contents do not fit the memory, so that only their place is left behind
      have hlt : t.memory.size < n.address + contents.length := by
        have hsize := hprep.sound.size_le
        have hbase := (hprep.sound.placed hprep.fileAt).base_le
        unfold FileStore.heapBase at hbase
        omega
      have hrun := addFile_of_node hs hk hl hnode hprep.fileAt
      rw [Op.bind_of_error (onStore_withStore_of_error (FileStore.write_of_lt hlt))] at hrun
      obtain ⟨-, rfl⟩ := EStateM.Result.error.inj (hrun.symm.trans h)
      exact (addFile_placed hs hk hl hnode hprep).trans h
    · have hrun : addFile path contents fs = _ := addFile_of_not hk
      rw [Op.bind_of_ok (stage_of_le hs hl), Op.bind_of_error (onStore_of_error hnode), withStore_self] at hrun
      obtain ⟨-, rfl⟩ := EStateM.Result.error.inj (hrun.symm.trans h)
      rw [addFile_staged hs hl hk, h]

end FileSystem

end ToolchainHost
