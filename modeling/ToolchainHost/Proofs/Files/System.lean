import ToolchainHost.Files.System
import ToolchainHost.Proofs.Files.Nodes
import ToolchainHost.Proofs.Path
import ToolchainHost.Proofs.Text.Utf8

/-!
# The calls of the host

How each call by which the host uses the file system ends, with its answer and with what the file system is then.

* `FileSystem.Keeps`: nothing that users see has changed.
* `FileSystem.AddsFile`, `AddsDirectory`, `Yields`: the ways in which adding a file, adding a directory and reading
  a file end.
-/

namespace ToolchainHost.FileSystem

variable {fs fs' : FileSystem} {path : String} {s : FileStore}

/-- The file system with another store. -/
def withStore (fs : FileSystem) (store : FileStore) : FileSystem := { fs with store }

@[simp] lemma withStore_store (fs : FileSystem) (s : FileStore) : (fs.withStore s).store = s := rfl
lemma withStore_self (fs : FileSystem) : fs.withStore fs.store = fs := rfl

@[simp] lemma withStore_registered (fs : FileSystem) (s : FileStore) :
    (fs.withStore s).registered = fs.registered := rfl

section

variable {α : Type} {x : Op FileStore α} {a : α} {e : Failure} {t : FileStore}

lemma onStore_of_ok (h : x fs.store = .ok a s) : onStore x fs = .ok a (fs.withStore s) := Op.onPart_of_ok h

lemma onStore_of_error (h : x fs.store = .error e s) : onStore x fs = .error e (fs.withStore s) :=
  Op.onPart_of_error h

lemma onStore_withStore_of_ok (h : x t = .ok a s) : onStore x (fs.withStore t) = .ok a (fs.withStore s) :=
  Op.onPart_of_ok (s := fs.withStore t) h

lemma onStore_withStore_of_error (h : x t = .error e s) :
    onStore x (fs.withStore t) = .error e (fs.withStore s) :=
  Op.onPart_of_error (s := fs.withStore t) h

end

/-- The path under which the store keeps what the host calls `path`: it ends at the first NUL. -/
def storedPath (path : String) : String := nodePath (Utf8.encode (Path.normalize path))

lemma storedPath_eq (h : '\x00' ∉ path.toList) : storedPath path = Path.normalize path := by
  rw [storedPath, nodePath, Utf8.textOf_encode (Path.nul_notMem_normalize h), Path.normalize_normalize]

/-- The number of bytes of a path in its normal spelling. -/
def pathLength (path : String) : Nat := (Utf8.encode (Path.normalize path)).length

/-- The refusal of a path that does not fit the path buffer. -/
def tooLong (path : String) : Failure := .pathTooLong (pathLength path) Interface.pathLimit

lemma kindOf_normalize (fs : FileSystem) (path : String) : fs.kindOf (Path.normalize path) = fs.kindOf path := by
  rw [kindOf, Path.normalize_normalize, kindOf]

lemma kindOf_congr (h : fs'.registered = fs.registered) (path : String) : fs'.kindOf path = fs.kindOf path := by
  rw [kindOf, kindOf, h]

/-! ### Staging a path -/

/-- Nothing that users see has changed. -/
structure Keeps (fs fs' : FileSystem) : Prop where
  sound : fs'.store.Sound
  lookup : fs'.store.lookup = fs.store.lookup
  handle : fs'.store.handle = fs.store.handle
  registered : fs'.registered = fs.registered

lemma Keeps.refl (hs : fs.store.Sound) : fs.Keeps fs := ⟨hs, rfl, rfl, rfl⟩

lemma Keeps.trans {fs'' : FileSystem} (h : fs.Keeps fs') (h' : fs'.Keeps fs'') : fs.Keeps fs'' :=
  ⟨h'.sound, h'.lookup.trans h.lookup, h'.handle.trans h.handle, h'.registered.trans h.registered⟩

/-- The file system with a path in the path buffer. -/
def staged (fs : FileSystem) (path : String) : FileSystem :=
  fs.withStore (fs.store.poke FileStore.pathBuffer (Utf8.encode (Path.normalize path)))

lemma staged_store (fs : FileSystem) (path : String) :
    (fs.staged path).store = fs.store.poke FileStore.pathBuffer (Utf8.encode (Path.normalize path)) := rfl

lemma staged_top (fs : FileSystem) (path : String) : (fs.staged path).store.top = fs.store.top := by
  rw [staged_store, FileStore.poke_top]

lemma staged_registered (fs : FileSystem) (path : String) : (fs.staged path).registered = fs.registered := by
  rw [staged, withStore_registered]

lemma stage_of_lt (h : Interface.pathLimit < pathLength path) :
    stage (Path.normalize path) fs = .error (tooLong path) fs := by
  have h' : Interface.pathLimit < (Utf8.encode (Path.normalize path)).length := h
  unfold stage
  dsimp only
  rw [if_pos h']
  rfl

section Staged

variable (hs : fs.store.Sound) (h : pathLength path ≤ Interface.pathLimit)

include hs h

lemma stage_of_le : stage (Path.normalize path) fs = .ok (pathLength path) (fs.staged path) := by
  have h' : ¬ Interface.pathLimit < (Utf8.encode (Path.normalize path)).length := Nat.not_lt.2 h
  have hw := FileStore.write_of_le (hs.le_size (FileStore.pathBuffer_le h))
  unfold stage
  dsimp only
  rw [if_neg h', Op.bind_of_ok (onStore_of_ok hw)]
  rfl

lemma keeps_staged : fs.Keeps (fs.staged path) := by
  have hl := hs.listing_poke_low (FileStore.pathBuffer_le h)
  refine ⟨?_, ?_, ?_, staged_registered ..⟩
  · rw [staged_store]
    exact hs.poke_low (FileStore.pathBuffer_le h)
  · rw [staged_store, FileStore.lookup_congr hl]
  · rw [staged_store, FileStore.handle_congr hl (FileStore.poke_opened ..)]

lemma stagedPath_staged : (fs.staged path).store.stagedPath (pathLength path) = .ok (storedPath path) := by
  rw [staged_store]
  exact FileStore.stagedPath_poke hs.base_le_size h

end Staged

/-! ### Reading -/

section Reading

/-- How reading a file ends. -/
inductive Yields (fs : FileSystem) (path : String) : Except Failure (List UInt8) → FileSystem → Prop
  | registered (h : fs.kindOf path = some .directory) : Yields fs path (.error (.notFound (Path.normalize path))) fs
  | tooLong (h : fs.kindOf path ≠ some .directory) (hl : Interface.pathLimit < pathLength path) :
      Yields fs path (.error (FileSystem.tooLong path)) fs
  | absent (h : fs.kindOf path ≠ some .directory) (hl : pathLength path ≤ Interface.pathLimit)
      (hn : fs.store.lookup (storedPath path) = none) :
      Yields fs path (.error (.notFound (Path.normalize path))) (fs.staged path)
  | directory (number : Nat) (h : fs.kindOf path ≠ some .directory) (hl : pathLength path ≤ Interface.pathLimit)
      (hn : fs.store.lookup (storedPath path) = some .directory) :
      Yields fs path (.error (.notFound s!"inode {number} is a directory")) (fs.staged path)
  | file (bytes : List UInt8) (h : fs.kindOf path ≠ some .directory) (hl : pathLength path ≤ Interface.pathLimit)
      (hn : fs.store.lookup (storedPath path) = some (.file bytes)) :
      Yields fs path (.ok bytes) (fs.staged path)

/-- Reading a file changes nothing that users see. -/
lemma Yields.keeps {r : Except Failure (List UInt8)} (h : fs.Yields path r fs') (hs : fs.store.Sound) :
    fs.Keeps fs' := by
  cases h with
  | registered | tooLong => exact .refl hs
  | absent h hl | directory number h hl | file bytes h hl => exact keeps_staged hs hl

lemma contents_registered (h : fs.kindOf path = some .directory) :
    contents path fs = .error (.notFound (Path.normalize path)) fs := by
  unfold contents
  dsimp only
  rw [Op.get_bind_apply, kindOf_normalize, if_pos h]
  rfl

lemma contents_tooLong (h : fs.kindOf path ≠ some .directory) (hl : Interface.pathLimit < pathLength path) :
    contents path fs = .error (tooLong path) fs := by
  unfold contents
  dsimp only
  rw [Op.get_bind_apply, kindOf_normalize, if_neg h, Op.bind_of_error (stage_of_lt hl)]

lemma contents_staged (hs : fs.store.Sound) (h : fs.kindOf path ≠ some .directory)
    (hl : pathLength path ≤ Interface.pathLimit) :
    contents path fs = (match (fs.staged path).store.indexOf? (storedPath path) with
      | none => throw (.notFound (Path.normalize path))
      | some index => do
        let address ← (fs.staged path).store.fileAddress (index + 1)
        let size ← (fs.staged path).store.fileSize (index + 1)
        (fs.staged path).store.memory.read address size : Op FileSystem (List UInt8)) (fs.staged path) := by
  unfold contents
  dsimp only
  rw [Op.get_bind_apply, kindOf_normalize, if_neg h, Op.bind_of_ok (stage_of_le hs hl), Op.get_bind_apply,
    FileStore.findNode_of_staged (stagedPath_staged hs hl), Op.lift_ok_bind]
  cases (fs.staged path).store.indexOf? (storedPath path) <;> rfl

/-- **Reading a file** ends in one of the five ways, and what it yields are the stored bytes. -/
theorem contents_cases (hs : fs.store.Sound) (path : String) :
    ∃ r fs', Op.attempt (contents path) fs = .ok r fs' ∧ fs.Yields path r fs' := by
  by_cases h : fs.kindOf path = some .directory
  · exact ⟨_, _, Op.attempt_of_error (contents_registered h), .registered h⟩
  by_cases hl : Interface.pathLimit < pathLength path
  · exact ⟨_, _, Op.attempt_of_error (contents_tooLong h hl), .tooLong h hl⟩
  have hl := Nat.not_lt.1 hl
  have hk := keeps_staged hs hl
  cases hn : (fs.staged path).store.lookup (storedPath path) with
  | none =>
    refine ⟨_, _, Op.attempt_of_error ?_, .absent h hl (hk.lookup ▸ hn)⟩
    rw [contents_staged hs h hl, FileStore.indexOf?_of_lookup_none hn]
    rfl
  | some e =>
    cases e with
    | directory =>
      obtain ⟨i, n, hi, hi', -, hd⟩ := hk.sound.directory_of_lookup hn
      refine ⟨_, _, Op.attempt_of_error ?_, .directory (i + 1) h hl (hk.lookup ▸ hn)⟩
      rw [contents_staged hs h hl, hi]
      dsimp only
      rw [FileStore.fileAddress_of_directory hi' hd, Op.lift_error_bind]
    | file bytes =>
      obtain ⟨i, n, hi, hf, -, rfl⟩ := hk.sound.file_of_lookup hn
      obtain ⟨hsize, -, hstop⟩ := hk.sound.placed hf
      have hin : (fs.staged path).store.memory.InRange n.address n.size := by
        have htop := hk.sound.top_le
        unfold Memory.InRange
        omega
      refine ⟨_, _, Op.attempt_of_ok ?_, .file _ h hl (hk.lookup ▸ hn)⟩
      rw [contents_staged hs h hl, hi]
      dsimp only
      rw [FileStore.fileAddress_of_fileAt hf, FileStore.fileSize_of_fileAt hf, Op.lift_ok_bind, Op.lift_ok_bind,
        Memory.read_of_inRange hin, Op.lift_ok]

/-- How asking for a node ends. -/
inductive Finds (fs : FileSystem) (path : String) : Except Failure Bool → FileSystem → Prop
  | registered (h : (fs.kindOf path).isSome) : Finds fs path (.ok true) fs
  | tooLong (h : fs.kindOf path = none) (hl : Interface.pathLimit < pathLength path) :
      Finds fs path (.error (FileSystem.tooLong path)) fs
  | asked (h : fs.kindOf path = none) (hl : pathLength path ≤ Interface.pathLimit) :
      Finds fs path (.ok (fs.store.lookup (storedPath path)).isSome) (fs.staged path)

theorem fileExists_cases (hs : fs.store.Sound) (path : String) :
    ∃ r fs', Op.attempt (fileExists path) fs = .ok r fs' ∧ fs.Finds path r fs' := by
  by_cases h : (fs.kindOf path).isSome
  · refine ⟨_, _, Op.attempt_of_ok ?_, .registered h⟩
    unfold fileExists
    rw [Op.get_bind_apply, kindOf_normalize, if_pos h, Op.pure_apply]
  have hn : fs.kindOf path = none := Option.not_isSome_iff_eq_none.1 h
  have hx : fileExists path fs = (do
      let length ← stage (Path.normalize path)
      return (← (← get).store.findNode length).isSome : Op FileSystem Bool) fs := by
    unfold fileExists
    rw [Op.get_bind_apply, kindOf_normalize, if_neg h]
  by_cases hl : Interface.pathLimit < pathLength path
  · exact ⟨_, _, Op.attempt_of_error (by rw [hx, Op.bind_of_error (stage_of_lt hl)]), .tooLong hn hl⟩
  have hl := Nat.not_lt.1 hl
  have hk := keeps_staged hs hl
  refine ⟨_, _, Op.attempt_of_ok ?_, .asked hn hl⟩
  rw [hx, Op.bind_of_ok (stage_of_le hs hl), Op.get_bind_apply,
    FileStore.findNode_of_staged (stagedPath_staged hs hl), Op.lift_ok_bind, Op.pure_apply, ← hk.lookup,
    Option.isSome_map, hk.sound.isSome_indexOf?]

/-- Asking for a node changes nothing that users see. -/
lemma Finds.keeps {r : Except Failure Bool} (h : fs.Finds path r fs') (hs : fs.store.Sound) : fs.Keeps fs' := by
  cases h with
  | registered | tooLong => exact .refl hs
  | asked h hl => exact keeps_staged hs hl

lemma keeps_contents (hs : fs.store.Sound) (path : String) : fs.Keeps (Op.after (contents path) fs) := by
  obtain ⟨r, fs', hx, hy⟩ := contents_cases hs path
  rw [← Op.after_attempt, Op.after_of_ok hx]
  exact hy.keeps hs

lemma keeps_fileExists (hs : fs.store.Sound) (path : String) : fs.Keeps (Op.after (fileExists path) fs) := by
  obtain ⟨r, fs', hx, hf⟩ := fileExists_cases hs path
  rw [← Op.after_attempt, Op.after_of_ok hx]
  exact hf.keeps hs

end Reading

/-! ### Adding directories -/

/-- The file system `fs'` is `fs` with an entry under a path, which the host has registered. -/
structure Gains (fs : FileSystem) (path : String) (e : Entry) (fs' : FileSystem) : Prop where
  sound : fs'.store.Sound
  lookup : fs'.store.lookup = Function.update fs.store.lookup (storedPath path) (some e)
  handle : fs'.store.handle = fs.store.handle
  registered : fs'.registered = insertSorted (Path.normalize path) e.kind fs.registered

/-- The file system with a node registered. -/
def withRegistered (fs : FileSystem) (path : String) (kind : NodeKind) : FileSystem :=
  { fs with registered := insertSorted path kind fs.registered }

@[simp] lemma withRegistered_store (fs : FileSystem) (path : String) (kind : NodeKind) :
    (fs.withRegistered path kind).store = fs.store := rfl
@[simp] lemma withRegistered_registered (fs : FileSystem) (path : String) (kind : NodeKind) :
    (fs.withRegistered path kind).registered = insertSorted path kind fs.registered := rfl

lemma register_apply (fs : FileSystem) (path : String) (kind : NodeKind) :
    register path kind fs = .ok ⟨⟩ (fs.withRegistered path kind) := rfl

lemma gains_of_store {e : Entry} (hr : fs'.registered = fs.registered) (hs : s.Sound)
    (hl : s.lookup = Function.update fs.store.lookup (storedPath path) (some e))
    (hh : s.handle = fs.store.handle) :
    fs.Gains path e ((fs'.withStore s).withRegistered (Path.normalize path) e.kind) where
  sound := by simpa using hs
  lookup := by simpa using hl
  handle := by simpa using hh
  registered := by simp [hr]

/-- How adding a directory ends. -/
inductive AddsDirectory (fs : FileSystem) (path : String) : Except Failure Unit → FileSystem → Prop
  | kept (h : fs.kindOf path = some .directory) : AddsDirectory fs path (.ok ()) fs
  | registered (h : fs.kindOf path = some .file) :
      AddsDirectory fs path (.error (.pathConflict (Path.normalize path) .file)) fs
  | tooLong (h : fs.kindOf path = none) (hl : Interface.pathLimit < pathLength path) :
      AddsDirectory fs path (.error (FileSystem.tooLong path)) fs
  | file (bytes : List UInt8) (h : fs.kindOf path = none) (hl : pathLength path ≤ Interface.pathLimit)
      (hn : fs.store.lookup (storedPath path) = some (.file bytes)) :
      AddsDirectory fs path (.error (.pathConflict (storedPath path) .file)) (fs.staged path)
  | added {fs' : FileSystem} (h : fs.kindOf path = none) (hl : pathLength path ≤ Interface.pathLimit)
      (hn : ∀ bytes, fs.store.lookup (storedPath path) ≠ some (.file bytes))
      (hg : fs.Gains path .directory fs') : AddsDirectory fs path (.ok ()) fs'

lemma addDirectory_kept (h : fs.kindOf path = some .directory) : addDirectory path fs = .ok () fs := by
  unfold addDirectory
  rw [Op.get_bind_apply, kindOf_normalize, h]
  rfl

lemma addDirectory_registered (h : fs.kindOf path = some .file) :
    addDirectory path fs = .error (.pathConflict (Path.normalize path) .file) fs := by
  unfold addDirectory
  rw [Op.get_bind_apply, kindOf_normalize, h]
  rfl

lemma addDirectory_unregistered (h : fs.kindOf path = none) :
    addDirectory path fs = (do
      let length ← stage (Path.normalize path)
      let _ ← onStore (FileStore.addDirectoryNode length)
      register (Path.normalize path) .directory : Op FileSystem Unit) fs := by
  unfold addDirectory
  rw [Op.get_bind_apply, kindOf_normalize, h]

/-- **Adding a directory** ends in one of the five ways. -/
theorem addDirectory_cases (hs : fs.store.Sound) (path : String) :
    ∃ r fs', Op.attempt (addDirectory path) fs = .ok r fs' ∧ fs.AddsDirectory path r fs' := by
  cases h : fs.kindOf path with
  | some k =>
    cases k with
    | directory => exact ⟨_, _, Op.attempt_of_ok (addDirectory_kept h), .kept h⟩
    | file => exact ⟨_, _, Op.attempt_of_error (addDirectory_registered h), .registered h⟩
  | none =>
    by_cases hl : Interface.pathLimit < pathLength path
    · refine ⟨_, _, Op.attempt_of_error ?_, .tooLong h hl⟩
      rw [addDirectory_unregistered h, Op.bind_of_error (stage_of_lt hl)]
    have hl := Nat.not_lt.1 hl
    have hk := keeps_staged hs hl
    have hp := stagedPath_staged hs hl
    cases hn : (fs.staged path).store.lookup (storedPath path) with
    | some e =>
      cases e with
      | file bytes =>
        refine ⟨_, _, Op.attempt_of_error ?_, .file bytes h hl (hk.lookup ▸ hn)⟩
        rw [addDirectory_unregistered h, Op.bind_of_ok (stage_of_le hs hl),
          Op.bind_of_error (onStore_of_error (FileStore.addDirectoryNode_of_file hk.sound hp hn)), withStore_self]
      | directory =>
        obtain ⟨number, hd⟩ := FileStore.addDirectoryNode_of_directory hk.sound hp hn
        have hl' : fs.store.lookup (storedPath path) = some .directory := hk.lookup ▸ hn
        refine ⟨_, _, Op.attempt_of_ok ?_, .added h hl (fun bytes e => by rw [hl'] at e; cases e)
          (gains_of_store hk.registered hk.sound ?_ hk.handle)⟩
        · rw [addDirectory_unregistered h, Op.bind_of_ok (stage_of_le hs hl), Op.bind_of_ok (onStore_of_ok hd)]
          exact register_apply ..
        · exact hk.lookup.trans (Function.update_eq_self_iff.2 hl'.symm).symm
    | none =>
      have hd := FileStore.addDirectoryNode_of_none hp hn
      have hc := FileStore.listing_withFreshDirectory (fs.staged path).store (storedPath path)
      have hh := hk.sound.handle_of_concat hc (FileStore.withNewNode_opened ..)
      refine ⟨_, _, Op.attempt_of_ok ?_, .added h hl (fun bytes e => by rw [← hk.lookup, hn] at e; cases e)
        (gains_of_store hk.registered (hk.sound.withFreshDirectory hn) ?_ (hh.trans hk.handle))⟩
      · rw [addDirectory_unregistered h, Op.bind_of_ok (stage_of_le hs hl), Op.bind_of_ok (onStore_of_ok hd)]
        exact register_apply ..
      · rw [FileStore.lookup_of_concat hn hc, hk.lookup]

/-- Adding a directory hands out no place. -/
lemma addDirectory_top (hs : fs.store.Sound) (h : addDirectory path fs = .ok ⟨⟩ fs') :
    fs'.store.top = fs.store.top := by
  obtain ⟨r, fs'', hx, hadd⟩ := addDirectory_cases hs path
  obtain ⟨rfl, rfl⟩ := EStateM.Result.ok.inj (hx.symm.trans (Op.attempt_of_ok h))
  cases hadd with
  | kept => rfl
  | added hk hl hn =>
    have hkeeps := keeps_staged hs hl
    have hp := stagedPath_staged hs hl
    rw [addDirectory_unregistered hk, Op.bind_of_ok (stage_of_le hs hl)] at h
    have hnode : ∃ number t,
        FileStore.addDirectoryNode (pathLength path) (fs.staged path).store = .ok number t ∧
          t.top = fs.store.top := by
      cases he : (fs.staged path).store.lookup (storedPath path) with
      | none =>
        refine ⟨_, _, FileStore.addDirectoryNode_of_none hp he, ?_⟩
        rw [FileStore.withNewNode_top, staged_top]
      | some e =>
        cases e with
        | file bytes => exact absurd (hkeeps.lookup ▸ he) (hn bytes)
        | directory =>
          obtain ⟨number, hd⟩ := FileStore.addDirectoryNode_of_directory hkeeps.sound hp he
          exact ⟨number, _, hd, staged_top fs path⟩
    obtain ⟨number, t, hd, htop⟩ := hnode
    rw [Op.bind_of_ok (onStore_of_ok hd), register_apply] at h
    cases h
    exact htop

/-! ### Adding files -/

/-- How adding a file ends. A length is a word to the store, so contents of 2³² bytes and more are cut: there is a
file then, but nothing was put into it. -/
inductive AddsFile (fs : FileSystem) (path : String) (contents : List UInt8) :
    Except Failure Unit → FileSystem → Prop
  | registered (h : fs.kindOf path = some .directory) :
      AddsFile fs path contents (.error (.pathConflict (Path.normalize path) .directory)) fs
  | tooLong (h : fs.kindOf path ≠ some .directory) (hl : Interface.pathLimit < pathLength path) :
      AddsFile fs path contents (.error (FileSystem.tooLong path)) fs
  | directory (h : fs.kindOf path ≠ some .directory) (hl : pathLength path ≤ Interface.pathLimit)
      (hn : fs.store.lookup (storedPath path) = some .directory) :
      AddsFile fs path contents (.error (.pathConflict (storedPath path) .directory)) (fs.staged path)
  | full (h : fs.kindOf path ≠ some .directory) (hl : pathLength path ≤ Interface.pathLimit)
      (hn : fs.store.lookup (storedPath path) ≠ some .directory)
      (hr : ¬ fs.store.Room (contents.length % Word.count)) :
      AddsFile fs path contents (.error (fs.store.denial (contents.length % Word.count))) (fs.staged path)
  | cut {fs' : FileSystem} (address size : Nat) (h : fs.kindOf path ≠ some .directory)
      (hl : pathLength path ≤ Interface.pathLimit)
      (hn : fs.store.lookup (storedPath path) ≠ some .directory) (hc : Word.count ≤ contents.length)
      (hs : fs'.store.Sound)
      (hf : fs'.store.lookup = Function.update fs.store.lookup (storedPath path)
        (some (.file (fs.store.recycled (storedPath path) (contents.length % Word.count)))))
      (hh : fs'.store.handle = fs.store.handle) (hr : fs'.registered = fs.registered) :
      AddsFile fs path contents (.error (.outOfBounds address contents.length size)) fs'
  | added {fs' : FileSystem} (h : fs.kindOf path ≠ some .directory) (hl : pathLength path ≤ Interface.pathLimit)
      (hn : fs.store.lookup (storedPath path) ≠ some .directory) (hc : contents.length < Word.count)
      (hg : fs.Gains path (.file contents) fs') : AddsFile fs path contents (.ok ()) fs'

section AddFile

variable {contents : List UInt8}

lemma addFile_registered (h : fs.kindOf path = some .directory) :
    addFile path contents fs = .error (.pathConflict (Path.normalize path) .directory) fs := by
  unfold addFile
  dsimp only
  rw [Op.get_bind_apply, kindOf_normalize, if_pos h]
  rfl

lemma addFile_of_not (h : fs.kindOf path ≠ some .directory) :
    addFile path contents fs = (do
      let length ← stage (Path.normalize path)
      let number ← onStore (FileStore.addFileNode length (contents.length % Word.count))
      let address ← (← get).store.fileAddress number
      onStore (FileStore.write address contents)
      register (Path.normalize path) .file : Op FileSystem Unit) fs := by
  unfold addFile
  dsimp only
  rw [Op.get_bind_apply, kindOf_normalize, if_neg h]

/-- A file that got its place is filled there. -/
lemma addFile_of_node {i : Nat} {n : Node} {t : FileStore} (hs : fs.store.Sound)
    (h : fs.kindOf path ≠ some .directory) (hl : pathLength path ≤ Interface.pathLimit)
    (hx : FileStore.addFileNode (pathLength path) (contents.length % Word.count) (fs.staged path).store =
      .ok (i + 1) t) (hf : t.FileAt i n) :
    addFile path contents fs = (do
      onStore (FileStore.write n.address contents)
      register (Path.normalize path) .file : Op FileSystem Unit) ((fs.staged path).withStore t) := by
  rw [addFile_of_not h, Op.bind_of_ok (stage_of_le hs hl), Op.bind_of_ok (onStore_of_ok hx),
    Op.get_bind_apply, withStore_store, FileStore.fileAddress_of_fileAt hf, Op.lift_ok_bind]

/-- **Adding a file** ends in one of the six ways. -/
theorem addFile_cases (hs : fs.store.Sound) (path : String) (contents : List UInt8) :
    ∃ r fs', Op.attempt (addFile path contents) fs = .ok r fs' ∧ fs.AddsFile path contents r fs' := by
  by_cases h : fs.kindOf path = some .directory
  · exact ⟨_, _, Op.attempt_of_error (addFile_registered h), .registered h⟩
  by_cases hl : Interface.pathLimit < pathLength path
  · refine ⟨_, _, Op.attempt_of_error ?_, .tooLong h hl⟩
    rw [addFile_of_not h, Op.bind_of_error (stage_of_lt hl)]
  have hl := Nat.not_lt.1 hl
  have hk := keeps_staged hs hl
  have hp := stagedPath_staged hs hl
  by_cases hd : fs.store.lookup (storedPath path) = some .directory
  · have hx := FileStore.addFileNode_of_directory hk.sound hp (by rw [hk.lookup, hd])
      (contents.length % Word.count)
    refine ⟨_, _, Op.attempt_of_error ?_, .directory h hl hd⟩
    rw [addFile_of_not h, Op.bind_of_ok (stage_of_le hs hl), Op.bind_of_error (onStore_of_error hx), withStore_self]
  have hd' : (fs.staged path).store.lookup (storedPath path) ≠ some .directory := by rwa [hk.lookup]
  rcases FileStore.addFileNode_cases hk.sound hp hd' (contents.length % Word.count) with
    ⟨i, n, t, hx, hprep⟩ | ⟨hr, hx⟩
  · have hrun := addFile_of_node hs h hl hx hprep.fileAt
    obtain ⟨hsize, hbase, hstop⟩ := hprep.sound.placed hprep.fileAt
    have htop := hprep.sound.top_le
    have hn := hprep.size_eq
    by_cases hc : contents.length < Word.count
    · rw [Nat.mod_eq_of_lt hc] at hprep hn
      obtain ⟨h1, h2, h3⟩ := hprep.filled
      have hw : FileStore.write n.address contents t = .ok ⟨⟩ (t.poke n.address contents) :=
        FileStore.write_of_le (by omega)
      refine ⟨_, _, Op.attempt_of_ok ?_, .added h hl hd hc
        (gains_of_store hk.registered h1 (by rw [h2, hk.lookup]) (h3.trans hk.handle))⟩
      rw [hrun, Op.bind_of_ok (onStore_withStore_of_ok hw)]
      exact register_apply ..
    · have hlt : t.memory.size < n.address + contents.length := by
        have := hprep.sound.size_le
        unfold FileStore.heapBase at hbase
        omega
      have hw := FileStore.write_of_lt hlt
      refine ⟨_, (fs.staged path).withStore t, Op.attempt_of_error ?_,
        .cut n.address t.memory.size h hl hd (Nat.not_lt.1 hc) ?_ ?_ ?_ ?_⟩
      · rw [hrun, Op.bind_of_error (onStore_withStore_of_error hw)]
        rfl
      · rw [withStore_store]
        exact hprep.sound
      · rw [withStore_store, hprep.lookup, hk.lookup, staged_store,
          hs.recycled_poke_low (FileStore.pathBuffer_le hl) hd]
      · rw [withStore_store, hprep.handle, hk.handle]
      · rw [withStore_registered, hk.registered]
  · rw [FileStore.room_congr (staged_top fs path)] at hr
    rw [FileStore.denial_congr (staged_top fs path)] at hx
    refine ⟨_, _, Op.attempt_of_error ?_, .full h hl hd hr⟩
    rw [addFile_of_not h, Op.bind_of_ok (stage_of_le hs hl), Op.bind_of_error (onStore_of_error hx), withStore_self]

/-- A file is refused for want of room only where the heap has none. -/
lemma not_room_of_aborted (hs : fs.store.Sound) {reason : String}
    (hx : Op.attempt (addFile path contents) fs = .ok (.error (.aborted reason)) fs') :
    ¬ fs.store.Room (contents.length % Word.count) := by
  obtain ⟨r, fs'', hx', hadd⟩ := addFile_cases hs path contents
  obtain ⟨hr, -⟩ := EStateM.Result.ok.inj (hx'.symm.trans hx)
  cases hadd with
  | full h hl hn hroom => exact hroom
  | registered | tooLong | directory | cut | added => cases hr

/-- A file is added where there is room for it and no directory. -/
lemma exists_gains_addFile (fs : FileSystem) (path : String) (contents : List UInt8) (hs : fs.store.Sound)
    (hk : fs.kindOf path ≠ some .directory) (hl : pathLength path ≤ Interface.pathLimit)
    (hn : fs.store.lookup (storedPath path) ≠ some .directory) (hc : contents.length < Word.count)
    (hr : fs.store.Room contents.length) :
    ∃ fs', addFile path contents fs = .ok ⟨⟩ fs' ∧ fs.Gains path (.file contents) fs' := by
  obtain ⟨r, fs', hx, hadd⟩ := addFile_cases hs path contents
  cases hadd with
  | registered h => exact absurd h hk
  | tooLong _ h => exact absurd hl (Nat.not_le.2 h)
  | directory _ _ h => exact absurd h hn
  | full _ _ _ h => exact absurd (by rwa [Nat.mod_eq_of_lt hc]) h
  | cut _ _ _ _ _ h => exact absurd hc (Nat.not_lt.2 h)
  | added _ _ _ _ hg => exact ⟨fs', Op.eq_ok_of_attempt hx, hg⟩

/-- Adding a file hands out one place at most. -/
lemma addFile_top (hs : fs.store.Sound) (h : addFile path contents fs = .ok ⟨⟩ fs') :
    fs'.store.top = fs.store.top ∨ fs'.store.top = fs.store.aligned + contents.length % Word.count := by
  by_cases hk : fs.kindOf path = some .directory
  · rw [addFile_registered hk] at h
    cases h
  by_cases hl : Interface.pathLimit < pathLength path
  · rw [addFile_of_not hk, Op.bind_of_error (stage_of_lt hl)] at h
    cases h
  rw [addFile_of_not hk, Op.bind_of_ok (stage_of_le hs (Nat.not_lt.1 hl))] at h
  cases hx : FileStore.addFileNode (pathLength path) (contents.length % Word.count) (fs.staged path).store with
  | error e t =>
    rw [Op.bind_of_error (onStore_of_error hx)] at h
    cases h
  | ok number t =>
    rw [Op.bind_of_ok (onStore_of_ok hx), Op.get_bind_apply] at h
    obtain ⟨address, u, ha, hfill⟩ := Op.bind_eq_ok.1 h
    obtain ⟨-, rfl⟩ := Op.lift_eq_ok.1 ha
    by_cases hw : address + contents.length ≤ t.memory.size
    · rw [Op.bind_of_ok (onStore_withStore_of_ok (FileStore.write_of_le hw)), register_apply] at hfill
      cases hfill
      rcases FileStore.addFileNode_heap hx with ⟨-, htop⟩ | ⟨-, htop⟩
      · exact Or.inl (htop.trans (staged_top fs path))
      · refine Or.inr (htop.trans ?_)
        rw [FileStore.grown_top, FileStore.aligned, staged_top, FileStore.aligned]
    · rw [Op.bind_of_error (onStore_withStore_of_error (FileStore.write_of_lt (Nat.not_le.1 hw)))] at hfill
      cases hfill

end AddFile

end ToolchainHost.FileSystem
