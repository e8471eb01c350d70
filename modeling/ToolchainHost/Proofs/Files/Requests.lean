import ToolchainHost.Proofs.Files.Catalog

/-!
# What requests leave alone

Whatever the host asks of the file system, in whatever spelling, and also where it fails:

* `FileSystem.sound_answer`: the store stays sound.
* `FileSystem.keepsOpen_answer`: no file is opened or closed, and no position moves.
-/

namespace ToolchainHost

/-! ### Open files -/

namespace FileStore

/-- No file is opened or closed, and no position moves. -/
def KeepsOpen (s t : FileStore) : Prop := t.opened = s.opened

instance : IsPreorder FileStore KeepsOpen where
  refl _ := rfl
  trans _ _ _ h1 h2 := Eq.trans h2 h1

lemma keepsOpen_write (address : Nat) (data : List UInt8) : Op.Within KeepsOpen (write address data) := by
  intro s
  by_cases h : address + data.length ≤ s.memory.size
  · rw [Op.after_of_ok (write_of_le h)]
    exact poke_opened ..
  · rw [Op.after_of_error (write_of_lt (Nat.not_le.1 h))]
    exact refl_of KeepsOpen s

lemma keepsOpen_allocate (size : Nat) : Op.Within KeepsOpen (allocate size) := by
  intro s
  by_cases h : s.Room size
  · rw [Op.after_of_ok (allocate_of_room h)]
    exact grown_opened ..
  · rw [Op.after_of_error (allocate_of_not_room h)]
    exact refl_of KeepsOpen s

lemma keepsOpen_nodeAt (index : Nat) : Op.Within KeepsOpen (nodeAt index) := by
  refine Op.within_get.bind fun s => ?_
  split
  · exact Op.within_pure _
  · exact Op.within_throw _

lemma keepsOpen_setNode (index : Nat) (n : Node) : Op.Within KeepsOpen (setNode index n) :=
  Op.within_modify fun _ => rfl

lemma keepsOpen_insertNode (n : Node) : Op.Within KeepsOpen (insertNode n) := fun _ => rfl

lemma keepsOpen_addDirectoryNode (length : Nat) : Op.Within KeepsOpen (addDirectoryNode length) := by
  refine Op.within_get.bind fun s => (Op.within_lift _).bind fun path => ?_
  split
  · refine (keepsOpen_nodeAt _).bind fun n => ?_
    exact Op.Within.ite (Op.within_throw_bind _ _) (Op.within_pure _)
  · exact keepsOpen_insertNode _

lemma keepsOpen_addFileNode (length size : Nat) : Op.Within KeepsOpen (addFileNode length size) := by
  refine Op.within_get.bind fun s => (Op.within_lift _).bind fun path => ?_
  split
  · refine (keepsOpen_nodeAt _).bind fun n => Op.Within.ite (Op.within_throw_bind _ _) (Op.Within.ite ?_ ?_)
    · exact (keepsOpen_setNode _ _).bind fun _ => Op.within_pure _
    · exact (keepsOpen_allocate _).bind fun _ => (keepsOpen_setNode _ _).bind fun _ => Op.within_pure _
  · exact (keepsOpen_allocate _).bind fun _ => keepsOpen_insertNode _

end FileStore

namespace FileSystem

/-- No file is opened or closed, and no position moves. -/
def KeepsOpen (fs fs' : FileSystem) : Prop := fs.store.KeepsOpen fs'.store

instance : IsPreorder FileSystem KeepsOpen where
  refl fs := refl_of FileStore.KeepsOpen fs.store
  trans _ _ _ := trans_of FileStore.KeepsOpen

lemma keepsOpen_onStore {α : Type} {x : Op FileStore α} (hx : Op.Within FileStore.KeepsOpen x) :
    Op.Within KeepsOpen (onStore x) := Op.within_onPart fun fs => hx fs.store

lemma keepsOpen_stage (path : String) : Op.Within KeepsOpen (stage path) :=
  Op.Within.ite (Op.within_throw_bind _ _)
    ((keepsOpen_onStore (FileStore.keepsOpen_write _ _)).bind fun _ => Op.within_pure _)

lemma keepsOpen_register (path : String) (kind : NodeKind) : Op.Within KeepsOpen (register path kind) :=
  Op.within_modify fun _ => rfl

lemma keepsOpen_addFile (path : String) (contents : List UInt8) : Op.Within KeepsOpen (addFile path contents) :=
  Op.within_get.bind fun _ => Op.Within.ite (Op.within_throw_bind _ _) <|
    (keepsOpen_stage _).bind fun _ => (keepsOpen_onStore (FileStore.keepsOpen_addFileNode _ _)).bind fun _ =>
      Op.within_get.bind fun _ => (Op.within_lift _).bind fun _ =>
        (keepsOpen_onStore (FileStore.keepsOpen_write _ _)).bind fun _ => keepsOpen_register _ _

lemma keepsOpen_addDirectory (path : String) : Op.Within KeepsOpen (addDirectory path) := by
  refine Op.within_get.bind fun fs => ?_
  split
  · exact Op.within_pure _
  · exact Op.within_throw _
  · exact (keepsOpen_stage _).bind fun _ => (keepsOpen_onStore (FileStore.keepsOpen_addDirectoryNode _)).bind fun _ =>
      keepsOpen_register _ _

lemma keepsOpen_contents (path : String) : Op.Within KeepsOpen (contents path) := by
  refine Op.within_get.bind fun fs => Op.Within.ite (Op.within_throw_bind _ _) ?_
  refine (keepsOpen_stage _).bind fun _ => Op.within_get.bind fun _ => (Op.within_lift _).bind fun found => ?_
  split
  · exact Op.within_throw _
  · exact (Op.within_lift _).bind fun _ => (Op.within_lift _).bind fun _ => Op.within_lift _

lemma keepsOpen_fileExists (path : String) : Op.Within KeepsOpen (fileExists path) :=
  Op.within_get.bind fun _ => Op.Within.ite (Op.within_pure _) <|
    (keepsOpen_stage _).bind fun _ => Op.within_get.bind fun _ => (Op.within_lift _).bind fun _ => Op.within_pure _

/-! ### All requests -/

variable {fs : FileSystem}

/-- **No request** opens or closes a file. -/
theorem keepsOpen_answer (fs : FileSystem) (q : FileRequest) : fs.KeepsOpen (q.answer fs).2 := by
  cases q with
  | addFile path data =>
    rw [FileRequest.answer, Prod.map_snd, Op.outcome_snd]
    exact keepsOpen_addFile path data fs
  | addDirectory path =>
    rw [FileRequest.answer, Prod.map_snd, Op.outcome_snd]
    exact keepsOpen_addDirectory path fs
  | contents path =>
    rw [FileRequest.answer, Prod.map_snd, Op.outcome_snd]
    exact keepsOpen_contents path fs
  | fileExists path =>
    rw [FileRequest.answer, Prod.map_snd, Op.outcome_snd]
    exact keepsOpen_fileExists path fs
  | kindOf path => exact refl_of KeepsOpen fs
  | entries => exact refl_of KeepsOpen fs

/-- **Every request** keeps the store sound. -/
theorem sound_answer (hs : fs.store.Sound) (q : FileRequest) : (q.answer fs).2.store.Sound := by
  cases q with
  | addFile path data =>
    obtain ⟨r, fs', hx, hadd⟩ := addFile_cases hs path data
    rw [FileRequest.answer, Op.outcome_of_attempt hx]
    cases hadd with
    | registered | tooLong => exact hs
    | directory h hl | full h hl => exact (keeps_staged hs hl).sound
    | cut address size h hl hn hc hsound => exact hsound
    | added h hl hn hc hg => exact hg.sound
  | addDirectory path =>
    obtain ⟨r, fs', hx, hadd⟩ := addDirectory_cases hs path
    rw [FileRequest.answer, Op.outcome_of_attempt hx]
    cases hadd with
    | kept | registered | tooLong => exact hs
    | file bytes h hl => exact (keeps_staged hs hl).sound
    | added h hl hn hg => exact hg.sound
  | contents path =>
    obtain ⟨r, fs', hx, hy⟩ := contents_cases hs path
    rw [FileRequest.answer, Op.outcome_of_attempt hx]
    exact (hy.keeps hs).sound
  | fileExists path =>
    obtain ⟨r, fs', hx, hy⟩ := fileExists_cases hs path
    rw [FileRequest.answer, Op.outcome_of_attempt hx]
    cases hy with
    | registered | tooLong => exact hs
    | asked h hl => exact (keeps_staged hs hl).sound
  | kindOf path => exact hs
  | entries => exact hs

end FileSystem

end ToolchainHost
