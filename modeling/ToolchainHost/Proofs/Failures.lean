import ToolchainHost.Files.System
import ToolchainHost.Module.Check
import ToolchainHost.Proofs.Operation

/-!
# How operations may fail

Some failures count as shown on the terminal when they are returned, and some name the stage that failed. Memory, files
and the check of modules never fail with either: that is left to guests, interpreters and stages.

* `FailsOnly P r`, `Op.FailsOnly P x`: an outcome, and an operation, whose failures have `P`.
* `Failure.isSimple`: neither shown yet nor blamed on a stage.
* `FileSystem.simple_addFile`, `simple_contents`, `simple_fileExists`, `Module.simple_check`.
-/

namespace ToolchainHost

variable {σ τ α β : Type} {e : Failure} {P : Failure → Prop}

/-! ### Kinds of failures -/

namespace Failure

/-- Whether a failure names the stage that failed. -/
def isStaged : Failure → Bool
  | stageFailed .. => true
  | _ => false

/-- Whether a failure neither counts as shown nor names a stage. -/
def isSimple : Failure → Bool
  | guestTrap _ | guestExit _ | stageFailed .. => false
  | _ => true

lemma isReported_of_isSimple (h : e.isSimple = true) : e.isReported = false := by
  cases e <;> first | rfl | cases h

lemma isStaged_of_isSimple (h : e.isSimple = true) : e.isStaged = false := by
  cases e <;> first | rfl | cases h

lemma inStage_of_not_isStaged (h : e.isStaged = false) (stage : Stage) : e.inStage stage = .stageFailed stage e := by
  cases e <;> first | rfl | cases h

end Failure

/-! ### Outcomes -/

/-- If the outcome is a failure, it has `P`. -/
def FailsOnly (P : Failure → Prop) (r : Except Failure α) : Prop := ∀ e, r = .error e → P e

/-- If the outcome is a failure, it is not shown yet. -/
def Unreported (r : Except Failure α) : Prop := ∀ e, r = .error e → e.isReported = false

/-- If the outcome is a failure, it names no stage. -/
abbrev Unstaged (r : Except Failure α) : Prop := FailsOnly (·.isStaged = false) r

/-- If the outcome is a failure, it is a simple one. -/
abbrev Simple (r : Except Failure α) : Prop := FailsOnly (·.isSimple = true) r

lemma failsOnly_ok (a : α) : FailsOnly P (.ok a) := by
  intro e h
  cases h

lemma failsOnly_error (he : P e) : FailsOnly P (.error e : Except Failure α) := by
  intro e' h
  cases h
  exact he

lemma failsOnly_throw_bind (he : P e) (f : α → Except Failure β) :
    FailsOnly P ((throw e : Except Failure α) >>= f) := failsOnly_error he

namespace FailsOnly

variable {r r' : Except Failure α}

lemma mono {Q : Failure → Prop} (hr : FailsOnly P r) (h : ∀ e, P e → Q e) : FailsOnly Q r := fun e he => h e (hr e he)

lemma bind {f : α → Except Failure β} (hr : FailsOnly P r) (hf : ∀ a, FailsOnly P (f a)) : FailsOnly P (r >>= f) := by
  cases r with
  | ok a => exact hf a
  | error e => exact failsOnly_error (hr e rfl)

lemma ite {c : Prop} [Decidable c] (hr : FailsOnly P r) (hr' : FailsOnly P r') : FailsOnly P (if c then r else r') := by
  split_ifs
  · exact hr
  · exact hr'

end FailsOnly

lemma simple_throw_bind (he : e.isSimple = true) (f : α → Except Failure β) :
    Simple ((throw e : Except Failure α) >>= f) := failsOnly_throw_bind he f

lemma Simple.unreported {r : Except Failure α} (hr : Simple r) : Unreported r :=
  FailsOnly.mono hr fun _ => Failure.isReported_of_isSimple

/-! ### Operations -/

namespace Op

/-- Every failure of the operation has `P`. -/
def FailsOnly (P : Failure → Prop) (x : Op σ α) : Prop := ∀ s e t, x s = .error e t → P e

/-- Every failure of the operation is one that is not shown yet. -/
def Unreported (x : Op σ α) : Prop := ∀ s e t, x s = .error e t → e.isReported = false

/-- No failure of the operation names a stage. -/
abbrev Unstaged (x : Op σ α) : Prop := FailsOnly (·.isStaged = false) x

/-- Every failure of the operation is a simple one. -/
abbrev Simple (x : Op σ α) : Prop := FailsOnly (·.isSimple = true) x

lemma failsOnly_pure (a : α) : FailsOnly P (pure a : Op σ α) := by
  intro s e t h
  cases h

lemma failsOnly_get : FailsOnly P (get : Op σ σ) := by
  intro s e t h
  cases h

lemma failsOnly_set (t : σ) : FailsOnly P (set t : Op σ PUnit) := by
  intro s e u h
  cases h

lemma failsOnly_modify (f : σ → σ) : FailsOnly P (modify f : Op σ PUnit) := by
  intro s e t h
  cases h

lemma failsOnly_throw (he : P e) : FailsOnly P (throw e : Op σ α) := by
  intro s e' t h
  cases h
  exact he

lemma failsOnly_throw_bind (he : P e) (f : α → Op σ β) : FailsOnly P ((throw e : Op σ α) >>= f) := by
  intro s e' t h
  cases h
  exact he

lemma failsOnly_lift {r : Except Failure α} (hr : ToolchainHost.FailsOnly P r) : FailsOnly P (liftM r : Op σ α) := by
  intro s e t h
  exact hr e (lift_eq_error.1 h).1

namespace FailsOnly

variable {x y : Op σ α}

lemma mono {Q : Failure → Prop} (hx : FailsOnly P x) (h : ∀ e, P e → Q e) : FailsOnly Q x :=
  fun s e t he => h e (hx s e t he)

lemma bind {f : α → Op σ β} (hx : FailsOnly P x) (hf : ∀ a, FailsOnly P (f a)) : FailsOnly P (x >>= f) := by
  intro s e t h
  obtain h | ⟨a, u, -, h⟩ := bind_eq_error.1 h
  · exact hx s e t h
  · exact hf a u e t h

lemma ite {c : Prop} [Decidable c] (hx : FailsOnly P x) (hy : FailsOnly P y) : FailsOnly P (if c then x else y) := by
  split_ifs
  · exact hx
  · exact hy

lemma onPart {x : Op τ α} (hx : FailsOnly P x) (get : σ → τ) (put : τ → σ → σ) : FailsOnly P (onPart get put x) := by
  intro s e t h
  cases hr : x (get s) with
  | ok a u =>
    rw [onPart_of_ok hr] at h
    cases h
  | error e' u =>
    rw [onPart_of_error hr] at h
    cases h
    exact hx _ _ _ hr

end FailsOnly

lemma simple_throw_bind (he : e.isSimple = true) (f : α → Op σ β) : Simple ((throw e : Op σ α) >>= f) :=
  failsOnly_throw_bind he f

lemma Simple.unreported {x : Op σ α} (hx : Simple x) : Unreported x :=
  FailsOnly.mono hx fun _ => Failure.isReported_of_isSimple

lemma Simple.unstaged {x : Op σ α} (hx : Simple x) : Unstaged x :=
  FailsOnly.mono hx fun _ => Failure.isStaged_of_isSimple

end Op

/-! ### Memory -/

lemma simple_add (a b : Nat) : Simple (Word.add a b) :=
  FailsOnly.ite (failsOnly_ok _) (failsOnly_error rfl)

namespace Memory

lemma simple_read (m : Memory) (address count : Nat) : Simple (m.read address count) :=
  FailsOnly.ite (failsOnly_ok _) (failsOnly_error rfl)

lemma simple_write (m : Memory) (address : Nat) (data : List UInt8) : Simple (m.write address data) :=
  FailsOnly.ite (failsOnly_ok _) (failsOnly_error rfl)

lemma simple_readText (m : Memory) (address : Nat) (count : Option Nat) :
    Simple (m.readText address count) := by
  cases count with
  | some n => exact (m.simple_read _ _).bind fun _ => failsOnly_ok _
  | none => exact FailsOnly.ite ((m.simple_read _ _).bind fun _ => failsOnly_ok _) (failsOnly_error rfl)

end Memory

/-! ### The file store -/

namespace FileStore

lemma simple_stagedPath (s : FileStore) (length : Nat) : Simple (s.stagedPath length) := by
  unfold stagedPath
  refine FailsOnly.ite (simple_throw_bind rfl _) ?_
  exact (Memory.simple_readText _ _ _).bind fun _ => failsOnly_ok _

lemma simple_findNode (s : FileStore) (length : Nat) : Simple (s.findNode length) :=
  (s.simple_stagedPath length).bind fun _ => failsOnly_ok _

lemma simple_fileNode (s : FileStore) (number : Nat) : Simple (s.fileNode number) := by
  have hnode : Simple (s.node number) := by
    cases number with
    | zero => exact failsOnly_error rfl
    | succ index =>
      unfold node
      dsimp only
      cases s.nodes[index]? with
      | some n => exact failsOnly_ok n
      | none => exact failsOnly_error rfl
  exact hnode.bind fun n => FailsOnly.ite (simple_throw_bind rfl _) (failsOnly_ok _)

lemma simple_fileAddress (s : FileStore) (number : Nat) : Simple (s.fileAddress number) :=
  (s.simple_fileNode number).bind fun _ => failsOnly_ok _

lemma simple_fileSize (s : FileStore) (number : Nat) : Simple (s.fileSize number) :=
  (s.simple_fileNode number).bind fun _ => failsOnly_ok _

lemma simple_allocate (size : Nat) : (allocate size).Simple := by
  refine Op.failsOnly_get.bind fun s => (Op.failsOnly_lift (simple_add _ _)).bind fun rounded => ?_
  refine Op.FailsOnly.ite (Op.simple_throw_bind rfl _) ?_
  exact (Op.failsOnly_set _).bind fun _ => Op.failsOnly_pure _

lemma simple_write (address : Nat) (data : List UInt8) : (write address data).Simple :=
  Op.failsOnly_get.bind fun _ => (Op.failsOnly_lift (Memory.simple_write _ _ _)).bind fun _ =>
    Op.failsOnly_set _

lemma simple_nodeAt (index : Nat) : (nodeAt index).Simple := by
  refine Op.failsOnly_get.bind fun s => ?_
  cases s.nodes[index]? with
  | some n => exact Op.failsOnly_pure n
  | none => exact Op.failsOnly_throw rfl

lemma simple_insertNode (n : Node) : (insertNode n).Simple :=
  Op.failsOnly_get.bind fun _ => (Op.failsOnly_set _).bind fun _ => Op.failsOnly_pure _

lemma simple_addFileNode (length size : Nat) : (addFileNode length size).Simple := by
  refine Op.failsOnly_get.bind fun s => (Op.failsOnly_lift (s.simple_stagedPath length)).bind fun path => ?_
  cases s.indexOf? path with
  | none => exact (simple_allocate size).bind fun _ => simple_insertNode _
  | some index =>
    refine (simple_nodeAt index).bind fun n => Op.FailsOnly.ite (Op.simple_throw_bind rfl _) ?_
    refine Op.FailsOnly.ite ((Op.failsOnly_modify _).bind fun _ => Op.failsOnly_pure _) ?_
    exact (simple_allocate size).bind fun _ => (Op.failsOnly_modify _).bind fun _ => Op.failsOnly_pure _

end FileStore

/-! ### The file system -/

namespace FileSystem

lemma simple_stage (path : String) : (stage path).Simple := by
  refine Op.FailsOnly.ite (Op.simple_throw_bind rfl _) ?_
  exact ((FileStore.simple_write _ _).onPart _ _).bind fun _ => Op.failsOnly_pure _

theorem simple_addFile (path : String) (contents : List UInt8) : (addFile path contents).Simple := by
  unfold addFile
  refine Op.failsOnly_get.bind fun fs => Op.FailsOnly.ite (Op.simple_throw_bind rfl _) ?_
  refine (simple_stage _).bind fun _ => ((FileStore.simple_addFileNode _ _).onPart _ _).bind fun _ => ?_
  refine Op.failsOnly_get.bind fun fs => (Op.failsOnly_lift (fs.store.simple_fileAddress _)).bind fun _ => ?_
  exact ((FileStore.simple_write _ _).onPart _ _).bind fun _ => Op.failsOnly_modify _

theorem simple_contents (path : String) : (contents path).Simple := by
  unfold contents
  refine Op.failsOnly_get.bind fun fs => Op.FailsOnly.ite (Op.simple_throw_bind rfl _) ?_
  refine (simple_stage _).bind fun _ => Op.failsOnly_get.bind fun fs => ?_
  refine (Op.failsOnly_lift (fs.store.simple_findNode _)).bind fun number => ?_
  cases number with
  | none => exact Op.failsOnly_throw rfl
  | some number =>
    refine (Op.failsOnly_lift (fs.store.simple_fileAddress _)).bind fun _ => ?_
    exact (Op.failsOnly_lift (fs.store.simple_fileSize _)).bind fun _ =>
      Op.failsOnly_lift (Memory.simple_read _ _ _)

theorem simple_fileExists (path : String) : (fileExists path).Simple := by
  unfold fileExists
  refine Op.failsOnly_get.bind fun fs => Op.FailsOnly.ite (Op.failsOnly_pure _) ?_
  refine (simple_stage _).bind fun _ => Op.failsOnly_get.bind fun fs => ?_
  exact (Op.failsOnly_lift (fs.store.simple_findNode _)).bind fun _ => Op.failsOnly_pure _

end FileSystem

/-! ### The check of modules -/

namespace Module

lemma simple_readGroups (left : Nat) (bytes : List UInt8) : Simple (readGroups left bytes) := by
  induction left generalizing bytes with
  | zero => exact failsOnly_error rfl
  | succ left ih =>
    cases bytes with
    | nil => exact failsOnly_error rfl
    | cons b rest =>
      unfold readGroups
      refine FailsOnly.ite (failsOnly_error rfl) (FailsOnly.ite (failsOnly_ok _) ?_)
      have hrest := ih rest
      cases hr : readGroups left rest with
      | ok r => exact failsOnly_ok _
      | error e => exact failsOnly_error (hrest e hr)

lemma simple_readSized (what : String) (bytes : List UInt8) : Simple (readSized what bytes) := by
  have hword := simple_readGroups 5 bytes
  unfold readSized readWord
  cases hr : readGroups 5 bytes with
  | ok r => exact FailsOnly.ite (failsOnly_ok _) (failsOnly_error rfl)
  | error e => exact failsOnly_error (hword e hr)

lemma simple_readByte (bytes : List UInt8) : Simple (readByte bytes) := by
  cases bytes with
  | nil => exact failsOnly_error rfl
  | cons b rest => exact failsOnly_ok _

lemma simple_readExport (bytes : List UInt8) : Simple (readExport bytes) :=
  (simple_readSized _ _).bind fun _ => (simple_readByte _).bind fun _ =>
    (simple_readGroups _ _).bind fun _ => failsOnly_ok _

lemma simple_readExports (count : Nat) (bytes : List UInt8) : Simple (readExports count bytes) := by
  induction count generalizing bytes with
  | zero => exact failsOnly_ok _
  | succ count ih =>
    unfold readExports
    have hentry := simple_readExport bytes
    cases hr : readExport bytes with
    | error e => exact failsOnly_error (hentry e hr)
    | ok r =>
      obtain ⟨entry, rest⟩ := r
      have hrest := ih rest
      dsimp only
      cases hs : readExports count rest with
      | error e => exact failsOnly_error (hrest e hs)
      | ok entries => exact failsOnly_ok _

lemma simple_sectionExports (identifier : UInt8) (body : List UInt8) :
    Simple (sectionExports identifier body) := by
  refine FailsOnly.ite (failsOnly_ok _) ?_
  have hword := simple_readGroups 5 body
  unfold readWord
  cases hr : readGroups 5 body with
  | error e => exact failsOnly_error (hword e hr)
  | ok r => exact simple_readExports _ _

/-- Reading all sections, along the recursion of `exports`. -/
lemma simple_exports (sections : List UInt8) : Simple (exports sections) := by
  fun_induction exports sections with
  | case1 => exact failsOnly_ok _
  | case2 identifier bytes e h => exact failsOnly_error (simple_readSized _ _ e h)
  | case3 identifier bytes body rest h e hs => exact failsOnly_error (simple_sectionExports _ _ e hs)
  | case4 identifier bytes body rest h entries hs more hm ih => exact failsOnly_ok _
  | case5 identifier bytes body rest h entries hs e hm ih => exact failsOnly_error (ih e hm)

theorem simple_check (bytes : List UInt8) : Simple (check bytes) := by
  unfold check
  refine FailsOnly.ite (failsOnly_error rfl) ?_
  refine FailsOnly.ite (failsOnly_error rfl) (FailsOnly.ite (failsOnly_error rfl) ?_)
  refine (simple_exports _).bind fun entries => ?_
  exact FailsOnly.ite (simple_throw_bind rfl _) (FailsOnly.ite (failsOnly_error rfl) (failsOnly_ok _))

end Module

end ToolchainHost
