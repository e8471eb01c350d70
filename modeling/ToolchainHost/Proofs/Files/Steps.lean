import ToolchainHost.Files.System
import ToolchainHost.Proofs.Files.Nodes

/-!
# What the operations of the store are made of

Whatever an operation does, it does by changing bytes, nodes or open files, and by handing out places. A relation that
allows these allows every operation, also where it fails.

* `FileStore.Allows`: the relations between stores that do, and the operations on the store.
* `FileSystem.within_addFile`, `within_contents`, …: what the host does is made of operations on the store.
-/

namespace ToolchainHost

namespace FileStore

/-- A relation between stores that allows each change that operations are made of. -/
structure Allows (S : FileStore → FileStore → Prop) : Prop where
  memory : ∀ s memory, S s { s with memory }
  nodes : ∀ s nodes, S s { s with nodes }
  opened : ∀ s opened, S s { s with opened }
  grown : ∀ {s : FileStore} {size : Nat}, s.Room size → S s (s.grown size)

namespace Allows

variable {S : FileStore → FileStore → Prop} [IsPreorder FileStore S] (hS : Allows S)

include hS

lemma within_write (address : Nat) (data : List UInt8) : Op.Within S (write address data) := by
  intro s
  by_cases h : address + data.length ≤ s.memory.size
  · rw [Op.after_of_ok (write_of_le h)]
    exact hS.memory s _
  · rw [Op.after_of_error (write_of_lt (Nat.not_le.1 h))]
    exact refl_of S s

lemma within_allocate (size : Nat) : Op.Within S (allocate size) := by
  intro s
  by_cases h : s.Room size
  · rw [Op.after_of_ok (allocate_of_room h)]
    exact hS.grown h
  · rw [Op.after_of_error (allocate_of_not_room h)]
    exact refl_of S s

omit hS in
lemma within_nodeAt (index : Nat) : Op.Within S (nodeAt index) := by
  refine Op.within_get.bind fun s => ?_
  cases s.nodes[index]? with
  | none => exact Op.within_throw _
  | some n => exact Op.within_pure _

omit [IsPreorder FileStore S] in
lemma within_insertNode (n : Node) : Op.Within S (insertNode n) := fun s => hS.nodes s _

omit [IsPreorder FileStore S] in
lemma within_setNode (index : Nat) (n : Node) : Op.Within S (setNode index n) :=
  Op.within_modify fun s => hS.nodes s _

lemma within_addDirectoryNode (length : Nat) : Op.Within S (addDirectoryNode length) := by
  refine Op.within_get.bind fun s => (Op.within_lift _).bind fun path => ?_
  cases s.indexOf? path with
  | none => exact hS.within_insertNode _
  | some index => exact (within_nodeAt _).bind fun n => Op.Within.ite (Op.within_throw_bind _ _) (Op.within_pure _)

lemma within_addFileNode (length size : Nat) : Op.Within S (addFileNode length size) := by
  refine Op.within_get.bind fun s => (Op.within_lift _).bind fun path => ?_
  cases s.indexOf? path with
  | none => exact (hS.within_allocate _).bind fun _ => hS.within_insertNode _
  | some index =>
    refine (within_nodeAt _).bind fun n => Op.Within.ite (Op.within_throw_bind _ _) (Op.Within.ite ?_ ?_)
    · exact (hS.within_setNode _ _).bind fun _ => Op.within_pure _
    · exact (hS.within_allocate _).bind fun _ => (hS.within_setNode _ _).bind fun _ => Op.within_pure _

lemma within_reserve (index needed : Nat) : Op.Within S (reserve index needed) := by
  refine (within_nodeAt _).bind fun n => Op.Within.ite (Op.within_pure _) ?_
  refine (hS.within_allocate _).bind fun address => Op.within_get.bind fun s => (Op.within_lift _).bind fun data => ?_
  exact (hS.within_write _ _).bind fun _ => (hS.within_setNode _ _).bind fun _ => Op.within_pure _

lemma within_extend (index size : Nat) : Op.Within S (extend index size) :=
  (within_nodeAt _).bind fun _ => hS.within_setNode _ _

lemma within_setPosition (descriptor : Int) (position : Nat) : Op.Within S (setPosition descriptor position) := by
  unfold setPosition
  cases slotOf? descriptor with
  | none => exact Op.within_pure _
  | some slot => exact Op.within_modify fun s => hS.opened s _

omit [IsPreorder FileStore S] in
lemma within_openNode (index : Nat) : Op.Within S (openNode index) := fun s => hS.opened s _

lemma within_close (descriptor : Int) : Op.Within S (close descriptor) := by
  intro s
  cases h : s.openFile? descriptor with
  | none =>
    rw [Op.after_of_ok (close_of_none h)]
    exact refl_of S s
  | some f =>
    obtain ⟨slot, hslot, hf⟩ := openFile?_eq_some.1 h
    rw [Op.after_of_ok (close_of_some hslot hf)]
    exact hS.opened s _

lemma within_openTarget (path : String) (flags : Nat) : Op.Within S (openTarget path flags) := by
  refine Op.within_get.bind fun s => ?_
  cases s.indexOf? path with
  | none => exact Op.Within.ite ((hS.within_insertNode _).bind fun _ => Op.within_pure _) (Op.within_pure _)
  | some index =>
    refine (within_nodeAt _).bind fun n => Op.Within.ite (Op.within_pure _) (Op.Within.ite ?_ (Op.within_pure _))
    exact (hS.within_setNode _ _).bind fun _ => Op.within_pure _

end Allows

/-- Nothing is said about the stores. -/
def Anyhow (_ _ : FileStore) : Prop := True

instance : IsPreorder FileStore Anyhow where
  refl _ := trivial
  trans _ _ _ _ _ := trivial

lemma allows_anyhow : Allows Anyhow :=
  ⟨fun _ _ => trivial, fun _ _ => trivial, fun _ _ => trivial, fun _ => trivial⟩

end FileStore

/-! ### The file system -/

namespace FileSystem

variable {R : FileSystem → FileSystem → Prop} [IsPreorder FileSystem R]

section Store

variable (hwrite : ∀ address data, Op.Within R (onStore (FileStore.write address data)))

include hwrite

lemma within_stage (path : String) : Op.Within R (stage path) :=
  Op.Within.ite (Op.within_throw_bind _ _) ((hwrite _ _).bind fun _ => Op.within_pure _)

lemma within_contents (path : String) : Op.Within R (contents path) := by
  refine Op.within_get.bind fun fs => Op.Within.ite (Op.within_throw_bind _ _) ?_
  refine (within_stage hwrite _).bind fun _ => Op.within_get.bind fun _ => (Op.within_lift _).bind fun found => ?_
  cases found with
  | none => exact Op.within_throw _
  | some number => exact (Op.within_lift _).bind fun _ => (Op.within_lift _).bind fun _ => Op.within_lift _

lemma within_fileExists (path : String) : Op.Within R (fileExists path) := by
  refine Op.within_get.bind fun fs => Op.Within.ite (Op.within_pure _) ?_
  exact (within_stage hwrite _).bind fun _ => Op.within_get.bind fun _ => (Op.within_lift _).bind fun _ =>
    Op.within_pure _

variable (hregister : ∀ path kind, Op.Within R (register path kind))

include hregister

lemma within_addDirectory (hadd : ∀ length, Op.Within R (onStore (FileStore.addDirectoryNode length)))
    (path : String) : Op.Within R (addDirectory path) := by
  refine Op.within_get.bind fun fs => ?_
  split
  · exact Op.within_pure _
  · exact Op.within_throw _
  · exact (within_stage hwrite _).bind fun _ => (hadd _).bind fun _ => hregister _ _

lemma within_addFile (hadd : ∀ length size, Op.Within R (onStore (FileStore.addFileNode length size)))
    (path : String) (contents : List UInt8) : Op.Within R (addFile path contents) := by
  refine Op.within_get.bind fun fs => Op.Within.ite (Op.within_throw_bind _ _) ?_
  refine (within_stage hwrite _).bind fun _ => (hadd _ _).bind fun _ => Op.within_get.bind fun _ => ?_
  exact (Op.within_lift _).bind fun _ => (hwrite _ _).bind fun _ => hregister _ _

end Store

end FileSystem

end ToolchainHost
