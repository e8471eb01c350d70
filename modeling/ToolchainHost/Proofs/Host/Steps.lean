import ToolchainHost.Proofs.Files.Steps
import ToolchainHost.Proofs.Host.Stdio
import ToolchainHost.Proofs.Host.Transfer

/-!
# What the file calls of guests are made of

A call on files moves bytes between the guest and the store, and does operations on the store. A relation that allows
these allows the call, also where it fails. At the standard descriptors a call uses the terminal, and it is for the
relation to allow that too.

* `Host.Allows`: the relations between hosts that do.
* `Host.Allows.within_pathOpen`, `within_fileWrite`, `within_fileRead`, …: the calls.
-/

namespace ToolchainHost.Host

variable {S : FileStore → FileStore → Prop} {R : Host → Host → Prop} {α : Type}

/-- A relation between hosts that allows the guest's memory to be written, and every change of the store that `S`
allows. -/
structure Allows (S : FileStore → FileStore → Prop) (R : Host → Host → Prop) : Prop where
  changes : FileStore.Allows S
  store : ∀ {h s}, S h.files.store s → R h (h.withStore s)
  bind : ∀ h m, R h (h.bind m)

namespace Allows

variable (hR : Allows S R)

include hR

lemma within_onStore {x : Op FileStore α} (hx : Op.Within S x) : Op.Within R (onStore x) := by
  intro h
  have hafter : Op.after (onStore x) h = h.withStore (Op.after x h.files.store) := by
    rw [onStore, onFiles, Op.after_onPart, FileSystem.onStore, Op.after_onPart]
    rfl
  rw [hafter]
  exact hR.store (hx _)

variable [IsPreorder FileStore S] [IsPreorder Host R]

omit [IsPreorder FileStore S] in
lemma within_copyIn (target source size : Nat) : Op.Within R (copyIn target source size) :=
  Op.within_get.bind fun _ => (Op.within_lift _).bind fun _ =>
    hR.within_onStore (Op.within_modify fun s => hR.changes.memory s _)

omit [IsPreorder FileStore S] in
lemma within_copyOut (target source size : Nat) : Op.Within R (copyOut target source size) :=
  Op.within_get.bind fun _ => (Op.within_lift _).bind fun _ => Op.within_modify fun h => hR.bind h _

lemma within_storeWord (out value : Nat) : Op.Within R (storeWord out value) :=
  (hR.within_onStore (hR.changes.within_write _ _)).bind fun _ => hR.within_copyOut _ _ _

omit [IsPreorder FileStore S] in
lemma within_guestSegments (list count : Nat) : Op.Within R (guestSegments list count) := by
  unfold guestSegments
  dsimp only
  refine Op.Within.ite (Op.within_pure _) ?_
  exact (hR.within_copyIn _ _ _).bind fun _ => Op.within_get.bind fun _ => (Op.within_lift _).bind fun _ =>
    Op.within_pure _

lemma within_pathOpen (path length flags out : Nat) : Op.Within R (pathOpen path length flags out) := by
  unfold pathOpen
  refine Op.Within.ite (Op.within_pure _) ?_
  refine (hR.within_copyIn _ _ _).bind fun _ => Op.within_get.bind fun _ => (Op.within_lift _).bind fun name => ?_
  refine (hR.within_onStore (hR.changes.within_openTarget _ _)).bind fun target => ?_
  cases target with
  | error e => exact Op.within_pure _
  | ok index =>
    refine (hR.within_onStore (hR.changes.within_openNode _)).bind fun _ => ?_
    exact (hR.within_storeWord _ _).bind fun _ => Op.within_pure _

omit [IsPreorder Host R] in
lemma within_fileClose (descriptor : Int) : Op.Within R (fileClose descriptor) :=
  hR.within_onStore (hR.changes.within_close _)

/-- Writing to a file, segment by segment. -/
lemma within_writeSegments (index : Nat) (segments : List Segment) (position total : Nat) :
    Op.Within R (writeSegments index segments position total) := by
  induction segments generalizing position total with
  | nil => exact Op.within_pure _
  | cons s rest ih =>
    unfold writeSegments
    refine (Op.within_lift _).bind fun stop => ?_
    refine (hR.within_onStore (hR.changes.within_reserve _ _)).bind fun n => ?_
    refine (Op.within_lift _).bind fun _ => (hR.within_copyIn _ _ _).bind fun _ => ?_
    refine (hR.within_onStore (hR.changes.within_extend _ _)).bind fun _ => ?_
    exact (Op.within_lift _).bind fun _ => ih _ _

omit [IsPreorder FileStore S] in
/-- Reading from a file, segment by segment. -/
lemma within_readSegments (n : Node) (segments : List Segment) (position total : Nat) :
    Op.Within R (readSegments n segments position total) := by
  induction segments generalizing position total with
  | nil => exact Op.within_pure _
  | cons s rest ih =>
    unfold readSegments
    refine Op.Within.ite (Op.within_pure _) ?_
    refine (Op.within_lift _).bind fun _ => (hR.within_copyOut _ _ _).bind fun _ => ?_
    exact (Op.within_lift _).bind fun _ => (Op.within_lift _).bind fun _ => ih _ _

lemma within_fileWrite {descriptor : Int} {list count out : Nat}
    (hterminal : Interface.isStandard descriptor = true → Op.Within R (write descriptor list count out)) :
    Op.Within R (fileWrite descriptor list count out) := by
  unfold fileWrite
  split_ifs with hd
  · exact (hterminal hd).bind fun _ => Op.within_pure _
  refine Op.within_get.bind fun h => ?_
  cases h.files.store.openFile? descriptor with
  | none => exact Op.within_pure _
  | some file =>
    refine (hR.within_guestSegments _ _).bind fun segments => ?_
    cases segments with
    | none => exact Op.within_pure _
    | some segments =>
      refine Op.Within.ite (Op.within_pure _) ?_
      refine (hR.within_writeSegments _ _ _ _).bind fun _ => ?_
      refine (hR.within_onStore (hR.changes.within_setPosition _ _)).bind fun _ => ?_
      exact (hR.within_storeWord _ _).bind fun _ => Op.within_pure _

lemma within_fileRead {descriptor : Int} {list count out : Nat}
    (hterminal : descriptor = 0 → Op.Within R (read descriptor list count out)) :
    Op.Within R (fileRead descriptor list count out) := by
  unfold fileRead
  split_ifs with hd
  · exact (hterminal hd).bind fun _ => Op.within_pure _
  refine Op.within_get.bind fun h => ?_
  cases h.files.store.openFile? descriptor with
  | none => exact Op.within_pure _
  | some file =>
    refine (hR.within_guestSegments _ _).bind fun segments => ?_
    cases segments with
    | none => exact Op.within_pure _
    | some segments =>
      refine (hR.within_onStore (FileStore.Allows.within_nodeAt _)).bind fun n => ?_
      refine (hR.within_readSegments _ _ _ _).bind fun _ => ?_
      refine (hR.within_onStore (hR.changes.within_setPosition _ _)).bind fun _ => ?_
      exact (hR.within_storeWord _ _).bind fun _ => Op.within_pure _

end Allows

end ToolchainHost.Host
