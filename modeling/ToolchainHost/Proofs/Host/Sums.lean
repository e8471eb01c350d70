import ToolchainHost.Proofs.Failures
import ToolchainHost.Proofs.Host.Gathering
import ToolchainHost.Proofs.Host.Heap
import ToolchainHost.Proofs.Host.Interruption
import ToolchainHost.Proofs.Host.Rejection

/-!
# Sums of the file calls

The file calls of guests add up addresses, positions and lengths, and look up nodes and open files by their numbers.
What they add up is a word, and what they look up is there, for all arguments of all guests, with one exception: a write
whose list has several segments moves the end of the heap, and the next place may be out of the range of words.

* `Op.Safe`: an operation does not break off at a sum that is no word, or at a number that nothing has.
* `FileStore.Stuck`: the sum for the next place is no word, and a file needs one.
* `Host.Overruns`, `Host.Overreaches`: a write comes to a segment at which its file is stuck.
* `Host.safe_writeSegments_iff`, `safe_fileWrite_iff`: a write is safe iff it does not.
* `fileCalls_safe`: all file calls; `exists_write_unsafe`: the exception.
-/

namespace ToolchainHost

open Interface (Errno)
open FileStore (heapBase pathBuffer)
open Host (segmentsOf staysAddressable)

variable {σ α β : Type}

/-! ### Operations that break off -/

namespace Op

variable {x y : Op σ α} {f : α → Op σ β} {s t : σ} {a : α}

/-- From a state, the operation does not break off at a sum that is no word, or at a number that nothing has. -/
def Safe (x : Op σ α) (s : σ) : Prop := ∀ t, x s ≠ .error .crash t

/-- It does not from any state. -/
abbrev Steady (x : Op σ α) : Prop := FailsOnly (· ≠ .crash) x

lemma Steady.safe (hx : Steady x) (s : σ) : Safe x s := fun t h => hx s _ t h rfl

lemma steady_of_safe (h : ∀ s, Safe x s) : Steady x := by
  rintro s e t hx rfl
  exact h s t hx

lemma safe_congr (h : x s = y t) : Safe x s ↔ Safe y t := by rw [Safe, h, Safe]

lemma safe_of_ok (h : x s = .ok a t) : Safe x s := by
  intro u hu
  cases h.symm.trans hu

lemma safe_bind_of_ok (h : x s = .ok a t) : Safe (x >>= f) s ↔ Safe (f a) t := by rw [Safe, bind_of_ok h, Safe]

/-- Of two operations one after the other, the second has to be safe where the first ends. -/
lemma safe_bind_iff : Safe (x >>= f) s ↔ Safe x s ∧ ∀ a t, x s = .ok a t → Safe (f a) t := by
  simp only [Safe, ne_eq, bind_eq_error, not_or, not_exists, not_and]
  exact ⟨fun h => ⟨fun t => (h t).1, fun a t hx u => (h u).2 a t hx⟩, fun h u => ⟨h.1 u, fun a t hx => h.2 a t hx u⟩⟩

end Op

/-! ### Memory and the terminal -/

namespace Memory

lemma steady_read (m : Memory) (address count : Nat) : FailsOnly (· ≠ .crash) (m.read address count) :=
  FailsOnly.ite (failsOnly_ok _) (failsOnly_error Failure.noConfusion)

lemma steady_write (m : Memory) (address : Nat) (data : List UInt8) : FailsOnly (· ≠ .crash) (m.write address data) :=
  FailsOnly.ite (failsOnly_ok _) (failsOnly_error Failure.noConfusion)

end Memory

lemma Stdin.steady_wait (stdin : Stdin) : FailsOnly (· ≠ .crash) stdin.wait.1 := by
  unfold wait
  cases stdin.mailbox.receive with
  | some taken => exact failsOnly_ok taken.1
  | none =>
    cases stdin.arrivals with
    | nil => exact failsOnly_error Failure.noConfusion
    | cons next arrivals =>
      have hdeliver : FailsOnly (· ≠ .crash) (stdin.mailbox.deliver next) :=
        FailsOnly.ite (failsOnly_error Failure.noConfusion)
          (FailsOnly.ite (failsOnly_error Failure.noConfusion) (failsOnly_ok _))
      dsimp only
      cases hd : stdin.mailbox.deliver next with
      | error e => exact failsOnly_error (hdeliver e hd)
      | ok b =>
        dsimp only
        cases b.receive with
        | some taken => exact failsOnly_ok taken.1
        | none => exact failsOnly_ok []

namespace Host

variable {h h' : Host} {d : Int} {list count out total : Nat}

lemma steady_attachedGuest (guest : Option Memory) : FailsOnly (· ≠ .crash) (attachedGuest guest) := by
  cases guest with
  | none => exact failsOnly_error Failure.noConfusion
  | some m => exact failsOnly_ok m

lemma steady_guestMemory : guestMemory.Steady :=
  Op.failsOnly_get.bind fun _ => Op.failsOnly_lift (steady_attachedGuest _)

lemma steady_writeGuest (address : Nat) (data : List UInt8) : (writeGuest address data).Steady :=
  steady_guestMemory.bind fun m => (Op.failsOnly_lift (m.steady_write address data)).bind fun _ => Op.failsOnly_modify _

lemma steady_segmentsAt (m : Memory) (list count : Nat) : FailsOnly (· ≠ .crash) (segmentsAt m list count) :=
  (m.steady_read _ _).bind fun _ => failsOnly_ok _

lemma steady_gather (m : Memory) (segments : List Segment) : FailsOnly (· ≠ .crash) (gather m segments) := by
  induction segments with
  | nil => exact failsOnly_ok _
  | cons s rest ih =>
    unfold gather
    have hread := m.steady_read s.address s.length
    split
    · rename_i e he
      exact failsOnly_error (hread e he)
    · split
      · exact failsOnly_ok _
      · rename_i e he
        exact failsOnly_error (ih e he)

/-- Writing to the terminal counts bytes modulo the number of words. -/
lemma steady_write (d : Int) (list count out : Nat) : (write d list count out).Steady := by
  unfold write
  refine Op.FailsOnly.ite (Op.failsOnly_throw_bind Failure.noConfusion _) ?_
  refine steady_guestMemory.bind fun m => (Op.failsOnly_lift (steady_segmentsAt m list count)).bind fun segments => ?_
  refine (Op.failsOnly_lift (steady_gather m segments)).bind fun payload => (Op.failsOnly_modify _).bind fun _ => ?_
  exact (steady_writeGuest _ _).bind fun _ => Op.failsOnly_pure _

lemma pending_of_writeGuest {address : Nat} {data : List UInt8} {u : Unit} (hx : writeGuest address data h = .ok u h') :
    h'.pending = h.pending := by
  cases hg : h.guest with
  | none =>
    rw [writeGuest, guestMemory] at hx
    simp [hg, attachedGuest] at hx
  | some m =>
    obtain ⟨-, rfl⟩ := (writeGuest_eq_ok hg).1 hx
    rfl

/-- Moving input counts its bytes. -/
lemma safe_scatter (segments : List Segment) (htotal : total + h.pending.length < Word.count) :
    Op.Safe (scatter segments total) h := by
  induction segments generalizing h total with
  | nil => exact Op.safe_of_ok (Op.pure_apply total h)
  | cons s rest ih =>
    have hsplit := congrArg List.length (List.take_append_drop s.length h.pending)
    rw [List.length_append] at hsplit
    unfold scatter
    rw [Op.safe_congr (Op.get_bind_apply _ h)]
    split_ifs
    · exact Op.safe_of_ok (Op.pure_apply total h)
    rw [Op.safe_congr (Op.set_bind_apply _ _ h), Op.safe_bind_iff]
    refine ⟨(steady_writeGuest _ _).safe _, fun _ h₁ hw => ?_⟩
    have hpending := pending_of_writeGuest hw
    rw [Word.add_of_lt (by omega), Op.safe_congr (Op.lift_ok_bind _ _ h₁)]
    refine ih ?_
    rw [hpending]
    dsimp only
    omega

lemma steady_receive : receive.Steady := by
  refine Op.failsOnly_get.bind fun h => ?_
  split
  · exact Op.failsOnly_pure _
  · exact (Op.failsOnly_modify _).bind fun _ => (Op.failsOnly_lift (Stdin.steady_wait _)).bind fun _ =>
      Op.failsOnly_modify _

/-- Reading from the terminal counts the bytes that it moves. -/
lemma safe_read (hinput : h.input.length < Word.count) (d : Int) (list count out : Nat) :
    Op.Safe (read d list count out) h := by
  have hsettle {h₁ : Host} (hp : h₁.pending.length < Word.count) (segments : List Segment) :
      Op.Safe (settle segments out) h₁ := by
    refine Op.safe_bind_iff.2 ⟨safe_scatter segments (by omega), fun total h₂ _ => ?_⟩
    exact Op.Steady.safe ((steady_writeGuest _ _).bind fun _ => Op.failsOnly_pure _) h₂
  unfold read
  by_cases hd : d = 0
  swap
  · rw [if_pos hd]
    exact Op.Steady.safe (Op.failsOnly_throw_bind Failure.noConfusion _) h
  rw [if_neg (not_not.2 hd), Op.safe_bind_iff]
  refine ⟨steady_guestMemory.safe h, fun m h₁ hm => ?_⟩
  obtain ⟨hg, rfl⟩ := guestMemory_eq_ok.1 hm
  have hlist : Op.Steady (liftM (segmentsAt m list count) : Op Host (List Segment)) :=
    Op.failsOnly_lift (steady_segmentsAt m list count)
  refine Op.safe_bind_iff.2 ⟨hlist.safe _, fun segments _ hs => ?_⟩
  obtain ⟨-, rfl⟩ := Op.lift_eq_ok.1 hs
  rw [Op.safe_congr (Op.get_bind_apply _ _)]
  split_ifs with hp
  · refine Op.safe_bind_iff.2 ⟨steady_receive.safe _, fun _ h₁ hr => ?_⟩
    obtain ⟨h₂, hr₂, hpending, -⟩ | ⟨e, h₂, hr₂, -⟩ := receive_cases hp
    · cases hr.symm.trans hr₂
      exact hsettle (hpending ▸ hinput) segments
    · cases hr.symm.trans hr₂
  · rw [input, if_neg hp] at hinput
    exact hsettle hinput segments

/-! ### Between guest and store -/

lemma steady_onStore {x : Op FileStore α} (hx : x.Steady) : (onStore x).Steady := (hx.onPart _ _).onPart _ _

lemma steady_copyIn (target source size : Nat) : (copyIn target source size).Steady := by
  have hcopy (guest : Option Memory) (m : Memory) :
      FailsOnly (· ≠ .crash) (Transfer.copyIn guest (some m) target source size) :=
    (steady_attachedGuest guest).bind fun g => (g.steady_read source size).bind fun data =>
      (failsOnly_ok m).bind fun m => m.steady_write target data
  exact Op.failsOnly_get.bind fun h => (Op.failsOnly_lift (hcopy h.guest _)).bind fun _ =>
    steady_onStore (Op.failsOnly_modify _)

lemma steady_copyOut (target source size : Nat) : (copyOut target source size).Steady := by
  have hcopy (guest : Option Memory) (m : Memory) :
      FailsOnly (· ≠ .crash) (Transfer.copyOut guest (some m) target source size) :=
    (failsOnly_ok m).bind fun m => (m.steady_read source size).bind fun data =>
      (steady_attachedGuest guest).bind fun g => g.steady_write target data
  exact Op.failsOnly_get.bind fun h => (Op.failsOnly_lift (hcopy h.guest _)).bind fun _ => Op.failsOnly_modify _

lemma steady_storeWord (out value : Nat) : (storeWord out value).Steady := by
  have hwrite : (FileStore.write FileStore.scratch (Bytes.ofNat 4 value)).Steady :=
    Op.failsOnly_get.bind fun _ => (Op.failsOnly_lift (Memory.steady_write _ _ _)).bind fun _ => Op.failsOnly_set _
  exact (steady_onStore hwrite).bind fun _ => steady_copyOut _ _ _

end Host

/-! ### Opening and closing -/

namespace FileStore

variable {s : FileStore} {i needed : Nat} {n : Node} {name path : String} {flags length : Nat} {d : Int}

lemma steady_stagedPath (s : FileStore) (length : Nat) : FailsOnly (· ≠ .crash) (s.stagedPath length) := by
  unfold stagedPath
  refine FailsOnly.ite (failsOnly_throw_bind Failure.noConfusion _) ?_
  exact ((s.memory.steady_read _ _).bind fun _ => failsOnly_ok _).bind fun _ => failsOnly_ok _

lemma steady_openTarget (name : String) (flags : Nat) : (openTarget name flags).Steady := by
  refine Op.steady_of_safe fun s => ?_
  unfold openTarget
  rw [Op.safe_congr (Op.get_bind_apply _ s)]
  cases hi : s.indexOf? name with
  | none =>
    refine Op.Steady.safe (Op.FailsOnly.ite ?_ (Op.failsOnly_pure _)) s
    exact (Op.failsOnly_get.bind fun _ => (Op.failsOnly_set _).bind fun _ => Op.failsOnly_pure _).bind fun _ =>
      Op.failsOnly_pure _
  | some i =>
    obtain ⟨n, hn, -⟩ := exists_node_of_indexOf? hi
    dsimp only
    rw [Op.safe_bind_of_ok (nodeAt_of_some hn)]
    refine Op.Steady.safe (Op.FailsOnly.ite (Op.failsOnly_pure _) ?_) s
    exact Op.FailsOnly.ite ((Op.failsOnly_modify _).bind fun _ => Op.failsOnly_pure _) (Op.failsOnly_pure _)

lemma steady_close (d : Int) : (close d).Steady := by
  refine Op.failsOnly_get.bind fun s => ?_
  split
  · exact Op.FailsOnly.ite ((Op.failsOnly_set _).bind fun _ => Op.failsOnly_pure _) (Op.failsOnly_pure _)
  · exact Op.failsOnly_pure _

end FileStore

namespace Host

variable {h : Host} {d : Int} {m : Memory} {s : Segment} {i list count out position total : Nat} {n : Node}

theorem steady_pathOpen (path length flags out : Nat) : (pathOpen path length flags out).Steady := by
  refine Op.FailsOnly.ite (Op.failsOnly_pure _) ((steady_copyIn _ _ _).bind fun _ => Op.failsOnly_get.bind fun h => ?_)
  refine (Op.failsOnly_lift (h.files.store.steady_stagedPath length)).bind fun name => ?_
  refine (steady_onStore (FileStore.steady_openTarget name flags)).bind fun r => ?_
  cases r with
  | error e => exact Op.failsOnly_pure e
  | ok i =>
    have hopen : (FileStore.openNode i).Steady :=
      Op.failsOnly_get.bind fun _ => (Op.failsOnly_set _).bind fun _ => Op.failsOnly_pure _
    exact (steady_onStore hopen).bind fun d => (steady_storeWord out d).bind fun _ => Op.failsOnly_pure _

/-- A path that names nothing is made, and opened behind the next descriptor. -/
lemma pathOpen_of_absent {name : String} {path length flags : Nat} (hb : heapBase ≤ h.files.store.memory.size)
    (hl : length ≤ Interface.pathLimit) (hg : h.guest = some m) (hr : m.InRange path length)
    (hname : nodePath (m.span path length) = name)
    (habsent : (h.files.store.poke pathBuffer (m.span path length)).lookup name = none)
    (hflag : Interface.hasFlag flags Interface.createFlag = true) (ho : m.InRange out 4) :
    pathOpen path length flags out h = .ok .success ((h.withStore
      ((((h.files.store.poke pathBuffer (m.span path length)).withNewNode (FileStore.freshFile name)).withOpenFile
        h.files.store.nodes.length).poke FileStore.scratch
          (Bytes.ofNat 4 (h.files.store.opened.nextSlot + FileStore.firstDescriptor)))).bind
      (m.put out (Bytes.ofNat 4 (h.files.store.opened.nextSlot + FileStore.firstDescriptor)))) := by
  have htarget := FileStore.openTarget_of_none habsent flags
  rw [if_pos hflag, FileStore.poke_nodes] at htarget
  rw [pathOpen_eq hb hl hg hr, hname, staging, Op.bind_of_ok (onStore_withStore_of_ok htarget)]
  dsimp only
  rw [Op.bind_of_ok (onStore_withStore_of_ok (FileStore.openNode_apply _ _))]
  generalize hs : ((h.files.store.poke pathBuffer (m.span path length)).withNewNode
    (FileStore.freshFile name)).withOpenFile h.files.store.nodes.length = s
  have hbase : heapBase ≤ s.memory.size := by
    rw [← hs, FileStore.withOpenFile, FileStore.withOpened_memory, FileStore.withNewNode_memory,
      FileStore.poke_memory, Memory.size_put]
    exact hb
  rw [Op.bind_of_ok (storeWord_of_inRange (h := h.withStore s) hbase out _ hg ho)]
  rfl

theorem steady_fileClose (d : Int) : (fileClose d).Steady := steady_onStore (FileStore.steady_close d)

/-! ### Reading -/

/-- What is read ends inside the file. -/
lemma safe_readSegments (hn : n.address + n.size < Word.count) (segments : List Segment)
    (htotal : total ≤ position) : Op.Safe (readSegments n segments position total) h := by
  induction segments generalizing h position total with
  | nil => exact Op.safe_of_ok (Op.pure_apply _ h)
  | cons s rest ih =>
    unfold readSegments
    dsimp only
    split_ifs with hc
    · exact Op.safe_of_ok (Op.pure_apply _ h)
    rw [Word.add_of_lt (by omega), Op.safe_congr (Op.lift_ok_bind _ _ h)]
    refine Op.safe_bind_iff.2 ⟨(steady_copyOut _ _ _).safe h, fun _ h₁ _ => ?_⟩
    rw [Word.add_of_lt (by omega), Op.safe_congr (Op.lift_ok_bind _ _ h₁), Word.add_of_lt (by omega),
      Op.safe_congr (Op.lift_ok_bind _ _ h₁)]
    exact ih (by omega)

/-- What follows the transfer of a read or a write. -/
lemma steady_settling (d : Int) (position total out : Nat) : (do
    onStore (FileStore.setPosition d position)
    storeWord out total
    return Errno.success : Op Host Errno).Steady := by
  have hset : (FileStore.setPosition d position).Steady := by
    unfold FileStore.setPosition
    split
    · exact Op.failsOnly_modify _
    · exact Op.failsOnly_pure _
  exact (steady_onStore hset).bind fun _ => (steady_storeWord out total).bind fun _ => Op.failsOnly_pure _

/-- What the guest does not have is refused. -/
lemma outOfReach_ne_crash (guest : Option Memory) (address count : Nat) : outOfReach guest address count ≠ .crash := by
  cases guest <;> exact Failure.noConfusion

lemma safe_of_outOfReach {x : Op Host α} {h' : Host} {guest : Option Memory} {address size : Nat}
    (hx : x h = .error (outOfReach guest address size) h') : Op.Safe x h := by
  intro t ht
  obtain ⟨he, -⟩ := EStateM.Result.error.inj (hx.symm.trans ht)
  exact outOfReach_ne_crash guest address size he

section FileRead

variable (hs : h.files.store.Laid) (htop : h.files.store.top < Word.count)

include hs htop

/-- **Reading** is safe, from the terminal if the input has not more bytes than words count. -/
theorem safe_fileRead (hinput : d = 0 → h.input.length < Word.count) (list count out : Nat) :
    Op.Safe (fileRead d list count out) h := by
  by_cases hd : d = 0
  · unfold fileRead
    rw [if_pos hd]
    exact Op.safe_bind_iff.2 ⟨safe_read (hinput hd) d list count out, fun _ h₁ _ => Op.safe_of_ok (Op.pure_apply _ h₁)⟩
  cases hf : h.files.store.openFile? d with
  | none => exact Op.safe_of_ok (fileRead_of_none hd hf list count out)
  | some f =>
    by_cases hl : FileStore.scratchLimit < count * Segment.width
    · exact Op.safe_of_ok (fileRead_of_lt hd hf hl list out)
    by_cases hn : ∀ m, h.guest = some m → ¬ m.InRange list (count * Segment.width)
    · exact safe_of_outOfReach (fileRead_of_not_inRange hd hf (Nat.not_lt.1 hl) hn out)
    push Not at hn
    obtain ⟨m, hg, hr⟩ := hn
    have hb : h.Begins d list count f m := ⟨hf, Nat.not_lt.1 hl, hg, hr⟩
    obtain ⟨-, n, hfile⟩ := hs.fileAt_of_open htop hf
    obtain ⟨hsize, -, hstop⟩ := hs.placed hfile
    have hlisted : (h.listed m list count).files.store.FileAt f.node n := by
      rw [listed_store]
      exact FileStore.fileAt_poke.2 hfile
    rw [Op.safe_congr (hb.fileRead_eq hd hs.base_le_size hlisted out), Op.safe_bind_iff]
    exact ⟨safe_readSegments (by omega) _ (Nat.zero_le _), fun r h₁ _ => (steady_settling d r.1 r.2 out).safe h₁⟩

end FileRead

end Host

/-! ### Writing -/

namespace FileStore

variable {s : FileStore} {i needed : Nat} {n : Node}

/-- The file with an index needs another place to hold `needed` bytes, and the end of the heap is one of the last seven
words: the sum for the address is no word. -/
def Stuck (s : FileStore) (i needed : Nat) : Prop :=
  ∃ n, s.FileAt i n ∧ n.capacity < needed ∧ Word.count ≤ s.top + 7

lemma FileAt.stuck_iff (hf : s.FileAt i n) : s.Stuck i needed ↔ n.capacity < needed ∧ Word.count ≤ s.top + 7 := by
  constructor
  · rintro ⟨n', hf', h⟩
    obtain rfl : n' = n := Option.some.inj (hf'.1.symm.trans hf.1)
    exact h
  · exact fun h => ⟨n, hf, h⟩

lemma CanHold.not_stuck (hc : s.CanHold n needed) (hf : s.FileAt i n) : ¬ s.Stuck i needed := by
  rw [hf.stuck_iff]
  rintro ⟨hlt, htop⟩
  have hr := (hc hlt).1
  omega

/-- The standard descriptors are none of open files. -/
lemma isStandard_of_open {d : Int} {f : OpenFile} (hf : s.openFile? d = some f) : Interface.isStandard d = false := by
  obtain ⟨slot, hslot, -⟩ := openFile?_eq_some.1 hf
  rw [slotOf?_eq_some.1 hslot]
  refine Bool.eq_false_iff.2 fun hd => ?_
  have := Interface.isStandard_iff.1 hd
  omega

/-- Where a file cannot be moved, the store gives up unless it is stuck. -/
lemma denial_eq_crash_iff (hc : ¬ s.CanHold n needed) (hf : s.FileAt i n) :
    s.denial (grownCapacity n needed) = .crash ↔ s.Stuck i needed := by
  obtain ⟨hlt, -⟩ := Classical.not_imp.1 hc
  rw [hf.stuck_iff, denial]
  by_cases htop : s.top + 7 < Word.count
  · rw [if_pos htop]
    exact iff_of_false Failure.noConfusion fun h => Nat.not_le.2 htop h.2
  · rw [if_neg htop]
    exact iff_of_true rfl ⟨hlt, Nat.not_lt.1 htop⟩

end FileStore

namespace Host

variable {h h₁ : Host} {d : Int} {m : Memory} {s : Segment} {segments rest : List Segment} {n : Node}
  {i list count out position total position' total' : Nat} {e : Failure}

/-- A write comes to a segment at which its file is stuck. -/
def Overruns (h : Host) (i : Nat) (segments : List Segment) (position total : Nat) : Prop :=
  ∃ before s rest r h', segments = before ++ s :: rest ∧ writeSegments i before position total h = .ok r h' ∧
    h'.files.store.Stuck i (r.1 + s.length)

/-- It is stuck at the first segment, or gets over this one and is stuck at a later one. -/
lemma overruns_cons : h.Overruns i (s :: rest) position total ↔ h.files.store.Stuck i (position + s.length) ∨
    ∃ before t after r h', rest = before ++ t :: after ∧
      writeSegments i (s :: before) position total h = .ok r h' ∧ h'.files.store.Stuck i (r.1 + t.length) := by
  constructor
  · rintro ⟨before, t, after, r, h', heq, hx, hstuck⟩
    cases before with
    | nil =>
      obtain ⟨rfl, -⟩ := List.cons.inj heq
      cases hx
      exact Or.inl hstuck
    | cons b before =>
      obtain ⟨rfl, hrest⟩ := List.cons.inj heq
      exact Or.inr ⟨before, t, after, r, h', hrest, hx, hstuck⟩
  · rintro (hstuck | ⟨before, t, after, r, h', rfl, hx, hstuck⟩)
    · exact ⟨[], s, rest, (position, total), h, rfl, rfl, hstuck⟩
    · exact ⟨s :: before, t, after, r, h', rfl, hx, hstuck⟩

/-- A write that breaks off at its first segment is stuck there or nowhere. -/
lemma overruns_cons_of_error (hx : ∀ rest, writeSegments i (s :: rest) position total h = .error e h₁) :
    h.Overruns i (s :: rest) position total ↔ h.files.store.Stuck i (position + s.length) := by
  rw [overruns_cons, or_iff_left]
  rintro ⟨before, t, after, r, h', -, hok, -⟩
  cases (hx before).symm.trans hok

/-- One that gets over its first segment goes on behind it. -/
lemma overruns_cons_of_ok (hstuck : ¬ h.files.store.Stuck i (position + s.length))
    (hx : ∀ rest, writeSegments i (s :: rest) position total h = writeSegments i rest position' total' h₁) :
    h.Overruns i (s :: rest) position total ↔ h₁.Overruns i rest position' total' := by
  rw [overruns_cons, or_iff_right hstuck, Overruns]
  simp only [hx]

/-- Where the end of the heap is not one of the last seven words, it takes a segment to get it there. -/
lemma Overruns.two_le (htop : h.files.store.top + 7 < Word.count) (ho : h.Overruns i segments position total) :
    2 ≤ segments.length := by
  obtain ⟨before, s, rest, r, h', rfl, hx, n, -, -, hlt⟩ := ho
  cases before with
  | nil =>
    cases hx
    omega
  | cons b before =>
    rw [List.length_append, List.length_cons, List.length_cons]
    omega

/-- **Writing segments** is safe iff the file is not stuck at one of them. -/
theorem safe_writeSegments_iff (hs : h.files.store.Packed) (hf : h.files.store.FileAt i n)
    (hstop : position + Segment.total segments < Word.count) (htotal : total ≤ position) :
    Op.Safe (writeSegments i segments position total) h ↔ ¬ h.Overruns i segments position total := by
  induction segments generalizing h n position total with
  | nil =>
    refine iff_of_true (Op.safe_of_ok (Op.pure_apply _ h)) ?_
    rintro ⟨before, s, rest, r, h', heq, -⟩
    cases before <;> cases heq
  | cons s rest ih =>
    rw [Segment.total] at hstop
    have hlt : position + s.length < Word.count := by omega
    by_cases hl : h.Lands n s position
    · obtain ⟨⟨m, hg, -⟩, hc⟩ := id hl
      obtain ⟨gap, -, hfirst⟩ := replaces_landed hs hf hl m
      obtain ⟨n', hf', -⟩ := hfirst.fileAt
      have hrun := writeSegments_cons hs hf hlt hg hl (by omega : total + s.length < Word.count)
      rw [Op.safe_congr (hrun rest), overruns_cons_of_ok (hc.not_stuck hf) hrun]
      exact ih (h := h.withStore (h.landed i n m s position)) hfirst.packed hf' (by omega) (by omega)
    · by_cases hc : h.files.store.CanHold n (position + s.length)
      · have hn : ∀ m, h.guest = some m → ¬ m.InRange s.address s.length := fun m hg hr => hl ⟨⟨m, hg, hr⟩, hc⟩
        have hrun (rest : List Segment) := writeSegments_cons_of_not_inRange hs hf hlt hc hn rest total
        rw [overruns_cons_of_error hrun]
        exact iff_of_true (safe_of_outOfReach (hrun rest)) (hc.not_stuck hf)
      · have hrun (rest : List Segment) := writeSegments_cons_of_not_canHold hf hlt hc rest total
        rw [overruns_cons_of_error hrun, ← FileStore.denial_eq_crash_iff hc hf, Op.Safe, hrun]
        refine ⟨fun hsafe he => hsafe h (by rw [he]), fun hne t ht => hne ?_⟩
        exact (EStateM.Result.error.inj ht).1

/-- A write of the guest's list to a descriptor is begun, and its file is stuck at one of the segments. -/
def Overreaches (h : Host) (d : Int) (list count : Nat) : Prop :=
  ∃ f m, h.Begins d list count f m ∧ staysAddressable f.position (segmentsOf m list count) = true ∧
    (h.listed m list count).Overruns f.node (segmentsOf m list count) f.position 0

lemma Begins.overreaches_iff {f : OpenFile} (hb : h.Begins d list count f m) : h.Overreaches d list count ↔
    staysAddressable f.position (segmentsOf m list count) = true ∧
      (h.listed m list count).Overruns f.node (segmentsOf m list count) f.position 0 := by
  constructor
  · rintro ⟨f', m', hb', hstays, ho⟩
    obtain rfl : f' = f := Option.some.inj (hb'.openFile.symm.trans hb.openFile)
    obtain rfl : m' = m := Option.some.inj (hb'.guest.symm.trans hb.guest)
    exact ⟨hstays, ho⟩
  · exact fun ho => ⟨f, m, hb, ho⟩

/-- It is not one of a single segment. -/
lemma Overreaches.two_le (htop : h.files.store.top + 7 < Word.count) (ho : h.Overreaches d list count) :
    2 ≤ count := by
  obtain ⟨f, m, -, -, ho⟩ := ho
  rw [← FileStore.poke_top h.files.store, ← listed_store] at htop
  have htwo := ho.two_le htop
  rwa [segmentsOf_eq, List.length_map, List.length_range] at htwo

section FileWrite

variable (hs : h.files.store.Laid) (htop : h.files.store.top < Word.count)

include hs htop

lemma Begins.safe_fileWrite_iff {f : OpenFile} (hb : h.Begins d list count f m) (out : Nat) :
    Op.Safe (fileWrite d list count out) h ↔ ¬ h.Overreaches d list count := by
  have hd := FileStore.isStandard_of_open hb.openFile
  rw [hb.overreaches_iff, Op.safe_congr (hb.fileWrite_eq hd hs.base_le_size out)]
  by_cases hst : staysAddressable f.position (segmentsOf m list count) = true
  · obtain ⟨hposition, n, hfile⟩ := hs.fileAt_of_open htop hb.openFile
    have hlisted := (hs.packed htop).refits_poke_low hfile (scratch_list_le hb.fits m list)
    rw [← listed_store] at hlisted
    rw [if_neg (by simp [hst]), and_iff_right hst, Op.safe_bind_iff,
      safe_writeSegments_iff hlisted.packed hlisted.fileAt ((staysAddressable_iff hposition).1 hst) (Nat.zero_le _)]
    exact and_iff_left fun r h₁ _ => (steady_settling d r.1 r.2 out).safe h₁
  · rw [if_pos (by simpa using hst)]
    exact iff_of_true (Op.safe_of_ok (Op.pure_apply _ _)) fun ho => hst ho.1

/-- **Writing** is safe iff the file is not stuck at one of the segments. -/
theorem safe_fileWrite_iff (d : Int) (list count out : Nat) :
    Op.Safe (fileWrite d list count out) h ↔ ¬ h.Overreaches d list count := by
  cases hf : h.files.store.openFile? d with
  | none =>
    refine iff_of_true ?_ fun ⟨f, m, hb, _⟩ => by cases hf.symm.trans hb.openFile
    unfold fileWrite
    split_ifs
    · exact Op.Steady.safe ((steady_write d list count out).bind fun _ => Op.failsOnly_pure _) h
    · rw [Op.safe_congr (Op.get_bind_apply _ h), hf]
      exact Op.safe_of_ok (Op.pure_apply _ h)
  | some f =>
    have hd := FileStore.isStandard_of_open hf
    by_cases hl : FileStore.scratchLimit < count * Segment.width
    · exact iff_of_true (Op.safe_of_ok (fileWrite_of_lt hd hf hl list out)) fun ⟨_, _, hb, _⟩ =>
        absurd hb.fits (Nat.not_le.2 hl)
    by_cases hn : ∀ m, h.guest = some m → ¬ m.InRange list (count * Segment.width)
    · exact iff_of_true (safe_of_outOfReach (fileWrite_of_not_inRange hd hf (Nat.not_lt.1 hl) hn out))
        fun ⟨_, m, hb, _⟩ => hn m hb.guest hb.inRange
    push Not at hn
    obtain ⟨m, hg, hr⟩ := hn
    exact Begins.safe_fileWrite_iff hs htop ⟨hf, Nat.not_lt.1 hl, hg, hr⟩ out

end FileWrite

end Host

/-! ### The result -/

lemma Slots.WellFormed.nextSlot_le {s : Slots α} (hs : s.WellFormed) : s.nextSlot ≤ s.entries.length := by
  obtain ⟨entries, vacant⟩ := s
  cases vacant with
  | nil => exact le_rfl
  | cons v vs =>
    obtain ⟨hlt, -⟩ := List.getElem?_eq_some_iff.1 (hs.2 v (by simp))
    exact hlt.le

/-- **The file calls add up words.** Whatever was done before, if the end of the heap is not one of the last seven words
and there is room for numbers, then for all guests and all arguments the numbers of new nodes and of new descriptors are
words, and opening, closing and reading do not break off at a sum that is no word, or at a number that nothing has; for
reading from the terminal, the number of bytes of the input has to be a word. Writing does iff it comes to a segment at
which its file is stuck, and this is not the first one. -/
theorem fileCalls_safe (h : Host) (calls : List HeapCall) (hf : h.files = .empty) {g : Host}
    (hg : h.afterHeap calls = g) (htop : g.files.store.top + 8 ≤ Word.count)
    (hnodes : g.files.store.nodes.length + 3 < 2 ^ 31) (hslots : g.files.store.opened.entries.length + 3 < 2 ^ 31) :
    (g.files.store.nodes.length + 1 < Word.count ∧
      g.files.store.opened.nextSlot + FileStore.firstDescriptor < Word.count) ∧
    (∀ path length flags out, Op.Safe (Host.pathOpen path length flags out) g) ∧
    (∀ d, Op.Safe (Host.fileClose d) g) ∧
    (∀ d list count out, (d = 0 → g.input.length < Word.count) → Op.Safe (Host.fileRead d list count out) g) ∧
    ∀ d list count out, (Op.Safe (Host.fileWrite d list count out) g ↔ ¬ g.Overreaches d list count) ∧
      (g.Overreaches d list count → 2 ≤ count) := by
  obtain ⟨hs, hbound⟩ := Host.laid_afterHeap hf calls
  rw [hg] at hs hbound
  refine ⟨⟨?_, ?_⟩, fun path length flags out => (Host.steady_pathOpen path length flags out).safe g,
    fun d => (Host.steady_fileClose d).safe g, fun d list count out hinput =>
      Host.safe_fileRead hs hbound hinput list count out, fun d list count out =>
      ⟨Host.safe_fileWrite_iff hs hbound d list count out, Host.Overreaches.two_le (by omega)⟩⟩
  · unfold Word.count
    omega
  · have hnext := hs.slots.nextSlot_le
    unfold FileStore.firstDescriptor Word.count
    omega

/-- A guest: a list of two segments, of sixty-five bytes and of one. -/
def crowdedGuest : Memory := (⟨Array.replicate 65 0, #[]⟩ : Memory).put 0 (Segment.encodeAll [⟨0, 65⟩, ⟨0, 1⟩])

/-- The heap is nearly full when the guest makes a file; its name is one byte of the list. -/
def crowdedCalls : List HeapCall :=
  fillingCalls 4294963128 ++ [.call (.call (.compute crowdedGuest)),
    .call (.call (.pathOpen 4 1 Interface.createFlag 16)), .call (.call (.compute crowdedGuest))]

/-- The store then. -/
def FileStore.crowded : FileStore :=
  ((((FileStore.filled 4294963128).poke pathBuffer (crowdedGuest.span 4 1)).withNewNode
    (freshFile "A")).withOpenFile 1).poke scratch (Bytes.ofNat 4 3)

lemma crowdedGuest_size : crowdedGuest.size = 65 := by
  rw [crowdedGuest, Memory.size_put, Memory.size, Array.size_replicate, Array.size_empty, Nat.mul_zero]

lemma crowdedGuest_path : crowdedGuest.span 4 1 = [65] := by decide +kernel

lemma crowdedGuest_segments : segmentsOf crowdedGuest 0 2 = [⟨0, 65⟩, ⟨0, 1⟩] := by decide +kernel

lemma pathOpen_filled : Host.pathOpen 4 1 Interface.createFlag 16 ((({} : Host).withStore (.filled 4294963128)).bind
    crowdedGuest) = .ok .success ((({} : Host).withStore .crowded).bind (crowdedGuest.put 16 (Bytes.ofNat 4 3))) := by
  have hbase : heapBase ≤ (FileStore.filled 4294963128).memory.size := by
    have hsize := FileStore.size_le_grown FileStore.named 4294963128
    exact Nat.le_trans (by decide) hsize.2
  have hname : nodePath (crowdedGuest.span 4 1) = "A" := by
    rw [crowdedGuest_path]
    decide
  have hpath : crowdedGuest.InRange 4 1 := by rw [Memory.InRange, crowdedGuest_size]; decide
  have hplace : crowdedGuest.InRange 16 4 := by rw [Memory.InRange, crowdedGuest_size]; decide
  have habsent : ((FileStore.filled 4294963128).poke pathBuffer (crowdedGuest.span 4 1)).lookup "A" = none := rfl
  have hnodes : (FileStore.filled 4294963128).nodes.length = 1 := rfl
  have hslot : (FileStore.filled 4294963128).opened.nextSlot + FileStore.firstDescriptor = 3 := rfl
  have hx := Host.pathOpen_of_absent (h := (({} : Host).withStore (.filled 4294963128)).bind crowdedGuest) hbase
    (by decide : 1 ≤ Interface.pathLimit) rfl hpath hname habsent (by decide : Interface.hasFlag Interface.createFlag
      Interface.createFlag = true) hplace
  rw [Host.bind_files, Host.withStore_store, hnodes, hslot, Host.bind_withStore, Host.withStore_withStore,
    Host.bind_bind] at hx
  rwa [FileStore.crowded]

lemma afterHeap_crowdedCalls :
    Host.afterHeap {} crowdedCalls = (({} : Host).withStore .crowded).bind crowdedGuest := by
  have hcompute (h : Host) : Op.after (HeapCall.call (.call (.compute crowdedGuest))).run h = h.bind crowdedGuest := rfl
  have hopen (h : Host) : Op.after (HeapCall.call (.call (.pathOpen 4 1 Interface.createFlag 16))).run h =
      Op.after (Host.pathOpen 4 1 Interface.createFlag 16) h := by
    show Op.after (do let _ ← FileCall.run (.pathOpen 4 1 Interface.createFlag 16)) h = _
    rw [bind_pure_comp, Op.after_map, FileCall.run, Op.after_map]
  rw [crowdedCalls, Host.afterHeap_append, afterHeap_fillingCalls (by decide), Host.afterHeap, List.foldl_cons,
    List.foldl_cons, List.foldl_cons, List.foldl_nil, hcompute, hopen, hcompute, Op.after_of_ok pathOpen_filled]
  rfl

/-- Sixty-five bytes for a file without a place, and it cannot have another. -/
lemma Host.overruns_of_top {h : Host} {m : Memory} {n : Node} {i : Nat} (hs : h.files.store.Packed)
    (hf : h.files.store.FileAt i n) (hn : n.capacity = 0) (htop : h.files.store.top = 4294967224)
    (hg : h.guest = some m) (hr : m.InRange 0 65) : h.Overruns i [⟨0, 65⟩, ⟨0, 1⟩] 0 0 := by
  have hgrown : FileStore.grownCapacity n 65 = 65 := by
    rw [FileStore.grownCapacity, hn]
    rfl
  have haligned : h.files.store.aligned = 4294967224 := by rw [FileStore.aligned, htop]
  have hc : h.files.store.CanHold n 65 := by
    intro _
    rw [hgrown, FileStore.Room, haligned, htop]
    decide
  have hrun := writeSegments_cons hs hf (s := ⟨0, 65⟩) (by decide) hg ⟨⟨m, hg, hr⟩, hc⟩
    (by decide : 0 + 65 < Word.count) []
  have hreserved : h.files.store.reserved i n 65 = (h.files.store.movedNode n 65, h.files.store.moved i n 65) := by
    rw [FileStore.reserved, if_neg (by omega), hgrown]
  have hmoved := (hs.refits_reserved hf hc).fileAt
  rw [hreserved] at hmoved
  refine ⟨[⟨0, 65⟩], ⟨0, 1⟩, [], (65, 65), _, rfl, hrun, ?_⟩
  have hlanded : h.landed i n m ⟨0, 65⟩ 0 =
      (h.files.store.moved i n 65).stored i (h.files.store.movedNode n 65) 0 (m.span 0 65) := by
    show (h.files.store.reserved i n 65).2.stored i (h.files.store.reserved i n 65).1 0 (m.span 0 65) = _
    rw [hreserved]
  rw [withStore_store, hlanded]
  refine ⟨_, FileStore.fileAt_stored hmoved, (Nat.lt_succ_self 65 :), ?_⟩
  have hend : (h.files.store.moved i n 65).top = h.files.store.aligned + 65 := rfl
  rw [FileStore.stored, FileStore.withNode_top, FileStore.poke_top, hend, haligned]
  decide

lemma crowded_overreaches (hs : FileStore.crowded.Packed) :
    ((({} : Host).withStore .crowded).bind crowdedGuest).Overreaches 3 0 2 := by
  have hlist : crowdedGuest.InRange 0 (2 * Segment.width) := by rw [Memory.InRange, crowdedGuest_size]; decide
  have hdata : crowdedGuest.InRange 0 65 := by rw [Memory.InRange, crowdedGuest_size]
  have hfile : FileStore.crowded.FileAt 1 (FileStore.freshFile "A") := ⟨rfl, rfl⟩
  have hlisted := hs.refits_poke_low hfile (Host.scratch_list_le (by decide : 2 * Segment.width ≤ _) crowdedGuest 0)
  refine ⟨⟨1, 0⟩, crowdedGuest, ⟨rfl, by decide, rfl, hlist⟩, ?_⟩
  rw [crowdedGuest_segments]
  refine ⟨by decide, Host.overruns_of_top (n := FileStore.freshFile "A") ?_ ?_ rfl ?_ rfl hdata⟩
  · rw [Host.listed_store]
    exact hlisted.packed
  · rw [Host.listed_store]
    exact hlisted.fileAt
  · rw [Host.listed_store, FileStore.poke_top]
    rfl

/-- The first segment alone can be written, and both cannot. -/
theorem fileCalls_safe_crowded : Op.Safe (Host.fileWrite 3 0 1 16) (Host.afterHeap {} crowdedCalls) ∧
    ¬ Op.Safe (Host.fileWrite 3 0 2 16) (Host.afterHeap {} crowdedCalls) := by
  obtain ⟨hs, htop⟩ := Host.laid_afterHeap (h := {}) rfl crowdedCalls
  rw [afterHeap_crowdedCalls] at hs htop
  obtain ⟨-, -, -, -, hwrite⟩ := fileCalls_safe {} crowdedCalls rfl afterHeap_crowdedCalls (by decide) (by decide)
    (by decide)
  rw [afterHeap_crowdedCalls]
  refine ⟨(hwrite 3 0 1 16).1.2 fun ho => ?_, fun hsafe => (hwrite 3 0 2 16).1.1 hsafe ?_⟩
  · exact absurd ((hwrite 3 0 1 16).2 ho) (by decide)
  · exact crowded_overreaches (hs.packed htop)

/-- A write whose first segment takes the heap to its last words is stuck at the second. -/
theorem exists_write_unsafe : ¬ ∀ (h : Host) (calls : List HeapCall) (d : Int) (list count out : Nat),
    h.files = .empty → (h.afterHeap calls).files.store.top + 8 ≤ Word.count →
    (h.afterHeap calls).files.store.nodes.length + 3 < 2 ^ 31 →
    (h.afterHeap calls).files.store.opened.entries.length + 3 < 2 ^ 31 →
    Op.Safe (Host.fileWrite d list count out) (h.afterHeap calls) := by
  intro hall
  obtain ⟨hs, htop⟩ := Host.laid_afterHeap (h := {}) rfl crowdedCalls
  have hsafe := hall {} crowdedCalls 3 0 2 16 rfl
  rw [afterHeap_crowdedCalls] at hs htop hsafe
  exact (Host.safe_fileWrite_iff hs htop 3 0 2 16).1 (hsafe (by decide) (by decide) (by decide))
    (crowded_overreaches (hs.packed htop))

end ToolchainHost
