import ToolchainHost.Proofs.Host.FileCalls

/-!
# Hosts that look alike

Two stores may number the same files differently and keep them at different places. Their users cannot tell.

* `FileStore.Matches`: what two stores have in common: what each path names, what each descriptor stands for, and
  which descriptors are given out next.
* `FileStore.Alike`: sound stores that match. Opening, closing, moving a position and rewriting a file keep them alike.
* `Host.Matches`, `Host.Alike`: the same for hosts, with the input that waits and the failure on record.
* `Host.WritesInside`, `Host.FindsRoom`: the writes whose effect does not depend on where the file lies.
* `Host.Alike.pathOpen`, `fileClose`, `fileRead`, `fileWrite`: on hosts that are alike, a call gives one answer and
  leaves hosts that are alike.
-/

namespace ToolchainHost

open Op (Lockstep)
open Interface (Errno)

namespace FileStore

/-- The stores hold the same files and have the same files open. -/
structure Matches (s t : FileStore) : Prop where
  lookup : t.lookup = s.lookup
  handle : t.handle = s.handle
  /-- New descriptors get the same numbers. -/
  shape : s.opened.SameShape t.opened

/-- Sound stores that match. -/
structure Alike (s t : FileStore) : Prop extends s.Matches t where
  left : s.Sound
  right : t.Sound

/-- The file `i` of one store is the file `j` of the other. -/
structure Twins (s t : FileStore) (i j : Nat) (n n' : Node) : Prop where
  left : s.FileAt i n
  right : t.FileAt j n'
  path_eq : n'.path = n.path
  span_eq : t.memory.span n'.address n'.size = s.memory.span n.address n.size

variable {s s' t t' : FileStore} {i j position : Nat} {n n' : Node} {path : String} {d : Int}
  {bytes : List UInt8}

lemma Twins.size_eq (h : s.Twins t i j n n') : n'.size = n.size := by
  simpa only [Memory.length_span] using congrArg List.length h.span_eq

namespace Alike

variable (ha : s.Alike t)

include ha

/-- Changes that open and close nothing keep stores alike if they leave the same files. -/
lemma of_opened (hs : s'.Sound) (ht : t'.Sound) (hl : t'.lookup = s'.lookup) (hh : t'.handle = s'.handle)
    (ho : s'.opened = s.opened) (ho' : t'.opened = t.opened) : s'.Alike t' := by
  refine ⟨⟨hl, hh, ?_⟩, hs, ht⟩
  rw [ho, ho']
  exact ha.shape

lemma of_looks (hs : s.Looks s') (ht : t.Looks t') : s'.Alike t' :=
  ha.of_opened hs.sound ht.sound (by rw [ht.lookup, ha.lookup, hs.lookup]) (by rw [ht.handle, ha.handle, hs.handle])
    hs.opened ht.opened

lemma of_revises (hs : s.Revises i path bytes s') (ht : t.Revises j path bytes t') : s'.Alike t' :=
  ha.of_opened hs.sound ht.sound (by rw [ht.lookup, ha.lookup, hs.lookup]) (by rw [ht.handle, ha.handle, hs.handle])
    hs.opened ht.opened

lemma poke_low {address : Nat} {data : List UInt8} (h : address + data.length ≤ heapBase) :
    (s.poke address data).Alike (t.poke address data) :=
  ha.of_looks (ha.left.looks_poke_low h) (ha.right.looks_poke_low h)

/-- Files with one path are twins. -/
lemma twins (hn : s.FileAt i n) (hn' : t.FileAt j n') (hp : n'.path = n.path) : s.Twins t i j n n' := by
  refine ⟨hn, hn', hp, ?_⟩
  have h := ha.left.lookup_path hn.1
  have h' := ha.right.lookup_path hn'.1
  rw [hp, ha.lookup, h, entry_of_file hn.2, entry_of_file hn'.2] at h'
  exact (Entry.file.inj (Option.some.inj h')).symm

/-- A descriptor is open in both stores, for twins and at one position, or in none. -/
theorem openFile_cases (d : Int) :
    (s.openFile? d = none ∧ t.openFile? d = none) ∨
    ∃ f f' n n', s.openFile? d = some f ∧ t.openFile? d = some f' ∧ f'.position = f.position ∧
      s.Twins t f.node f'.node n n' := by
  have hd : t.handle d = s.handle d := by rw [ha.handle]
  cases hf : s.openFile? d with
  | none => exact Or.inl ⟨rfl, ha.right.handle_eq_none.1 (hd.trans (ha.left.handle_eq_none.2 hf))⟩
  | some f =>
    obtain ⟨-, n, hn⟩ := ha.left.fileAt_of_open hf
    rw [handle_of_open hf hn.1] at hd
    cases hf' : t.openFile? d with
    | none =>
      rw [ha.right.handle_eq_none.2 hf'] at hd
      cases hd
    | some f' =>
      obtain ⟨-, n', hn'⟩ := ha.right.fileAt_of_open hf'
      rw [handle_of_open hf' hn'.1] at hd
      obtain ⟨hp, hposition⟩ := Prod.mk.inj (Option.some.inj hd)
      exact Or.inr ⟨f, f', n, n', rfl, rfl, hposition, ha.twins hn hn' hp⟩

/-! ### Opening and closing -/

/-- Twins are opened behind one descriptor. -/
lemma openNode (hn : s.Twins t i j n n') : Lockstep Alike Eq (FileStore.openNode i s) (FileStore.openNode j t) := by
  have hnext := ha.shape.nextSlot
  rw [openNode_apply, openNode_apply]
  refine .ok ⟨⟨?_, ?_, ha.shape.insert _ _⟩, ha.left.withOpenFile hn.left, ha.right.withOpenFile hn.right⟩
    (by rw [hnext])
  · exact ha.lookup
  · rw [ha.right.handle_withOpenFile hn.right, ha.left.handle_withOpenFile hn.left, ha.handle, hnext, hn.path_eq]

/-- A path is refused for one reason in both stores, or it is opened as twins. -/
theorem openTarget_cases (name : String) (flags : Nat) :
    (∃ e, openTarget name flags s = .ok (.error e) s ∧ openTarget name flags t = .ok (.error e) t) ∨
    ∃ i j n n' s' t', openTarget name flags s = .ok (.ok i) s' ∧ openTarget name flags t = .ok (.ok j) t' ∧
      s'.Alike t' ∧ s'.Twins t' i j n n' := by
  cases he : refusal (s.lookup name) flags with
  | some e =>
    have he' : refusal (t.lookup name) flags = some e := by rw [ha.lookup, he]
    exact Or.inl ⟨e, openTarget_of_refusal ha.left.nodup he, openTarget_of_refusal ha.right.nodup he'⟩
  | none =>
    have he' : refusal (t.lookup name) flags = none := by rw [ha.lookup, he]
    obtain ⟨i, n, s', hx, hs', hn, hp, hl, hh, ho⟩ := openTarget_of_not_refusal ha.left he
    obtain ⟨j, n', t', hx', ht', hn', hp', hl', hh', ho'⟩ := openTarget_of_not_refusal ha.right he'
    have hst : s'.Alike t' :=
      ha.of_opened hs' ht' (by rw [hl', hl, ha.lookup]) (by rw [hh', hh, ha.handle]) ho ho'
    exact Or.inr ⟨i, j, n, n', s', t', hx, hx', hst, hst.twins hn hn' (hp'.trans hp.symm)⟩

lemma close (d : Int) : Lockstep Alike Eq (FileStore.close d s) (FileStore.close d t) := by
  obtain ⟨hf, hf'⟩ | ⟨f, f', n, n', hf, hf', -⟩ := ha.openFile_cases d
  · rw [close_of_none hf, close_of_none hf']
    exact .ok ha rfl
  · obtain ⟨slot, hslot, hget⟩ := openFile?_eq_some.1 hf
    obtain ⟨slot', hslot', hget'⟩ := openFile?_eq_some.1 hf'
    obtain rfl := Option.some.inj (hslot.symm.trans hslot')
    rw [close_of_some hslot hget, close_of_some hslot hget']
    refine .ok ⟨⟨ha.lookup, ?_, ha.shape.erase slot⟩, ha.left.withErased hget, ha.right.withErased hget'⟩ rfl
    rw [handle_withErased hslot, handle_withErased hslot, ha.handle]

lemma setPosition (d : Int) (hp : position < Word.count) :
    Lockstep Alike Eq (FileStore.setPosition d position s) (FileStore.setPosition d position t) := by
  cases hd : slotOf? d with
  | none =>
    unfold FileStore.setPosition
    rw [hd]
    exact .ok ha rfl
  | some slot =>
    rw [setPosition_apply hd, setPosition_apply hd]
    refine .ok ⟨⟨ha.lookup, ?_, ha.shape.modify slot _ _⟩, ha.left.withPosition hp, ha.right.withPosition hp⟩ rfl
    rw [handle_withPosition_eq hd, handle_withPosition_eq hd, ha.handle]

end Alike

end FileStore

/-- The failure is that the heap has no room. -/
def Failure.deniesRoom : Failure → Bool
  | .aborted _ | .crash => true
  | _ => false

lemma FileStore.deniesRoom_denial (s : FileStore) (size : Nat) : (s.denial size).deniesRoom = true := by
  unfold denial
  split_ifs
  · rfl
  · rfl

namespace Host

open FileStore (deniesRoom_denial)

/-- A write to a descriptor starts inside of its file. -/
def WritesInside (h : Host) (d : Int) : Prop :=
  ∀ f ∈ h.files.store.openFile? d, ∀ n ∈ h.files.store.nodes[f.node]?, f.position ≤ n.size

instance (h : Host) (d : Int) : Decidable (h.WritesInside d) := inferInstanceAs (Decidable (∀ f ∈ _, _))

/-- An operation does not fail for want of room. -/
def FindsRoom {α : Type} (x : Op Host α) (h : Host) : Prop := ∀ e h', x h = .error e h' → e.deniesRoom = false

instance {α : Type} (x : Op Host α) (h : Host) : Decidable (FindsRoom x h) :=
  match hx : x h with
  | .ok a t => isTrue fun e h' he => by
    rw [hx] at he
    cases he
  | .error e t =>
    if hd : e.deniesRoom = false then
      isTrue fun e' h' he => by
        rw [hx] at he
        cases he
        exact hd
    else isFalse fun hall => hd (hall e t hx)

/-- The hosts hold the same files, have the same files open and the same input waiting, and the same failure is on
record. -/
structure Matches (h h' : Host) : Prop where
  store : h.files.store.Matches h'.files.store
  stdin : h'.stdin = h.stdin
  pending : h'.pending = h.pending
  fault : h'.fault = h.fault

/-- Hosts with sound stores that match, bound to guests with the same memory. -/
structure Alike (h h' : Host) : Prop where
  store : h.files.store.Alike h'.files.store
  stdin : h'.stdin = h.stdin
  pending : h'.pending = h.pending
  fault : h'.fault = h.fault
  guest : h'.guest = h.guest

variable {α : Type} {h h' : Host} {s t : FileStore} {m : Memory} {source source' count : Nat}

namespace Alike

variable (ha : h.Alike h')

include ha

lemma withStore (hs : s.Alike t) : (h.withStore s).Alike (h'.withStore t) :=
  ⟨hs, ha.stdin, ha.pending, ha.fault, ha.guest⟩

lemma withMemory (m : Memory) : Alike { h with guest := some m } { h' with guest := some m } :=
  ⟨ha.store, ha.stdin, ha.pending, ha.fault, rfl⟩

lemma post (event event' : Event) : (h.post event).Alike (h'.post event') :=
  ⟨ha.store, ha.stdin, ha.pending, ha.fault, ha.guest⟩

lemma emit (text text' : String) : (h.emit text).Alike (h'.emit text') := by
  unfold Host.emit
  split_ifs
  · exact ha
  · exact ⟨ha.store, ha.stdin, ha.pending, ha.fault, ha.guest⟩
  · exact ⟨ha.store, ha.stdin, ha.pending, ha.fault, ha.guest⟩
  · exact ha.post _ _

lemma onStore {α' : Type} {P : α → α' → Prop} {x : Op FileStore α} {y : Op FileStore α'}
    (hx : Lockstep FileStore.Alike P (x h.files.store) (y h'.files.store)) :
    Lockstep Alike P (Host.onStore x h) (Host.onStore y h') := by
  have hfiles : Lockstep (fun fs fs' => fs.store.Alike fs'.store) P (FileSystem.onStore x h.files)
      (FileSystem.onStore y h'.files) := hx.onPart fun _ _ hst => hst
  unfold Host.onStore onFiles
  exact hfiles.onPart fun _ _ hst => ⟨hst, ha.stdin, ha.pending, ha.fault, ha.guest⟩

/-! ### The terminal -/

lemma guestMemory : Lockstep Alike Eq (Host.guestMemory h) (Host.guestMemory h') := by
  have hx : ∀ h, Host.guestMemory h = (liftM (attachedGuest h.guest) : Op Host Memory) h := fun _ => rfl
  rw [hx, hx, ha.guest]
  exact Op.lockstep_lift _ ha

lemma writeGuest (address : Nat) (data : List UInt8) :
    Lockstep Alike Eq (Host.writeGuest address data h) (Host.writeGuest address data h') :=
  ha.guestMemory.andThen fun _ _ _ ha => (Op.lockstep_lift _ ha).andThen fun m _ _ ha => .ok (ha.withMemory m) rfl

/-- Writing to the terminal. What is shown there may differ. -/
theorem write (d : Int) (list count out : Nat) :
    Lockstep Alike Eq (Host.write d list count out h) (Host.write d list count out h') := by
  unfold Host.write
  dsimp only
  split_ifs
  · exact .error _ ha
  refine ha.guestMemory.andThen fun _ _ _ ha => (Op.lockstep_lift _ ha).andThen fun _ _ _ ha =>
    (Op.lockstep_lift _ ha).andThen fun payload _ _ ha => ?_
  have hemit {h h' : Host} (ha : h.Alike h') : Lockstep Alike Eq
      ((modify fun h => h.emit (textOf h.rewriter payload) : Op Host PUnit) h)
      ((modify fun h => h.emit (textOf h.rewriter payload) : Op Host PUnit) h') := .ok (ha.emit _ _) rfl
  refine (hemit ha).andThen fun _ _ _ ha => (ha.writeGuest _ _).andThen fun _ _ _ ha => ?_
  exact Op.lockstep_pure _ ha

lemma receive : Lockstep Alike Eq (Host.receive h) (Host.receive h') := by
  unfold Host.receive
  rw [Op.get_bind_apply, Op.get_bind_apply, ha.stdin]
  cases h.stdin with
  | none => exact .ok ha rfl
  | some stdin =>
    dsimp only
    rw [Op.modify_bind_apply, Op.modify_bind_apply]
    have ha : Alike { h.post .readStdinRequest with stdin := some stdin.wait.2 }
      { h'.post .readStdinRequest with stdin := some stdin.wait.2 } :=
      ⟨ha.store, rfl, ha.pending, ha.fault, ha.guest⟩
    refine (Op.lockstep_lift _ ha).andThen fun payload _ _ ha => .ok ⟨ha.store, ha.stdin, ?_, ha.fault, ha.guest⟩ rfl
    exact congrArg (· ++ payload) ha.pending

omit ha in
lemma scatter (ha : h.Alike h') (segments : List Segment) (total : Nat) :
    Lockstep Alike Eq (Host.scatter segments total h) (Host.scatter segments total h') := by
  induction segments generalizing h h' total with
  | nil => exact .ok ha rfl
  | cons s rest ih =>
    unfold Host.scatter
    rw [Op.get_bind_apply, Op.get_bind_apply, ha.pending]
    split_ifs
    · exact .ok ha rfl
    · dsimp only
      rw [Op.set_bind_apply, Op.set_bind_apply]
      have ha : Alike { h with pending := h.pending.drop s.length } { h' with pending := h.pending.drop s.length } :=
        ⟨ha.store, ha.stdin, rfl, ha.fault, ha.guest⟩
      exact (ha.writeGuest _ _).andThen fun _ _ _ ha => (Op.lockstep_lift _ ha).andThen fun _ _ _ ha => ih ha _

/-- Reading from the terminal. -/
theorem read (d : Int) (list count out : Nat) :
    Lockstep Alike Eq (Host.read d list count out h) (Host.read d list count out h') := by
  have hrest {h h' : Host} (ha : h.Alike h') (segments : List Segment) : Lockstep Alike Eq
      ((do
        let total ← Host.scatter segments 0
        Host.writeGuest out (Bytes.ofNat 4 total)
        return total : Op Host Nat) h)
      ((do
        let total ← Host.scatter segments 0
        Host.writeGuest out (Bytes.ofNat 4 total)
        return total : Op Host Nat) h') :=
    (ha.scatter segments 0).andThen fun _ _ _ ha => (ha.writeGuest _ _).andThen fun _ _ _ ha => Op.lockstep_pure _ ha
  unfold Host.read
  dsimp only
  split_ifs
  · exact .error _ ha
  refine ha.guestMemory.andThen fun _ _ _ ha => (Op.lockstep_lift _ ha).andThen fun segments h h' ha => ?_
  rw [Op.get_bind_apply, Op.get_bind_apply, ha.pending]
  split_ifs
  · exact ha.receive.andThen fun _ _ _ ha => hrest ha segments
  · exact hrest ha segments

/-! ### Between guest and store -/

/-- The guests have a place, or neither has it. -/
lemma inRange_cases (address count : Nat) :
    (∃ m, h.guest = some m ∧ h'.guest = some m ∧ m.InRange address count) ∨
    (∀ m, h.guest = some m → ¬ m.InRange address count) ∧ (∀ m, h'.guest = some m → ¬ m.InRange address count) ∧
      outOfReach h'.guest address count = outOfReach h.guest address count := by
  by_cases hn : ∀ m, h.guest = some m → ¬ m.InRange address count
  · exact Or.inr ⟨hn, ha.guest ▸ hn, by rw [ha.guest]⟩
  · push Not at hn
    obtain ⟨m, hg, hr⟩ := hn
    exact Or.inl ⟨m, hg, ha.guest.trans hg, hr⟩

/-- The same bytes are copied to the guests from wherever they lie. -/
lemma copyOut (hs : source + count ≤ h.files.store.memory.size) (hs' : source' + count ≤ h'.files.store.memory.size)
    (hspan : h'.files.store.memory.span source' count = h.files.store.memory.span source count) (target : Nat) :
    Lockstep Alike Eq (Host.copyOut target source count h) (Host.copyOut target source' count h') := by
  obtain ⟨m, hg, hg', hr⟩ | ⟨hn, hn', he⟩ := ha.inRange_cases target count
  · rw [copyOut_of_inRange hs hg hr, copyOut_of_inRange hs' hg' hr, hspan]
    exact .ok (ha.withMemory _) rfl
  · rw [copyOut_of_not_inRange hs hn, copyOut_of_not_inRange hs' hn', he]
    exact .error _ ha

lemma storeWord (out value : Nat) :
    Lockstep Alike Eq (Host.storeWord out value h) (Host.storeWord out value h') := by
  have hs := ha.store.left
  have hs' := ha.store.right
  obtain ⟨hsize, hspan⟩ := span_scratchWord hs.base_le_size value
  obtain ⟨hsize', hspan'⟩ := span_scratchWord hs'.base_le_size value
  rw [storeWord_eq hs.base_le_size, storeWord_eq hs'.base_le_size]
  have hlow := ha.withStore (ha.store.of_looks (looks_scratchWord hs value) (looks_scratchWord hs' value))
  exact hlow.copyOut hsize hsize' (hspan'.trans hspan.symm) out

lemma listed (hc : count * Segment.width ≤ FileStore.scratchLimit) (m : Memory) (list : Nat) :
    (h.listed m list count).Alike (h'.listed m list count) :=
  ha.withStore (ha.store.poke_low (scratch_list_le hc ..))

/-! ### Opening and closing -/

/-- Opening a path gives one answer, and one descriptor. -/
theorem pathOpen (path length flags out : Nat) :
    Lockstep Alike Eq (Host.pathOpen path length flags out h) (Host.pathOpen path length flags out h') := by
  by_cases hl : Interface.pathLimit < length
  · rw [pathOpen_of_lt hl, pathOpen_of_lt hl]
    exact .ok ha rfl
  have hle := Nat.not_lt.1 hl
  obtain ⟨m, hg, hg', hr⟩ | ⟨hn, hn', he⟩ := ha.inRange_cases path length
  · have hs := ha.store.of_looks (looks_staging ha.store.left hle m path) (looks_staging ha.store.right hle m path)
    rw [pathOpen_eq ha.store.left.base_le_size hle hg hr, pathOpen_eq ha.store.right.base_le_size hle hg' hr]
    have ha : (h.staging m path length).Alike (h'.staging m path length) := ha.withStore hs
    obtain ⟨e, hx, hx'⟩ | ⟨i, j, n, n', s, t, hx, hx', hst, hnode⟩ :=
      hs.openTarget_cases (nodePath (m.span path length)) flags
    · rw [Op.bind_of_ok (onStore_of_ok hx), Op.bind_of_ok (onStore_of_ok hx')]
      exact .ok ha rfl
    · rw [Op.bind_of_ok (onStore_of_ok hx), Op.bind_of_ok (onStore_of_ok hx')]
      have ha := ha.withStore hst
      refine (ha.onStore (hst.openNode hnode)).andThen fun d _ _ ha => ?_
      exact (ha.storeWord out d).andThen fun _ _ _ ha => .ok ha rfl
  · rw [pathOpen_of_not_inRange hle hn, pathOpen_of_not_inRange hle hn', he]
    exact .error _ ha

theorem fileClose (d : Int) : Lockstep Alike Eq (Host.fileClose d h) (Host.fileClose d h') :=
  ha.onStore (ha.store.close d)

/-! ### Reading -/

/-- Moving the position and handing over the number of bytes, which ends a read or a write. -/
lemma settle (d : Int) (out : Nat) {position : Nat} (hp : position < Word.count) (total : Nat) : Lockstep Alike Eq
    ((do Host.onStore (FileStore.setPosition d position); Host.storeWord out total; return .success : Op Host Errno) h)
    ((do Host.onStore (FileStore.setPosition d position); Host.storeWord out total; return .success : Op Host Errno)
      h') :=
  (ha.onStore (ha.store.setPosition d hp)).andThen fun _ _ _ ha =>
    (ha.storeWord out total).andThen fun _ _ _ ha => .ok ha rfl

omit ha in
/-- Twins are read alike. -/
lemma readSegments {i j position total : Nat} {n n' : Node} (ha : h.Alike h')
    (hn : h.files.store.Twins h'.files.store i j n n') (hp : position < Word.count) (htotal : total ≤ position)
    (segments : List Segment) :
    Lockstep Alike (fun a b => a = b ∧ a.1 < Word.count) (Host.readSegments n segments position total h)
      (Host.readSegments n' segments position total h') := by
  have hs := ha.store.left
  have hs' := ha.store.right
  have hsize := hn.size_eq
  induction segments generalizing h h' position total with
  | nil => exact .ok ha ⟨rfl, hp⟩
  | cons s rest ih =>
    by_cases hc : min s.length (n.size - position) = 0
    · rw [readSegments_stop hc, readSegments_stop (by rwa [hsize])]
      exact .ok ha ⟨rfl, hp⟩
    have hc' : min s.length (n'.size - position) ≠ 0 := by rwa [hsize]
    have hlt : position + min s.length (n.size - position) < Word.count := by
      obtain ⟨h1, -, h3⟩ := hs.placed hn.left
      have h4 := hs.top_lt
      omega
    obtain ⟨m, hg, hg', hr⟩ | ⟨hout, hout', he⟩ := ha.inRange_cases s.address (min s.length (n.size - position))
    · have hspan : h'.files.store.memory.span (n'.address + position) (min s.length (n.size - position)) =
          h.files.store.memory.span (n.address + position) (min s.length (n.size - position)) := by
        rw [← span_slice _ n.address n.size position _ (Nat.min_le_right ..),
          ← span_slice _ n'.address n'.size position _ (by rw [hsize]; exact Nat.min_le_right ..), hn.span_eq]
      rw [readSegments_cons_of_inRange (hs.backs hn.left) hc htotal hg hr,
        readSegments_cons_of_inRange (hs'.backs hn.right) hc' htotal hg' (by rwa [hsize]), hsize, hspan]
      exact ih (ha.withMemory _) hn hlt (by omega) hs hs'
    · rw [readSegments_cons_of_not_inRange (hs.backs hn.left) hc hout,
        readSegments_cons_of_not_inRange (hs'.backs hn.right) hc' (by rwa [hsize]), hsize, he]
      exact .error _ ha

/-- **Reading** gives one answer and the same bytes. -/
theorem fileRead (d : Int) (list count out : Nat) :
    Lockstep Alike Eq (Host.fileRead d list count out h) (Host.fileRead d list count out h') := by
  by_cases hd : d = 0
  · subst hd
    unfold Host.fileRead
    exact (ha.read 0 list count out).andThen fun _ _ _ ha => .ok ha rfl
  have hs := ha.store.left
  have hs' := ha.store.right
  obtain ⟨hf, hf'⟩ | ⟨f, f', n, n', hf, hf', hposition, hn⟩ := ha.store.openFile_cases d
  · rw [fileRead_of_none hd hf, fileRead_of_none hd hf']
    exact .ok ha rfl
  by_cases hl : FileStore.scratchLimit < count * Segment.width
  · rw [fileRead_of_lt hd hf hl, fileRead_of_lt hd hf' hl]
    exact .ok ha rfl
  have hc := Nat.not_lt.1 hl
  obtain ⟨m, hg, hg', hr⟩ | ⟨hout, hout', he⟩ := ha.inRange_cases list (count * Segment.width)
  · have hb : h.Begins d list count f m := ⟨hf, hc, hg, hr⟩
    have hb' : h'.Begins d list count f' m := ⟨hf', hc, hg', hr⟩
    have ha := ha.listed hc m list
    have hn := ha.store.twins (FileStore.fileAt_poke.2 hn.left) (FileStore.fileAt_poke.2 hn.right) hn.path_eq
    rw [hb.fileRead_eq hd hs.base_le_size hn.left, hb'.fileRead_eq hd hs'.base_le_size hn.right, hposition]
    refine (ha.readSegments hn (hs.fileAt_of_open hf).1 (Nat.zero_le _) _).bind ?_
    rintro ⟨position, total⟩ _ h₁ h₂ ⟨rfl, hlt⟩ ha
    exact ha.settle d out hlt total
  · rw [fileRead_of_not_inRange hd hf hc hout, fileRead_of_not_inRange hd hf' hc hout', he]
    exact .error _ ha

/-! ### Writing -/

omit ha in
/-- A segment that lands at a position inside of twins leaves twins, and the next position is inside of them. -/
lemma landed {i j position : Nat} {n n' : Node} {seg : Segment} (ha : h.Alike h')
    (hn : h.files.store.Twins h'.files.store i j n n') (hp : position ≤ n.size) (hl : h.Lands n seg position)
    (hl' : h'.Lands n' seg position) (m : Memory) :
    (h.withStore (h.landed i n m seg position)).Alike (h'.withStore (h'.landed j n' m seg position)) ∧
      ∃ b b', (h.landed i n m seg position).Twins (h'.landed j n' m seg position) i j b b' ∧
        position + seg.length ≤ b.size := by
  have hp' : position ≤ n'.size := by rwa [hn.size_eq]
  have hr := revises_landed ha.store.left hn.left hl m
  have hr' := revises_landed ha.store.right hn.right hl' m
  rw [FileStore.residue_of_le hp, List.append_nil] at hr
  rw [FileStore.residue_of_le hp', List.append_nil, hn.span_eq, hn.path_eq] at hr'
  have hst := ha.store.of_revises hr hr'
  obtain ⟨b, hb, hpath, hbytes⟩ := hr.fileAt
  obtain ⟨b', hb', hpath', -⟩ := hr'.fileAt
  refine ⟨ha.withStore hst, b, b', hst.twins hb hb' (hpath'.trans hpath.symm), ?_⟩
  have hlen := congrArg List.length hbytes
  rw [Memory.length_span, Bytes.length_splice (by rwa [Memory.length_span]), Memory.length_span,
    Memory.length_span] at hlen
  omega

omit ha in
/-- Twins are written alike from a position inside of them, as long as there is room in both stores. -/
lemma writeSegments {i j position total : Nat} {n n' : Node} {segments : List Segment} (ha : h.Alike h')
    (hn : h.files.store.Twins h'.files.store i j n n') (hp : position ≤ n.size)
    (hstop : position + Segment.total segments < Word.count) (htotal : total ≤ position)
    (hroom : FindsRoom (Host.writeSegments i segments position total) h)
    (hroom' : FindsRoom (Host.writeSegments j segments position total) h') :
    Lockstep Alike (fun a b => a = b ∧ a.1 < Word.count) (Host.writeSegments i segments position total h)
      (Host.writeSegments j segments position total h') := by
  induction segments generalizing h h' n n' position total with
  | nil => exact .ok ha ⟨rfl, hstop⟩
  | cons s rest ih =>
    have hs := ha.store.left
    have hs' := ha.store.right
    rw [Segment.total] at hstop
    have hlt : position + s.length < Word.count := by omega
    have hc : h.files.store.CanHold n (position + s.length) := by
      by_contra hc
      have hdenied := hroom _ _ (writeSegments_cons_of_not_canHold hn.left hlt hc rest total)
      rw [deniesRoom_denial] at hdenied
      cases hdenied
    have hc' : h'.files.store.CanHold n' (position + s.length) := by
      by_contra hc'
      have hdenied := hroom' _ _ (writeSegments_cons_of_not_canHold hn.right hlt hc' rest total)
      rw [deniesRoom_denial] at hdenied
      cases hdenied
    obtain ⟨m, hg, hg', hr⟩ | ⟨hout, hout', he⟩ := ha.inRange_cases s.address s.length
    · have hl : h.Lands n s position := ⟨⟨m, hg, hr⟩, hc⟩
      have hl' : h'.Lands n' s position := ⟨⟨m, hg', hr⟩, hc'⟩
      obtain ⟨ha, b, b', hb, hp⟩ := ha.landed hn hp hl hl' m
      have hx := writeSegments_cons hs.packed hn.left hlt hg hl (by omega : total + s.length < Word.count) rest
      have hx' := writeSegments_cons hs'.packed hn.right hlt hg' hl' (by omega : total + s.length < Word.count) rest
      unfold FindsRoom at hroom hroom'
      rw [hx] at hroom ⊢
      rw [hx'] at hroom' ⊢
      exact ih ha hb hp (by omega) (by omega) hroom hroom'
    · rw [writeSegments_cons_of_not_inRange hs.packed hn.left hlt hc hout,
        writeSegments_cons_of_not_inRange hs'.packed hn.right hlt hc' hout', he]
      exact .error _ (ha.withStore (ha.store.of_looks (FileStore.holds_reserved hs hn.left hc).looks
        (FileStore.holds_reserved hs' hn.right hc').looks))

/-- **Writing** gives one answer and writes the same bytes, if it starts inside of its file and finds room. -/
theorem fileWrite {d : Int} {list count out : Nat} (hin : h.WritesInside d)
    (hroom : FindsRoom (Host.fileWrite d list count out) h) (hroom' : FindsRoom (Host.fileWrite d list count out) h') :
    Lockstep Alike Eq (Host.fileWrite d list count out h) (Host.fileWrite d list count out h') := by
  cases hd : Interface.isStandard d with
  | true =>
    unfold Host.fileWrite
    rw [if_pos hd]
    exact (ha.write d list count out).andThen fun _ _ _ ha => .ok ha rfl
  | false =>
  have hs := ha.store.left
  have hs' := ha.store.right
  obtain ⟨hf, hf'⟩ | ⟨f, f', n, n', hf, hf', hposition, hn⟩ := ha.store.openFile_cases d
  · rw [fileWrite_of_none hd hf, fileWrite_of_none hd hf']
    exact .ok ha rfl
  by_cases hl : FileStore.scratchLimit < count * Segment.width
  · rw [fileWrite_of_lt hd hf hl, fileWrite_of_lt hd hf' hl]
    exact .ok ha rfl
  have hc := Nat.not_lt.1 hl
  obtain ⟨m, hg, hg', hr⟩ | ⟨hout, hout', he⟩ := ha.inRange_cases list (count * Segment.width)
  · have hb : h.Begins d list count f m := ⟨hf, hc, hg, hr⟩
    have hb' : h'.Begins d list count f' m := ⟨hf', hc, hg', hr⟩
    have ha := ha.listed hc m list
    have hp := hin f hf n hn.left.1
    have hn := ha.store.twins (FileStore.fileAt_poke.2 hn.left) (FileStore.fileAt_poke.2 hn.right) hn.path_eq
    unfold FindsRoom at hroom hroom'
    rw [hb.fileWrite_eq hd hs.base_le_size] at hroom ⊢
    rw [hb'.fileWrite_eq hd hs'.base_le_size, hposition] at hroom' ⊢
    by_cases hst : staysAddressable f.position (segmentsOf m list count) = true
    · have hif : ¬ (!staysAddressable f.position (segmentsOf m list count)) = true := by simp [hst]
      rw [if_neg hif] at hroom hroom' ⊢
      rw [if_neg hif]
      have hstop := (staysAddressable_iff (hs.fileAt_of_open hf).1).1 hst
      refine (ha.writeSegments hn hp hstop (Nat.zero_le _) (fun e u hx => hroom e u (Op.bind_of_error hx))
        fun e u hx => hroom' e u (Op.bind_of_error hx)).bind ?_
      rintro ⟨position, total⟩ _ h₁ h₂ ⟨rfl, hlt⟩ ha
      exact ha.settle d out hlt total
    · have hif : (!staysAddressable f.position (segmentsOf m list count)) = true := by simpa using hst
      rw [if_pos hif, if_pos hif]
      exact .ok ha rfl
  · rw [fileWrite_of_not_inRange hd hf hc hout, fileWrite_of_not_inRange hd hf' hc hout', he]
    exact .error _ ha

end Alike

end Host

end ToolchainHost
