import ToolchainHost.Proofs.Host.Reads

/-!
# Places of the heap

A place is handed out behind those handed out before, at the next address divisible by eight. That address, and the end
of the place, have to be words.

* `HeapCall`: everything that is done to the store, and room made in an open file.
* `FileStore.NeedsPlace`: a file that is made or replaced, and cannot lie where it is.
* `allocation_cases`: whatever was done before, a place is handed out, or refused, or the sum for its address leaves the
  range of words.
* `exists_allocation_broken`: the last of these happens.
-/

namespace ToolchainHost

open FileStore (allocate addFileNode reserve grownCapacity heapBase pathBuffer)

/-! ### Histories -/

/-- What is done to the store: what guests and the host do, and room made in the file of a descriptor. -/
inductive HeapCall where
  | call (c : StoreCall)
  | reserve (d : Int) (needed : Nat)

/-- How the host does it. -/
def HeapCall.run : HeapCall → Op Host Unit
  | call c => c.run
  | reserve d needed => do
    match (← get).files.store.openFile? d with
    | some f => let _ ← Host.onStore (FileStore.reserve f.node needed)
    | none => return

namespace Host

variable {h : Host}

/-- The host after everything that was done, also where it failed. -/
def afterHeap (h : Host) (calls : List HeapCall) : Host := calls.foldl (fun h c => Op.after c.run h) h

lemma afterHeap_append (h : Host) (before after : List HeapCall) :
    h.afterHeap (before ++ after) = (h.afterHeap before).afterHeap after := List.foldl_append

/-- The heap has its layout, and it ends at an address that is a word. -/
def KeepsHeap (h h' : Host) : Prop := SustainsStore h h' ∧ Bounded h h'

instance : IsPreorder Host KeepsHeap where
  refl h := ⟨refl_of SustainsStore h, refl_of Bounded h⟩
  trans _ _ _ h1 h2 := ⟨trans_of SustainsStore h1.1 h2.1, trans_of Bounded h1.2 h2.2⟩

/-- **One step** keeps the heap. -/
theorem keepsHeap_run (c : HeapCall) : Op.Within KeepsHeap c.run := by
  cases c with
  | call c => exact fun h => ⟨within_run c h, bounded_run c h⟩
  | reserve d needed =>
    intro h
    have hrun : HeapCall.run (.reserve d needed) h = (match h.files.store.openFile? d with
        | some f => do let _ ← onStore (reserve f.node needed)
        | none => return : Op Host Unit) h := rfl
    rw [Op.after_congr hrun]
    cases hopen : h.files.store.openFile? d with
    | none => exact refl_of KeepsHeap h
    | some f =>
      dsimp only
      rw [Op.after_bind_pure]
      refine ⟨fun hs => ?_, allows_bounded.within_onStore (FileStore.allows_bounded.within_reserve f.node needed) h⟩
      obtain ⟨slot, -, hget⟩ := FileStore.openFile?_eq_some.1 hopen
      obtain ⟨n, hn, -⟩ := hs.opened hget
      have howns : FileStore.Owns (fun _ => True) h.files.store f.node n :=
        ⟨hn, fun _ _ _ => trivial, fun _ _ => trivial⟩
      have hends : Op.Ends (onStore (reserve f.node needed)) h (fun _ => Moves (fun _ => True) h)
          (Moves (fun _ => True) h) :=
        onStore_ends (FileStore.reserve_ends hs howns needed) (fun _ _ ht => ht.1) fun _ ht => ht
      exact ⟨hends.after.laid, hends.after.grows⟩

/-- Any number of steps. -/
theorem keepsHeap_afterHeap (h : Host) (calls : List HeapCall) : KeepsHeap h (h.afterHeap calls) := by
  induction calls generalizing h with
  | nil => exact refl_of KeepsHeap h
  | cons c rest ih => exact trans_of KeepsHeap (keepsHeap_run c h) (ih _)

lemma laid_afterHeap (hf : h.files = .empty) (calls : List HeapCall) :
    (h.afterHeap calls).files.store.Laid ∧ (h.afterHeap calls).files.store.top < Word.count := by
  have hempty : h.files.store = .empty := congrArg FileSystem.store hf
  obtain ⟨hlaid, hbounded⟩ := h.keepsHeap_afterHeap calls
  constructor
  · refine (hlaid ?_).1
    rw [hempty]
    exact FileStore.laid_empty
  · apply hbounded
    rw [hempty]
    exact FileStore.sound_empty.top_lt

/-- The end of the heap moves upwards only. -/
lemma top_le_afterHeap (hf : h.files = .empty) (before after : List HeapCall) :
    (h.afterHeap before).files.store.top ≤ (h.afterHeap (before ++ after)).files.store.top := by
  rw [afterHeap_append]
  exact ((keepsHeap_afterHeap _ after).1 (laid_afterHeap hf before).1).2.top_le

end Host

/-! ### Places for files -/

namespace FileStore

variable {s t : FileStore} {i length size address : Nat} {n : Node} {path : String}

/-- A file of `size` bytes at a path needs a place: there is none yet, or its place is smaller. -/
def NeedsPlace (s : FileStore) (path : String) (size : Nat) : Prop :=
  s.indexOf? path = none ∨ ∃ i n, s.indexOf? path = some i ∧ s.FileAt i n ∧ n.capacity < size

/-- What is handed out. -/
lemma allocate_place (hs : s.Laid) (h : allocate size s = .ok address t) :
    8 ∣ address ∧ s.top ≤ address ∧ address + size < Word.count ∧ t.top = address + size ∧ t.top ≤ t.memory.size ∧
      t.nodes = s.nodes ∧ t.opened = s.opened ∧ ∀ k, t.memory.byte k = s.memory.byte k := by
  obtain ⟨hr, rfl, rfl⟩ := allocate_eq_ok.1 h
  have hg : Advances (fun _ => False) s (s.grown size) := advances_grown hs size
  exact ⟨Nat.dvd_mul_left .., s.top_le_aligned, hr.2, grown_top .., hg.laid.top_le, grown_nodes .., grown_opened ..,
    grown_byte s size⟩

lemma allocate_eq_crash : allocate size s = .error .crash s ↔ Word.count ≤ s.top + 7 := by
  by_cases hr : s.Room size
  · rw [allocate_of_room hr]
    have := hr.1
    refine iff_of_false (fun h => by cases h) (by omega)
  · rw [allocate_of_not_room hr, denial]
    split_ifs with htop
    · exact iff_of_false (fun h => by cases h) (by omega)
    · exact iff_of_true rfl (by omega)

section NeedsPlace

variable (hp : s.stagedPath length = .ok path) (hw : s.NeedsPlace path size)

include hp hw

/-- A file that needs a place asks for one before anything changes. -/
lemma addFileNode_eq_allocate : ∃ f : Nat → Op FileStore Nat,
    addFileNode length size s = (allocate size >>= f : Op FileStore Nat) s ∧ ∀ address t, t.nodes = s.nodes →
      ∃ i u, f address t = .ok (i + 1) u ∧ u.FileAt i ⟨path, .file, address, size, size⟩ ∧ u.memory = t.memory ∧
        u.top = t.top ∧ u.opened = t.opened := by
  obtain hi | ⟨i, n, hi, hf, hc⟩ := hw
  · refine ⟨fun address => insertNode ⟨path, .file, address, size, size⟩, ?_, fun address t ht => ?_⟩
    · simp only [addFileNode, Op.get_bind_apply, hp, Op.lift_ok_bind, hi]
    · exact ⟨_, _, insertNode_apply .., fileAt_withNewNode.2 (Or.inr ⟨rfl, rfl, rfl⟩), rfl, rfl, rfl⟩
  · refine ⟨fun address => do setNode i ⟨path, .file, address, size, size⟩; return i + 1, ?_, fun address t ht => ?_⟩
    · have hk : ¬ n.kind = .directory := by rw [hf.2]; decide
      simp only [addFileNode, Op.get_bind_apply, hp, Op.lift_ok_bind, hi]
      rw [Op.bind_of_ok (nodeAt_of_some hf.1), if_neg hk, if_neg (Nat.not_le.2 hc)]
    · have hft : t.FileAt i n := ⟨ht ▸ hf.1, hf.2⟩
      exact ⟨i, _, rfl, (fileAt_withNode hft rfl).2 (Or.inl ⟨rfl, rfl⟩), rfl, rfl, rfl⟩

lemma addFileNode_of_room (hr : s.Room size) : ∃ i u, addFileNode length size s = .ok (i + 1) u ∧
    u.FileAt i ⟨path, .file, s.aligned, size, size⟩ ∧ u.memory = (s.grown size).memory ∧ u.top = s.aligned + size := by
  obtain ⟨f, hx, hf⟩ := addFileNode_eq_allocate hp hw
  obtain ⟨i, u, hu, hfile, hmemory, htop, -⟩ := hf s.aligned (s.grown size) (grown_nodes ..)
  exact ⟨i, u, by rw [hx, Op.bind_of_ok (allocate_of_room hr), hu], hfile, hmemory, htop⟩

lemma addFileNode_of_not_room (hr : ¬ s.Room size) : addFileNode length size s = .error (s.denial size) s := by
  obtain ⟨f, hx, -⟩ := addFileNode_eq_allocate hp hw
  rw [hx, Op.bind_of_error (allocate_of_not_room hr)]

end NeedsPlace

end FileStore

/-! ### The result -/

/-- **What becomes of a place.** Whatever was done before, what is handed out ends at an address that is a word, in
memory, and that end moves upwards only. A place that is handed out lies at an address divisible by eight and behind
what was handed out before, ends at an address that is a word, and is in memory, which keeps its bytes. Where there is
no room nothing changes, and the answer is that the store gives up, unless the end of the heap is one of the last seven
words: then the sum for the address is no word. Files that are made, and files that grow, ask for their places before
anything else changes. -/
theorem allocation_cases (h : Host) (calls : List HeapCall) (hf : h.files = .empty) {s : FileStore}
    (hs : (h.afterHeap calls).files.store = s) :
    (heapBase ≤ s.top ∧ s.top < Word.count ∧ s.top ≤ s.memory.size) ∧
    (∀ before after, calls = before ++ after → (h.afterHeap before).files.store.top ≤ s.top) ∧
    (∀ size address t, allocate size s = .ok address t →
      8 ∣ address ∧ s.top ≤ address ∧ address + size < Word.count ∧ t.top = address + size ∧ t.top ≤ t.memory.size ∧
      t.nodes = s.nodes ∧ t.opened = s.opened ∧ ∀ k, t.memory.byte k = s.memory.byte k) ∧
    (∀ size, (∃ address t, allocate size s = .ok address t) ↔
      s.top + 7 < Word.count ∧ (s.top + 7) / 8 * 8 + size < Word.count) ∧
    (∀ size, s.top + 7 < Word.count → Word.count ≤ (s.top + 7) / 8 * 8 + size →
      allocate size s = .error (.aborted s!"out of memory allocating {size} bytes") s) ∧
    (∀ size, allocate size s = .error .crash s ↔ Word.count ≤ s.top + 7) ∧
    (∀ length size path, s.stagedPath length = .ok path → s.NeedsPlace path size →
      (s.Room size → ∃ i t, addFileNode length size s = .ok (i + 1) t ∧
        t.FileAt i ⟨path, .file, s.aligned, size, size⟩ ∧ t.memory = (s.grown size).memory ∧
        t.top = s.aligned + size) ∧
      (¬ s.Room size → addFileNode length size s = .error (s.denial size) s)) ∧
    ∀ i n needed, s.FileAt i n → n.capacity < needed →
      (s.Room (grownCapacity n needed) → ∃ t, reserve i needed s =
          .ok { n with address := s.aligned, capacity := grownCapacity n needed } t ∧
        t.top = s.aligned + grownCapacity n needed ∧ t.top ≤ t.memory.size ∧ t.listing = s.listing) ∧
      (¬ s.Room (grownCapacity n needed) → reserve i needed s = .error (s.denial (grownCapacity n needed)) s) := by
  obtain ⟨hlaid, htop⟩ := Host.laid_afterHeap hf calls
  have hmono (before after : List HeapCall) (hc : calls = before ++ after) :
      (h.afterHeap before).files.store.top ≤ s.top := by
    rw [← hs, hc]
    exact Host.top_le_afterHeap hf before after
  rw [hs] at hlaid htop
  refine ⟨⟨hlaid.base_le, htop, hlaid.top_le⟩, hmono, fun size address t => FileStore.allocate_place hlaid,
    fun size => ?_, fun size h1 h2 => ?_, fun size => FileStore.allocate_eq_crash, fun length size path hp hw =>
      ⟨FileStore.addFileNode_of_room hp hw, FileStore.addFileNode_of_not_room hp hw⟩,
    fun i n needed hn hc => ⟨fun hr => ?_, fun hr => ?_⟩⟩
  · constructor
    · rintro ⟨address, t, hx⟩
      exact (FileStore.allocate_eq_ok.1 hx).1
    · intro hr
      exact ⟨_, _, FileStore.allocate_of_room (s := s) hr⟩
  · have hr : ¬ s.Room size := fun hr => Nat.not_le.2 hr.2 h2
    rw [FileStore.allocate_of_not_room hr, FileStore.denial, if_pos h1]
  · have hcan : s.CanHold n needed := fun _ => hr
    have hrefits := (hlaid.packed htop).refits_reserved hn hcan
    have hx := FileStore.reserve_of_canHold (hlaid.packed htop) hn hcan
    have hmoved : s.reserved i n needed =
        (s.movedNode n (grownCapacity n needed), s.moved i n (grownCapacity n needed)) := if_neg (Nat.not_le.2 hc)
    rw [hmoved] at hx hrefits
    exact ⟨_, hx, rfl, hrefits.packed.top_le, hrefits.listing⟩
  · exact FileStore.reserve_of_not_canHold hn fun hcan => hr (hcan hc)

/-- The first place that is handed out. -/
theorem allocation_cases_first : ({} : Host).files = .empty ∧ ∃ address t,
    allocate 5 (({} : Host).afterHeap []).files.store = .ok address t ∧ 8 ∣ address ∧ t.top = address + 5 := by
  obtain ⟨-, -, hplace, hroom, -⟩ := allocation_cases {} [] rfl rfl
  obtain ⟨address, t, hx⟩ := (hroom 5).2 ⟨by decide, by decide⟩
  obtain ⟨haligned, -, -, htop, -⟩ := hplace 5 address t hx
  exact ⟨rfl, address, t, hx, haligned, htop⟩

/-- The store in which the path of a file is in the path buffer. -/
def FileStore.named : FileStore := FileStore.empty.poke pathBuffer (Utf8.encode "/a")

/-- The store with a file of `size` bytes. -/
def FileStore.filled (size : Nat) : FileStore :=
  (FileStore.named.grown size).withNewNode ⟨"/a", .file, heapBase, size, size⟩

/-- The host makes such a file. -/
def fillingCalls (size : Nat) : List HeapCall :=
  [.call (.write pathBuffer (Utf8.encode "/a")), .call (.addFileNode 2 size)]

section Filling

variable {size : Nat} (hr : FileStore.empty.Room size)

include hr

lemma FileStore.addFileNode_named : addFileNode 2 size .named = .ok 1 (.filled size) := by
  have hpath : FileStore.named.stagedPath 2 = .ok "/a" := by
    have hname : nodePath (Utf8.encode "/a") = "/a" := by decide
    have hlength : (Utf8.encode "/a").length = 2 := by decide
    have hp := FileStore.stagedPath_poke FileStore.sound_empty.base_le_size
      (by decide : (Utf8.encode "/a").length ≤ Interface.pathLimit)
    rwa [hname, hlength] at hp
  exact addFileNode_of_new hpath rfl ((room_congr (poke_top ..) size).2 hr)

lemma afterHeap_fillingCalls : Host.afterHeap {} (fillingCalls size) = ({} : Host).withStore (.filled size) := by
  have hwrite : FileStore.write pathBuffer (Utf8.encode "/a") FileStore.empty = .ok ⟨⟩ .named :=
    FileStore.write_of_le (Nat.le_trans (FileStore.pathBuffer_le (by decide)) FileStore.sound_empty.base_le_size)
  have hfirst : Op.after (Host.onStore (FileStore.write pathBuffer (Utf8.encode "/a"))) {} = _ :=
    Op.after_of_ok (Host.onStore_of_ok hwrite)
  have hcalls (data : List UInt8) : Host.afterHeap {} [.call (.write pathBuffer data), .call (.addFileNode 2 size)] =
      Op.after (do let _ ← Host.onStore (addFileNode 2 size))
        (Op.after (Host.onStore (FileStore.write pathBuffer data)) {}) := rfl
  rw [fillingCalls, hcalls, hfirst, Op.after_bind_of_ok (Host.onStore_withStore_of_ok (FileStore.addFileNode_named hr))]
  rfl

end Filling

/-- When a file fills nearly all memory, the sum for the address of the next place is no word. -/
theorem exists_allocation_broken : ¬ ∀ (h : Host) (calls : List HeapCall) (size : Nat) (e : Failure) (t : FileStore),
    h.files = .empty → allocate size (h.afterHeap calls).files.store = .error e t →
    e = .aborted s!"out of memory allocating {size} bytes" := by
  intro hall
  have htop : (Host.afterHeap {} (fillingCalls 4294963199)).files.store.top = Word.count - 1 := by
    rw [afterHeap_fillingCalls (by decide)]
    rfl
  have hcrash : allocate 0 (Host.afterHeap {} (fillingCalls 4294963199)).files.store = .error .crash _ :=
    FileStore.allocate_eq_crash.2 (by rw [htop]; decide)
  cases hall {} (fillingCalls 4294963199) 0 _ _ rfl hcrash

end ToolchainHost
