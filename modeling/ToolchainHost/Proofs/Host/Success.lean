import ToolchainHost.Proofs.Host.FileCalls

/-!
# Calls that get what they ask for

* `Host.Accepts.opens`: a path that is accepted is opened behind the first free descriptor, and the heap stays as it is.
* `Host.Accepts.truncates`: a file that is truncated leaves its bytes in its place.
* `Host.Begins.writes`: a write of one segment for which there is room succeeds.
* `Host.Accepts.writes_new`: a guest makes a file and writes into it.
-/

namespace ToolchainHost

open Interface (Errno)

namespace FileStore

variable {s t u : FileStore} {address : Nat} {name : String} {flags : Nat} {data : List UInt8} {r : Except Errno Nat}

/-- As much of the heap is handed out, and the bytes in it are the same. -/
structure SameHeap (s t : FileStore) : Prop where
  top_eq : t.top = s.top
  byte_eq : ∀ k, heapBase ≤ k → t.memory.byte k = s.memory.byte k

namespace SameHeap

lemma trans (h1 : s.SameHeap t) (h2 : t.SameHeap u) : s.SameHeap u :=
  ⟨h2.top_eq.trans h1.top_eq, fun k hk => (h2.byte_eq k hk).trans (h1.byte_eq k hk)⟩

lemma span_eq (h : s.SameHeap t) (ha : heapBase ≤ address) (count : Nat) :
    t.memory.span address count = s.memory.span address count :=
  Memory.span_congr fun k hk _ => h.byte_eq k (Nat.le_trans ha hk)

end SameHeap

lemma sameHeap_poke (s : FileStore) (h : address + data.length ≤ heapBase) : s.SameHeap (s.poke address data) :=
  ⟨poke_top .., fun _ hk => Memory.byte_put_of_outside (Or.inr (Nat.le_trans h hk))⟩

/-- What a path names is opened without the heap. -/
lemma Sound.openTarget_heap (hs : s.Sound) (hx : openTarget name flags s = .ok r t) :
    t.memory = s.memory ∧ t.top = s.top := by
  cases hl : s.lookup name with
  | none =>
    rw [openTarget_of_none hl] at hx
    split_ifs at hx
    · cases hx
      exact ⟨rfl, rfl⟩
    · cases hx
      exact ⟨rfl, rfl⟩
  | some e =>
    cases e with
    | directory =>
      rw [openTarget_of_directory hs.nodup hl] at hx
      cases hx
      exact ⟨rfl, rfl⟩
    | file bytes =>
      obtain ⟨i, n, hi, hf, -, -⟩ := hs.file_of_lookup hl
      rw [openTarget_of_file hi hf] at hx
      split_ifs at hx
      · cases hx
        exact ⟨rfl, rfl⟩
      · cases hx
        exact ⟨rfl, rfl⟩

end FileStore

namespace Host

variable {h : Host} {m : Memory} {path length flags out list count i : Nat} {d : Int} {f : OpenFile} {n : Node}
  {s : Segment} {t : FileStore} {bytes : List UInt8}

/-! ### Results -/

/-- A word goes through the scratch area, also when the guest has no place for it. -/
lemma after_storeWord (hb : FileStore.heapBase ≤ h.files.store.memory.size) (out value : Nat) :
    ∃ guest, Op.after (storeWord out value) h =
      { h.withStore (h.files.store.poke FileStore.scratch (Bytes.ofNat 4 value)) with guest } := by
  obtain ⟨hsize, -⟩ := span_scratchWord hb value
  rw [Op.after_congr (storeWord_eq hb out value)]
  rcases copyOut_cases hsize out with ⟨m, -, -, hx⟩ | ⟨e, hx⟩
  · exact ⟨_, Op.after_of_ok hx⟩
  · exact ⟨_, Op.after_of_error hx⟩

/-! ### Opening -/

namespace Accepts

lemma sameHeap_staging (ha : h.Accepts path length flags m) :
    h.files.store.SameHeap (h.staging m path length).files.store := by
  rw [staging, withStore_store]
  exact FileStore.sameHeap_poke _ (by rw [Memory.length_span]; exact FileStore.pathBuffer_le ha.fits)

/-- What has been found is opened, and the descriptor goes to the guest. -/
lemma pathOpen_of_target (ha : h.Accepts path length flags m) (hs : h.files.store.Sound)
    (hx : FileStore.openTarget (nodePath (m.span path length)) flags (h.staging m path length).files.store =
      .ok (.ok i) t) (out : Nat) :
    pathOpen path length flags out h = (do
      storeWord out (t.opened.nextSlot + FileStore.firstDescriptor)
      return .success : Op Host Errno) (h.withStore (t.withOpenFile i)) := by
  rw [staging, withStore_store] at hx
  rw [pathOpen_eq hs.base_le_size ha.fits ha.guest ha.inRange, staging, Op.bind_of_ok (onStore_withStore_of_ok hx)]
  dsimp only
  rw [Op.bind_of_ok (onStore_withStore_of_ok (FileStore.openNode_apply t i))]

lemma after_of_target (ha : h.Accepts path length flags m) (hs : h.files.store.Sound)
    (hx : FileStore.openTarget (nodePath (m.span path length)) flags (h.staging m path length).files.store =
      .ok (.ok i) t) (ht : (t.withOpenFile i).Sound) (out : Nat) :
    ∃ guest, Op.after (pathOpen path length flags out) h = { h.withStore ((t.withOpenFile i).poke FileStore.scratch
      (Bytes.ofNat 4 (t.opened.nextSlot + FileStore.firstDescriptor))) with guest } := by
  rw [Op.after_congr (ha.pathOpen_of_target hs hx out), Op.after_bind_pure]
  exact after_storeWord (h := h.withStore (t.withOpenFile i)) ht.base_le_size out _

/-- **A path that is accepted is opened** behind the first free descriptor, also where the guest has no place for it. -/
theorem opens (ha : h.Accepts path length flags m) (hs : h.files.store.Sound) (out : Nat) :
    ∃ t guest, h.files.store.Opens (nodePath (m.span path length)) flags
        (h.files.store.opened.nextSlot + FileStore.firstDescriptor) t ∧ h.files.store.SameHeap t ∧
      Op.after (pathOpen path length flags out) h = { h.withStore t with guest } ∧
      (m.InRange out 4 → pathOpen path length flags out h = .ok .success ((h.withStore t).bind
        (m.put out (Bytes.ofNat 4 (h.files.store.opened.nextSlot + FileStore.firstDescriptor))))) := by
  have hk := looks_staging hs ha.fits m path
  obtain ⟨i, n, t, hx, ht, hf, hpath, hlookup, hhandle, hopened⟩ :=
    FileStore.openTarget_of_not_refusal hk.sound (hk.lookup.symm ▸ ha.not_refused)
  have hto := ht.withOpenFile hf
  have hw := looks_scratchWord (h := h.withStore (t.withOpenFile i)) hto
    (t.opened.nextSlot + FileStore.firstDescriptor)
  rw [withStore_store] at hw
  obtain ⟨guest, hafter⟩ := ha.after_of_target hs hx hto out
  have hnext : t.opened.nextSlot = h.files.store.opened.nextSlot := by rw [hopened, hk.opened]
  obtain ⟨hmemory, htop⟩ := hk.sound.openTarget_heap hx
  have hheap : h.files.store.SameHeap (t.withOpenFile i) :=
    ha.sameHeap_staging.trans ⟨htop, fun k _ => congrArg (Memory.byte · k) hmemory⟩
  refine ⟨_, guest, ⟨hw.sound, Nat.le_add_left .., ?_, ?_, ?_⟩,
    hheap.trans (FileStore.sameHeap_poke _ (scratchWord_le _)), hafter, fun hr => ?_⟩
  · exact hs.handle_nextSlot
  · rw [hw.lookup, FileStore.withOpenFile, FileStore.lookup_congr (FileStore.listing_withOpened ..), hlookup, hk.lookup]
  · rw [hw.handle, ht.handle_withOpenFile hf, hhandle, hpath, hnext, hk.handle]
  · have hword := storeWord_of_inRange (h := h.withStore (t.withOpenFile i)) hto.base_le_size out
      (t.opened.nextSlot + FileStore.firstDescriptor) ha.guest hr
    rw [ha.pathOpen_of_target hs hx, Op.bind_of_ok hword, Op.pure_apply, hnext]
    rfl

/-- **A file that is truncated** leaves its bytes in its place. -/
theorem truncates (ha : h.Accepts path length flags m) (hs : h.files.store.Sound)
    (hflag : Interface.hasFlag flags Interface.truncateFlag = true)
    (hl : h.files.store.lookup (nodePath (m.span path length)) = some (.file bytes)) (out : Nat) :
    ∃ i n, (Op.after (pathOpen path length flags out) h).files.store.FileAt i n ∧
      n.path = nodePath (m.span path length) ∧ n.size = 0 ∧ bytes.length ≤ n.capacity ∧
      (Op.after (pathOpen path length flags out) h).files.store.memory.span n.address bytes.length = bytes := by
  have hk := looks_staging hs ha.fits m path
  obtain ⟨i, n, hi, hf, hpath, hb⟩ := hk.sound.file_of_lookup (hk.lookup.symm ▸ hl)
  have hx := FileStore.openTarget_of_file hi hf flags
  rw [if_pos hflag] at hx
  have hkind : ({ n with size := 0 } : Node).kind = .file := hf.2
  have hf' : ((h.staging m path length).files.store.emptied i n).FileAt i { n with size := 0 } :=
    (FileStore.fileAt_withNode hf hkind).2 (Or.inl ⟨rfl, rfl⟩)
  have hto := (hk.sound.emptied hf).withOpenFile hf'
  obtain ⟨hsize, hbase, -⟩ := hk.sound.placed hf
  have hlen : bytes.length = n.size := by rw [← hb, Memory.length_span]
  obtain ⟨guest, hafter⟩ := ha.after_of_target hs hx hto out
  rw [hafter, hlen]
  refine ⟨i, { n with size := 0 }, FileStore.fileAt_poke.2 hf', hpath, rfl, hsize, ?_⟩
  exact ((FileStore.sameHeap_poke _ (scratchWord_le _)).span_eq hbase n.size).trans hb

end Accepts

/-! ### Writing -/

/-- A segment that is alone lands where there is room for it. -/
lemma landing_of_singleton (hb : h.Begins d list count f m) (hn : h.files.store.FileAt f.node n)
    (hsegments : segmentsOf m list count = [s]) (hr : m.InRange s.address s.length)
    (hroom : h.files.store.CanHold n (f.position + s.length)) :
    h.landing f m list count = [s] := by
  have hn' : (h.listed m list count).files.store.FileAt f.node n := by
    rw [listed_store]
    exact FileStore.fileAt_poke.2 hn
  have hland : (h.listed m list count).Lands n s f.position := by
    refine ⟨⟨m, (listed_guest ..).trans hb.guest, hr⟩, fun hlt => ?_⟩
    rw [listed_store]
    exact (FileStore.room_congr (FileStore.poke_top ..) _).2 (hroom hlt)
  rw [landing, hsegments, landings_cons hn' hland]
  rfl

/-- **A write of one segment** for which there is room succeeds where its result has a place. -/
theorem Begins.writes (hd : Interface.isStandard d = false) (hs : h.files.store.Sound)
    (hb : h.Begins d list count f m) (hn : h.files.store.FileAt f.node n) (hsegments : segmentsOf m list count = [s])
    (hr : m.InRange s.address s.length) (hstop : f.position + s.length < Word.count)
    (hroom : h.files.store.CanHold n (f.position + s.length)) (ho : m.InRange out 4) :
    ∃ u, u.Sound ∧ u.lookup = Function.update h.files.store.lookup n.path
        (some (.file (rewritten h.files.store n m f.position [s]))) ∧
      u.handle = Function.update h.files.store.handle d (some (n.path, f.position + s.length)) ∧
      fileWrite d list count out h = .ok .success ((h.withStore u).bind (m.put out (Bytes.ofNat 4 s.length))) := by
  have hland := landing_of_singleton hb hn hsegments hr hroom
  have hst : staysAddressable f.position (segmentsOf m list count) = true := by
    rw [staysAddressable_iff (hs.fileAt_of_open hb.openFile).1, hsegments]
    exact hstop
  obtain ⟨slot, hslot, hget⟩ := FileStore.openFile?_eq_some.1 hb.openFile
  obtain ⟨t, ht, ⟨hall, -⟩ | ⟨-, hw⟩⟩ := hb.rewrites hs hst
  · exact absurd (hland.trans hsegments.symm) hall
  have hpos : (t.withPosition slot (f.position + s.length)).Sound := ht.sound.withPosition hstop
  have hset := onStore_withStore_of_ok (h := h) (FileStore.setPosition_apply (s := t) hslot (f.position + s.length))
  have hword := storeWord_of_inRange (h := h.withStore (t.withPosition slot (f.position + s.length)))
    hpos.base_le_size out s.length hb.guest ho
  have hu : (h.withStore t).Settles d (f.position + s.length)
      ((t.withPosition slot (f.position + s.length)).poke FileStore.scratch (Bytes.ofNat 4 s.length)) :=
    ⟨slot, hslot, looks_scratchWord (h := h.withStore (t.withPosition slot (f.position + s.length))) hpos s.length⟩
  obtain ⟨n', hn', hrev⟩ := ht
  obtain rfl : n' = n := Option.some.inj (hn'.1.symm.trans hn.1)
  rw [hland] at hrev
  obtain ⟨hlookup, hhandle⟩ := hu.of_revises hrev hb.openFile
  refine ⟨_, hu.sound, hlookup, hhandle, ?_⟩
  have htotal : Segment.total [s] = s.length := rfl
  rw [hsegments, htotal] at hw
  rw [hb.fileWrite_eq hd hs.base_le_size, if_neg (by simp [hst]), hsegments, Op.bind_of_ok hw]
  dsimp only
  rw [Op.bind_of_ok hset, Op.bind_of_ok hword, Op.pure_apply]
  rfl

/-- **A guest makes a file** on a fresh file system, as the first one that is open, and writes a few bytes into it. -/
theorem Accepts.writes_new {m' : Memory} (ha : h.Accepts path length flags m) (hf : h.files = .empty)
    (out list count out' : Nat) (ho : m.InRange out 4) (hm : m' = m.put out (Bytes.ofNat 4 FileStore.firstDescriptor))
    (hfits : count * Segment.width ≤ FileStore.scratchLimit) (hlist : m'.InRange list (count * Segment.width))
    (hsegments : segmentsOf m' list count = [s]) (hr : m'.InRange s.address s.length)
    (hfew : s.length ≤ FileStore.leastCapacity) (ho' : m'.InRange out' 4) :
    ∃ t u, t.handle FileStore.firstDescriptor = some (nodePath (m.span path length), 0) ∧
      t.top = FileStore.heapBase ∧
      pathOpen path length flags out h = .ok .success ((h.withStore t).bind m') ∧
      u.Sound ∧ u.lookup (nodePath (m.span path length)) = some (.file (m'.span s.address s.length)) ∧
      u.handle FileStore.firstDescriptor = some (nodePath (m.span path length), s.length) ∧
      fileWrite FileStore.firstDescriptor list count out' ((h.withStore t).bind m') =
        .ok .success ((h.withStore u).bind (m'.put out' (Bytes.ofNat 4 s.length))) := by
  have hstore : h.files.store = .empty := congrArg FileSystem.store hf
  have hs : h.files.store.Sound := hstore ▸ FileStore.sound_empty
  obtain ⟨t, -, hopens, hheap, -, hopen⟩ := ha.opens hs out
  have hslot : h.files.store.opened.nextSlot + FileStore.firstDescriptor = FileStore.firstDescriptor := by
    rw [hstore]
    rfl
  rw [hslot] at hopens hopen
  rw [← hm] at hopen
  have htop : t.top = FileStore.heapBase := hheap.top_eq.trans (congrArg FileStore.top hstore)
  have hhandle : t.handle FileStore.firstDescriptor = some (nodePath (m.span path length), 0) := by
    rw [hopens.handle, Function.update_self]
  obtain ⟨f, n, hopenFile, hn, hpath, hposition⟩ := hopens.sound.exists_open hhandle
  have hnone : h.files.store.lookup (nodePath (m.span path length)) = none := by
    rw [hstore]
    rfl
  have hempty : t.memory.span n.address n.size = [] := by
    have hfound := hopens.sound.lookup_path hn.1
    rw [hpath, hopens.lookup, Function.update_self, hnone, FileStore.entry_of_file hn.2] at hfound
    exact (Entry.file.inj (Option.some.inj hfound)).symm
  have hb : ((h.withStore t).bind m').Begins FileStore.firstDescriptor list count f m' :=
    ⟨hopenFile, hfits, rfl, hlist⟩
  have hroom : t.CanHold n (f.position + s.length) := by
    intro hlt
    refine FileStore.room_of_top_le htop.le ?_
    unfold FileStore.leastCapacity at hfew
    unfold FileStore.grownCapacity FileStore.leastCapacity FileStore.heapBase Word.count
    omega
  obtain ⟨u, hu, hlookup, hhandle', hwrite⟩ := hb.writes (by decide) hopens.sound hn hsegments hr
    (by unfold FileStore.leastCapacity at hfew; unfold Word.count; omega) hroom ho'
  refine ⟨t, u, hhandle, htop, hopen ho, hu, ?_, ?_, hwrite⟩
  · have hdata : Bytes.splice [] 0 (gathered m' [s]) = m'.span s.address s.length := by
      simp [Bytes.splice, gathered]
    rw [hlookup, hpath, Function.update_self, hposition, rewritten_of_le (Nat.zero_le _), bind_files,
      withStore_store, hempty, hdata]
  · rw [hhandle', hpath, Function.update_self, hposition, Nat.zero_add]

end Host

end ToolchainHost
