import ToolchainHost.Proofs.Files.Requests
import ToolchainHost.Proofs.Host.Input
import ToolchainHost.Proofs.Host.Layout
import ToolchainHost.Proofs.Host.Steps

/-!
# How much a read from a file delivers

A read fills the segments in front of the first empty one, as far as the file reaches. What is behind an empty segment
stays as it was.

* `FileStore.Bounded`: what is handed out ends at an address that is a word, whatever is done.
* `Host.readSegments_of_inRange`: a guest that has its segments gets the bytes.
* `fileRead_fills_served`: what a read delivers, and when that is less than the guest has room for.
-/

namespace ToolchainHost

open Interface (Errno)
open Host (segmentsOf served delivered scattered)

/-! ### The end of the heap -/

namespace FileStore

/-- What is handed out still ends at an address that is a word. -/
def Bounded (s t : FileStore) : Prop := s.top < Word.count → t.top < Word.count

instance : IsPreorder FileStore Bounded where
  refl _ := id
  trans _ _ _ h1 h2 := h2 ∘ h1

lemma allows_bounded : Allows Bounded :=
  ⟨fun _ _ => id, fun _ _ => id, fun _ _ => id, fun hr _ => hr.2⟩

end FileStore

namespace FileSystem

/-- What is handed out still ends at an address that is a word. -/
def Bounded (fs fs' : FileSystem) : Prop := FileStore.Bounded fs.store fs'.store

instance : IsPreorder FileSystem Bounded where
  refl fs := refl_of FileStore.Bounded fs.store
  trans _ _ _ := trans_of FileStore.Bounded

lemma bounded_onStore {α : Type} {x : Op FileStore α} (hx : Op.Within FileStore.Bounded x) :
    Op.Within Bounded (onStore x) := Op.within_onPart fun fs => hx fs.store

lemma bounded_write (address : Nat) (data : List UInt8) :
    Op.Within Bounded (onStore (FileStore.write address data)) :=
  bounded_onStore (FileStore.allows_bounded.within_write address data)

lemma bounded_register (path : String) (kind : NodeKind) : Op.Within Bounded (register path kind) :=
  Op.within_modify fun fs => refl_of FileStore.Bounded fs.store

end FileSystem

namespace Host

/-- What is handed out still ends at an address that is a word. -/
def Bounded (h h' : Host) : Prop := FileStore.Bounded h.files.store h'.files.store

instance : IsPreorder Host Bounded where
  refl h := refl_of FileStore.Bounded h.files.store
  trans _ _ _ := trans_of FileStore.Bounded

lemma allows_bounded : Allows FileStore.Bounded Bounded :=
  ⟨FileStore.allows_bounded, id, fun h _ => refl_of FileStore.Bounded h.files.store⟩

lemma UsesTerminal.bounded {h h' : Host} (ht : UsesTerminal h h') : Bounded h h' := by
  have hf : h'.files = h.files := ht.files
  unfold Bounded
  rw [hf]
  exact refl_of FileStore.Bounded _

lemma bounded_onFiles {α : Type} {x : Op FileSystem α} (hx : Op.Within FileSystem.Bounded x) :
    Op.Within Bounded (onFiles x) := Op.within_onPart fun h => hx h.files

/-- One step of whatever is done. -/
theorem bounded_run (c : StoreCall) : Op.Within Bounded c.run := by
  have hwrite := FileSystem.bounded_write
  have hregister := FileSystem.bounded_register
  have hdirectory (length : Nat) := FileSystem.bounded_onStore (FileStore.allows_bounded.within_addDirectoryNode length)
  have hfile (length size : Nat) :=
    FileSystem.bounded_onStore (FileStore.allows_bounded.within_addFileNode length size)
  cases c with
  | call c =>
    refine Op.Within.bind ?_ fun _ => Op.within_pure _
    cases c with
    | compute m => exact (Op.within_modify fun h => allows_bounded.bind h m).bind fun _ => Op.within_pure _
    | pathOpen path length flags out => exact (allows_bounded.within_pathOpen path length flags out).map _
    | write d list count out =>
      exact (allows_bounded.within_fileWrite fun _ =>
        (within_write d list count out).mono fun _ _ => UsesTerminal.bounded).map _
    | read d list count out =>
      exact (allows_bounded.within_fileRead fun _ =>
        (within_read d list count out).mono fun _ _ => UsesTerminal.bounded).map _
    | close d => exact (allows_bounded.within_fileClose d).map _
    | addFile path data =>
      exact (bounded_onFiles (FileSystem.within_addFile hwrite hregister hfile path data).attempt).map _
    | addDirectory path =>
      exact (bounded_onFiles (FileSystem.within_addDirectory hwrite hregister hdirectory path).attempt).map _
    | contents path => exact (bounded_onFiles (FileSystem.within_contents hwrite path).attempt).map _
  | unbind => exact Op.within_modify fun h => refl_of FileStore.Bounded h.files.store
  | fileExists path =>
    exact (bounded_onFiles (FileSystem.within_fileExists hwrite path)).bind fun _ => Op.within_pure _
  | addDirectoryNode length => exact (bounded_onFiles (hdirectory length)).bind fun _ => Op.within_pure _
  | addFileNode length size => exact (bounded_onFiles (hfile length size)).bind fun _ => Op.within_pure _
  | write address data => exact bounded_onFiles (hwrite address data)

/-- Any number of steps. -/
theorem bounded_afterAll (h : Host) (calls : List StoreCall) : Bounded h (h.afterAll calls) := by
  induction calls generalizing h with
  | nil => exact refl_of Bounded h
  | cons c rest ih => exact trans_of Bounded (bounded_run c h) (ih _)

end Host

/-! ### What segments get -/

section Segments

variable {segments : List Segment}

namespace Segment

lemma total_append (a b : List Segment) : total (a ++ b) = total a + total b := by
  induction a with
  | nil => rw [List.nil_append, total, Nat.zero_add]
  | cons s a ih => rw [List.cons_append, total, total, ih, Nat.add_assoc]

lemma total_eq_zero : total segments = 0 ↔ ∀ s ∈ segments, s.length = 0 := by
  induction segments with
  | nil => simp [total]
  | cons s rest ih => simp [total, ih]

end Segment

namespace Host

/-- The segments that a read does not serve: the first empty one, and those behind it. -/
def unserved (segments : List Segment) : List Segment := segments.dropWhile (0 < ·.length)

lemma total_served_add (segments : List Segment) :
    Segment.total (served segments) + Segment.total (unserved segments) = Segment.total segments := by
  rw [← Segment.total_append, served, unserved, List.takeWhile_append_dropWhile]

lemma length_delivered (bytes : List UInt8) (position : Nat) (segments : List Segment) :
    (delivered bytes position segments).length =
      min (Segment.total (served segments)) (bytes.length - position) := by
  rw [delivered, List.length_take, List.length_drop]

/-- All that the segments have room for is delivered iff the file ends within those that are served, or the others
have no room. -/
lemma length_delivered_eq_min (bytes : List UInt8) (position : Nat) (segments : List Segment) :
    (delivered bytes position segments).length =
      min (Segment.total segments) (bytes.length - position) ↔
    bytes.length - position ≤ Segment.total (served segments) ∨ ∀ s ∈ unserved segments, s.length = 0 := by
  rw [length_delivered, ← Segment.total_eq_zero, ← total_served_add segments]
  omega

/-- The first segment decides whether anything is delivered. -/
lemma total_served_eq_zero : Segment.total (served segments) = 0 ↔ ∀ s ∈ segments.head?, s.length = 0 := by
  cases segments with
  | nil => simp [served, Segment.total]
  | cons s rest =>
    by_cases hs : s.length = 0
    · simp [served, hs, Segment.total]
    · simp [served, hs, Nat.pos_of_ne_zero hs, Segment.total]

lemma delivered_eq_nil (bytes : List UInt8) (position : Nat) (segments : List Segment) :
    delivered bytes position segments = [] ↔ bytes.length ≤ position ∨ ∀ s ∈ segments.head?, s.length = 0 := by
  rw [← List.length_eq_zero_iff, length_delivered, ← total_served_eq_zero]
  omega

end Host

end Segments

namespace Host

variable {h h' : Host} {m : Memory} {n : Node} {f : OpenFile} {d : Int} {segments : List Segment} {data : List UInt8}
  {list count out position total : Nat}

/-! ### One read -/

/-- A guest that has all segments gets what is delivered. -/
theorem readSegments_of_inRange (hn : h.files.store.Backs n) (hg : h.guest = some m)
    (hall : ∀ s ∈ segments, m.InRange s.address s.length) (htotal : total ≤ position) :
    let data := delivered (h.files.store.memory.span n.address n.size) position segments
    readSegments n segments position total h =
      .ok (position + data.length, total + data.length) (h.bind (scattered m segments data)) := by
  have hends : ∃ r h', readSegments n segments position total h = .ok r h' := by
    induction segments generalizing h m position total with
    | nil => exact ⟨_, _, rfl⟩
    | cons s rest ih =>
      obtain ⟨hr, hrest⟩ := List.forall_mem_cons.1 hall
      by_cases hc : min s.length (n.size - position) = 0
      · exact ⟨_, _, readSegments_stop hc rest total⟩
      · have hin : m.InRange s.address (min s.length (n.size - position)) := by
          unfold Memory.InRange at hr ⊢
          omega
        rw [readSegments_cons_of_inRange hn hc htotal hg hin rest]
        refine ih (h := h.bind _) hn rfl (fun t ht => ?_) (by omega)
        rw [Memory.InRange, Memory.size_put]
        exact hrest t ht
  obtain ⟨⟨position', total'⟩, h', hx⟩ := hends
  obtain ⟨rfl, rfl, rfl⟩ := readSegments_eq hn hg htotal hx
  exact hx

/-- A read has delivered these bytes: they lie in the guest's segments, their number is stored, the position stands
behind them, the files are as they were, and so is all that is neither the guest's nor the store's. -/
structure Delivers (h : Host) (d : Int) (f : OpenFile) (m : Memory) (segments : List Segment) (out : Nat)
    (data : List UInt8) (h' : Host) : Prop where
  guest : h'.guest = some ((scattered m segments data).put out (Bytes.ofNat 4 data.length))
  openFile : h'.files.store.openFile? d = some { f with position := f.position + data.length }
  listing : h'.files.store.listing = h.files.store.listing
  others : ∃ store guest, h' = { h.withStore store with guest }

/-- The host after a read has delivered bytes. -/
def handed (h : Host) (m : Memory) (list count slot position out : Nat) (data : List UInt8) : Host :=
  (h.withStore (((h.listed m list count).files.store.withPosition slot position).poke FileStore.scratch
    (Bytes.ofNat 4 data.length))).bind
    ((scattered m (segmentsOf m list count) data).put out (Bytes.ofNat 4 data.length))

lemma handed_store (h : Host) (m : Memory) (list count slot position out : Nat) (data : List UInt8) :
    (h.handed m list count slot position out data).files.store =
      ((h.listed m list count).files.store.withPosition slot position).poke FileStore.scratch
        (Bytes.ofNat 4 data.length) := by
  rw [handed, bind_files, withStore_store]

section Delivery

variable (hb : h.Begins d list count f m) (hs : h.files.store.Laid)

include hb hs

/-- A read that has everything it needs takes the bytes of the file. -/
lemma Begins.fileRead_of_inRange {slot : Nat} (hslot : FileStore.slotOf? d = some slot)
    (htop : h.files.store.top < Word.count) (hall : ∀ s ∈ segmentsOf m list count, m.InRange s.address s.length)
    (ho : m.InRange out 4) (hn : h.files.store.FileAt f.node n) :
    let data := delivered (h.files.store.memory.span n.address n.size) f.position (segmentsOf m list count)
    fileRead d list count out h =
      .ok .success (h.handed m list count slot (f.position + data.length) out data) := by
  have hd : d ≠ 0 := by
    rintro rfl
    cases hslot
  have hlow := scratch_list_le hb.fits m list
  have hplace := hs.placed hn
  have hbacks : (h.listed m list count).files.store.Backs n := by
    obtain ⟨h1, -, h2⟩ := hplace
    have h3 := hs.top_le
    rw [listed_store, FileStore.Backs, FileStore.poke_memory, Memory.size_put]
    exact ⟨by omega, by omega⟩
  have hbytes : (h.listed m list count).files.store.memory.span n.address n.size =
      h.files.store.memory.span n.address n.size := by
    rw [listed_store, FileStore.poke_memory]
    exact Memory.span_put_of_apart (Or.inr (Nat.le_trans hlow hplace.base_le))
  have hfill := readSegments_of_inRange hbacks ((listed_guest ..).trans hb.guest) hall (Nat.zero_le f.position)
  rw [hbytes] at hfill
  dsimp only at hfill ⊢
  rw [Nat.zero_add] at hfill
  generalize delivered (h.files.store.memory.span n.address n.size) f.position (segmentsOf m list count) = data
    at hfill ⊢
  have hbase : FileStore.heapBase ≤ (h.listed m list count).files.store.memory.size := by
    rw [listed_store]
    exact (hs.poke ..).base_le_size
  have hstore := storeWord_of_inRange (m := scattered m (segmentsOf m list count) data)
    (h := ((h.listed m list count).bind (scattered m (segmentsOf m list count) data)).withStore
      ((h.listed m list count).files.store.withPosition slot (f.position + data.length)))
    hbase out data.length rfl (by rw [Memory.InRange, size_scattered]; exact ho)
  rw [hb.fileRead_eq hd hs.base_le_size (FileStore.fileAt_poke.2 hn), Op.bind_of_ok hfill]
  dsimp only
  rw [Op.bind_of_ok (onStore_of_ok (FileStore.setPosition_apply hslot _)), bind_files, Op.bind_of_ok hstore,
    Op.pure_apply, withStore_withStore, withStore_store, bind_withStore, bind_bind, withStore_listed, handed]

/-- The read has delivered what it took. -/
lemma Begins.delivers_handed {slot : Nat} (htop : h.files.store.top < Word.count)
    (hslot : FileStore.slotOf? d = some slot) (out : Nat) (data : List UInt8) : h.Delivers d f m (segmentsOf m list count) out data
      (h.handed m list count slot (f.position + data.length) out data) where
  guest := bind_guest ..
  openFile := by
    obtain ⟨slot', hslot', hget⟩ := FileStore.openFile?_eq_some.1 hb.openFile
    obtain rfl : slot' = slot := Option.some.inj (hslot'.symm.trans hslot)
    refine FileStore.openFile?_eq_some.2 ⟨slot', hslot, ?_⟩
    rw [handed_store, FileStore.poke_opened, FileStore.withPosition, FileStore.withOpened_opened, listed_store,
      FileStore.poke_opened, Slots.get?_modify, if_pos rfl, hget, Option.map_some]
  listing := by
    rw [handed_store, FileStore.listing_poke_of_outside, FileStore.withPosition, FileStore.listing_withOpened,
      listed_store, (hs.packed htop).listing_poke_low (scratch_list_le hb.fits m list)]
    rw [listed_store]
    intro j b hf
    exact Or.inl (Nat.le_trans (scratchWord_le data.length) (hs.placed hf).base_le)
  others := ⟨_, _, rfl⟩

end Delivery

/-- **A read that has everything it needs** succeeds and delivers. -/
theorem Begins.delivers (hb : h.Begins d list count f m) (hs : h.files.store.Laid)
    (htop : h.files.store.top < Word.count) (hall : ∀ s ∈ segmentsOf m list count, m.InRange s.address s.length)
    (ho : m.InRange out 4) (hn : h.files.store.FileAt f.node n) :
    ∃ h', fileRead d list count out h = .ok .success h' ∧ h.Delivers d f m (segmentsOf m list count) out
      (delivered (h.files.store.memory.span n.address n.size) f.position (segmentsOf m list count)) h' := by
  obtain ⟨slot, hslot, -⟩ := FileStore.openFile?_eq_some.1 hb.openFile
  exact ⟨_, hb.fileRead_of_inRange hs hslot htop hall ho hn, hb.delivers_handed hs htop hslot out _⟩

/-- Whatever was done to a host with a fresh file system, its heap has its layout and ends at an address that is a
word. -/
lemma laid_afterAll (hf : h.files = .empty) (calls : List StoreCall) :
    (h.afterAll calls).files.store.Laid ∧ (h.afterAll calls).files.store.top < Word.count := by
  have hempty : h.files.store = .empty := congrArg FileSystem.store hf
  constructor
  · refine (h.sustains_afterAll calls ?_).1
    rw [hempty]
    exact FileStore.laid_empty
  · apply h.bounded_afterAll calls
    rw [hempty]
    exact FileStore.sound_empty.top_lt

end Host

/-- **A read fills the segments that it serves.** Whatever was done before, a read through an open descriptor of a list
that fits and whose segments the guest has succeeds. It delivers the bytes of the file from the position on, as many as
there are and as the segments in front of the first empty one have room for. That is all the segments have room for iff
the file ends there or the segments behind are empty too, and it is nothing iff the position is at the end of the file
or the first segment is empty. -/
theorem fileRead_fills_served (h : Host) (calls : List StoreCall) (hf : h.files = .empty) {d : Int}
    {list count out : Nat} {f : OpenFile} {m : Memory} (hb : (h.afterAll calls).Begins d list count f m)
    (hall : ∀ s ∈ segmentsOf m list count, m.InRange s.address s.length) (ho : m.InRange out 4) :
    ∃ n data h', (h.afterAll calls).files.store.FileAt f.node n ∧
      data = delivered ((h.afterAll calls).files.store.memory.span n.address n.size) f.position
        (segmentsOf m list count) ∧
      Host.fileRead d list count out (h.afterAll calls) = .ok .success h' ∧
      (h.afterAll calls).Delivers d f m (segmentsOf m list count) out data h' ∧
      data.length = min (Segment.total (served (segmentsOf m list count))) (n.size - f.position) ∧
      (data.length = min (Segment.total (segmentsOf m list count)) (n.size - f.position) ↔
        n.size - f.position ≤ Segment.total (served (segmentsOf m list count)) ∨
          ∀ s ∈ Host.unserved (segmentsOf m list count), s.length = 0) ∧
      (data = [] ↔ n.size ≤ f.position ∨ ∀ s ∈ (segmentsOf m list count).head?, s.length = 0) := by
  obtain ⟨hs, htop⟩ := Host.laid_afterAll hf calls
  obtain ⟨slot, -, hget⟩ := FileStore.openFile?_eq_some.1 hb.openFile
  obtain ⟨n, hn, -⟩ := hs.opened hget
  obtain ⟨h', hx, hd⟩ := hb.delivers hs htop hall ho hn
  have hsize : ((h.afterAll calls).files.store.memory.span n.address n.size).length = n.size := Memory.length_span ..
  have hlen := Host.length_delivered ((h.afterAll calls).files.store.memory.span n.address n.size) f.position
    (segmentsOf m list count)
  have hfull := Host.length_delivered_eq_min ((h.afterAll calls).files.store.memory.span n.address n.size) f.position
    (segmentsOf m list count)
  have hnil := Host.delivered_eq_nil ((h.afterAll calls).files.store.memory.span n.address n.size) f.position
    (segmentsOf m list count)
  rw [hsize] at hlen hfull hnil
  exact ⟨n, _, h', hn, rfl, hx, hd, hlen, hfull, hnil⟩

/-- A guest: a path, a list of an empty segment and one of three bytes, the place for a result, and three bytes. -/
def skippingGuest : Memory :=
  ⟨#[47, 97, 0, 0, 24, 0, 0, 0, 0, 0, 0, 0, 24, 0, 0, 0, 3, 0, 0, 0, 0, 0, 0, 0, 0, 0, 0], #[]⟩

/-- The guest has opened a file of three bytes. -/
def skippingCalls : List StoreCall :=
  [.call (.addFile "/a" [97, 98, 99]), .call (.compute skippingGuest), .call (.pathOpen 0 2 0 20),
    .call (.compute skippingGuest)]

lemma skippingCalls_opened : ∃ f n, (Host.afterAll {} skippingCalls).files.store.openFile? 3 = some f ∧
    f.position = 0 ∧ (Host.afterAll {} skippingCalls).files.store.FileAt f.node n ∧ n.size = 3 := by
  obtain ⟨fs, hx, hg⟩ := FileSystem.empty.exists_gains_addFile "/a" [97, 98, 99] FileStore.sound_empty (by decide)
    (by decide) (by decide) (by decide) (by decide)
  have hkeeps := FileSystem.keepsOpen_addFile "/a" [97, 98, 99] FileSystem.empty
  rw [Op.after_of_ok hx] at hkeeps
  have hname : nodePath (skippingGuest.span 0 2) = "/a" := by decide
  have hlookup : fs.store.lookup "/a" = some (.file [97, 98, 99]) := by
    rw [hg.lookup]
    exact Function.update_self ..
  -- the guest finds the file that was added, and opens it as it is
  have ha : ((({} : Host).withFiles fs).bind skippingGuest).Accepts 0 2 0 skippingGuest := by
    refine ⟨by decide, rfl, by decide, ?_⟩
    rw [hname]
    exact congrArg (refusal · 0) hlookup
  obtain ⟨t, guest, ho, -, hafter, -⟩ := ha.opens hg.sound 20
  have hopened : ((({} : Host).withFiles fs).bind skippingGuest).files.store.opened = {} := hkeeps
  rw [hopened, hname] at ho
  have hhandle : t.handle 3 = some ("/a", 0) := by
    rw [ho.handle]
    exact Function.update_self ..
  have hstore : (Host.afterAll {} skippingCalls).files.store = t := by
    have hcalls : skippingCalls = List.map StoreCall.call [.addFile "/a" [97, 98, 99], .compute skippingGuest,
      .pathOpen 0 2 0 20, .compute skippingGuest] := rfl
    have hadd : Op.after (FileCall.addFile "/a" [97, 98, 99]).run {} = ({} : Host).withFiles fs := by
      rw [FileCall.run, Op.after_map, Op.after_of_ok (Host.onFiles_of_ok (h := {}) (Op.attempt_of_ok hx))]
    rw [hcalls, Host.afterAll_map_call, Host.afterCalls, hadd]
    show (Op.after (FileCall.pathOpen 0 2 0 20).run ((({} : Host).withFiles fs).bind skippingGuest)).files.store = t
    rw [FileCall.run, Op.after_map, hafter]
    rfl
  rw [hstore]
  obtain ⟨f, n, hf, hn, hpath, hposition⟩ := ho.sound.exists_open hhandle
  refine ⟨f, n, hf, hposition, hn, ?_⟩
  have hfound := ho.sound.lookup_path hn.1
  rw [hpath, ho.lookup, Function.update_self, FileStore.entry_of_file hn.2] at hfound
  have hbytes : [97, 98, 99] = t.memory.span n.address n.size := by
    have hentry := Option.some.inj hfound
    have hlookup : ((({} : Host).withFiles fs).bind skippingGuest).files.store.lookup "/a" =
        some (.file [97, 98, 99]) := hlookup
    rw [hlookup] at hentry
    exact Entry.file.inj hentry
  rw [← Memory.length_span t.memory n.address n.size, ← hbytes]
  rfl

/-- Without the empty segment in front, the guest gets the three bytes. -/
theorem fileRead_fills_served_three : ∃ data h',
    Host.fileRead 3 12 1 20 (Host.afterAll {} skippingCalls) = .ok .success h' ∧ data.length = 3 ∧
      h'.guest = some ((scattered skippingGuest [⟨24, 3⟩] data).put 20 (Bytes.ofNat 4 data.length)) := by
  obtain ⟨f, n, hopen, hposition, hn, hsize⟩ := skippingCalls_opened
  obtain ⟨n', data, h', hn', -, hx, hd, hlen, -⟩ := fileRead_fills_served {} skippingCalls rfl
    (⟨hopen, by decide, rfl, by decide⟩ : (Host.afterAll {} skippingCalls).Begins 3 12 1 f skippingGuest)
    (by decide) (by decide : skippingGuest.InRange 20 4)
  obtain rfl : n' = n := Option.some.inj (hn'.1.symm.trans hn.1)
  rw [hsize, hposition] at hlen
  exact ⟨data, h', hx, hlen, hd.guest⟩

/-- Behind an empty segment the guest gets nothing, although there are three bytes and there is room for them. -/
theorem exists_read_short : ¬ ∀ (h : Host) (calls : List StoreCall) (d : Int) (list count out : Nat) (f : OpenFile)
    (m : Memory) (n : Node) (h' : Host), h.files = .empty → (h.afterAll calls).Begins d list count f m →
    (∀ s ∈ segmentsOf m list count, m.InRange s.address s.length) → m.InRange out 4 →
    (h.afterAll calls).files.store.FileAt f.node n →
    Host.fileRead d list count out (h.afterAll calls) = .ok .success h' →
    ∃ m', h'.guest = some m' ∧
      m'.readWord out = .ok (min (Segment.total (segmentsOf m list count)) (n.size - f.position)) := by
  intro hall
  obtain ⟨f, n, hopen, hposition, hn, hsize⟩ := skippingCalls_opened
  have hb : (Host.afterAll {} skippingCalls).Begins 3 4 2 f skippingGuest := ⟨hopen, by decide, rfl, by decide⟩
  obtain ⟨hs, htop⟩ := Host.laid_afterAll (h := {}) rfl skippingCalls
  obtain ⟨h', hx, hd⟩ := hb.delivers hs htop (by decide) (by decide : skippingGuest.InRange 20 4) hn
  obtain ⟨m', hg, hword⟩ := hall {} skippingCalls 3 4 2 20 f skippingGuest n h' rfl hb (by decide) (by decide) hn hx
  have hguest := hd.guest
  rw [(Host.delivered_eq_nil _ _ _).2 (Or.inr (by decide)), Host.scattered_nil] at hguest
  obtain rfl := Option.some.inj (hg.symm.trans hguest)
  rw [hsize, hposition] at hword
  revert hword
  decide

end ToolchainHost
