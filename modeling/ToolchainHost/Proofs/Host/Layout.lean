import ToolchainHost.Proofs.Files.Layout
import ToolchainHost.Proofs.Files.Steps
import ToolchainHost.Proofs.Host.Plain
import ToolchainHost.Proofs.Host.Stdio

/-!
# The layout of the heap under all calls

* `StoreCall`: everything that guests and the host can do to the store, also to its memory.
* `FileCall.footprint`: where a call of a guest may change bytes.
* `layout_holds`: whatever is done, the layout holds, no node is lost, and guests' calls stay within their footprints.
-/

namespace ToolchainHost

open Interface (Errno)

/-- A sum that is a word. -/
lemma Word.eq_of_add {a b c : Nat} (h : Word.add a b = .ok c) : a + b = c := by
  unfold Word.add at h
  split_ifs at h
  exact Except.ok.inj h

namespace FileStore

/-- The path buffer. -/
def InPathBuffer (k : Nat) : Prop := pathBuffer ≤ k ∧ k < pathBuffer + Interface.pathLimit

/-- The scratch area. -/
def InScratch (k : Nat) : Prop := scratch ≤ k ∧ k < scratch + scratchLimit

end FileStore

open FileStore (Laid Extends Advances Owns InPathBuffer InScratch)

variable {area : Nat → Prop}

namespace Host

variable {h : Host} {α : Type} {path length flags out list count position total i : Nat} {n : Node} {d : Int}
  {segments : List Segment}

/-- An operation on the store, seen from the host. -/
lemma onStore_ends {x : Op FileStore α} {P : α → FileStore → Prop} {Q : α → Host → Prop} {E : FileStore → Prop}
    {E' : Host → Prop} (hx : Op.Ends x h.files.store P E) (hq : ∀ a t, P a t → Q a (h.withStore t))
    (he : ∀ t, E t → E' (h.withStore t)) : Op.Ends (onStore x) h Q E' :=
  Op.Ends.onPart (Op.Ends.onPart (hx.mono hq he))

/-- The store of the host has advanced. -/
def Moves (area : Nat → Prop) (h h' : Host) : Prop := Advances area h.files.store h'.files.store

lemma Moves.trans {h₁ h₂ : Host} (h1 : Moves area h h₁) (h2 : Moves area h₁ h₂) : Moves area h h₂ :=
  Advances.trans h1 h2

lemma moves_of_files (hs : h.files.store.Laid) {h' : Host} (hf : h'.files = h.files) : Moves area h h' := by
  unfold Moves
  rw [hf]
  exact .refl hs

lemma copyOut_ends (h : Host) (target source size : Nat) :
    Op.Ends (copyOut target source size) h (fun _ h' => h'.files = h.files) (fun h' => h'.files = h.files) :=
  Op.ends_get_bind (Op.ends_lift_bind (fun _ _ => Op.ends_of_ok rfl rfl) rfl)

section Low

variable (hs : h.files.store.Laid)

include hs

/-- What is below the heap holds no file. -/
lemma moves_poke_low {address : Nat} {data : List UInt8} (hl : address + data.length ≤ FileStore.heapBase)
    (ha : ∀ k, address ≤ k → k < address + data.length → area k) :
    Moves area h (h.withStore (h.files.store.poke address data)) :=
  FileStore.advances_poke hs (Nat.le_trans hl hs.base_le) ha

/-- The result of a call goes through the scratch area. -/
lemma storeWord_ends (ha : ∀ k, InScratch k → area k) (out value : Nat) :
    Op.Ends (storeWord out value) h (fun _ => Moves area h) (Moves area h) := by
  have hlen : (Bytes.ofNat 4 value).length = 4 := Bytes.length_ofNat 4 value
  have hl : FileStore.scratch + (Bytes.ofNat 4 value).length ≤ FileStore.heapBase :=
    FileStore.scratch_le (by rw [hlen]; decide)
  have hm : Moves area h (h.withStore (h.files.store.poke FileStore.scratch (Bytes.ofNat 4 value))) :=
    moves_poke_low hs hl fun k h1 h2 => ha k ⟨h1, Nat.lt_of_lt_of_le h2 (Nat.add_le_add_left (by rw [hlen]; decide) _)⟩
  refine Op.ends_bind_of_ok (onStore_of_ok (FileStore.write_of_le (hs.le_size hl))) ?_
  exact (copyOut_ends _ out FileStore.scratch 4).mono (fun _ _ hf => hm.trans (moves_of_files hm.laid hf))
    fun _ hf => hm.trans (moves_of_files hm.laid hf)

/-- A segment list goes through the scratch area. -/
lemma guestSegments_ends (list count : Nat) :
    Op.Ends (guestSegments list count) h
      (fun _ h' => ∃ data, data.length ≤ FileStore.scratchLimit ∧
        h' = h.withStore (h.files.store.poke FileStore.scratch data))
      (Moves InScratch h) := by
  unfold guestSegments
  dsimp only
  split_ifs with hc
  · exact Op.ends_pure ⟨[], Nat.zero_le _, rfl⟩
  · have hc := Nat.not_lt.1 hc
    have hlow := FileStore.scratch_le hc
    rcases copyIn_cases (hs.le_size hlow) list with ⟨m, -, -, hx⟩ | ⟨-, e, hx⟩
    · have hlen : (m.span list (count * Segment.width)).length = count * Segment.width := Memory.length_span ..
      rw [← hlen] at hlow
      refine Op.ends_bind_of_ok hx (Op.ends_get_bind (Op.ends_lift_bind (fun data _ => ?_) ?_))
      · exact Op.ends_pure ⟨_, by rwa [hlen], rfl⟩
      · exact moves_poke_low hs hlow fun k h1 h2 => ⟨h1, by rw [hlen] at h2; omega⟩
    · exact Op.ends_of_error (Op.bind_of_error hx) (moves_of_files hs rfl)

/-! ### The calls of guests -/

/-- **Opening a file** changes bytes of the path buffer and of the scratch area. -/
theorem pathOpen_ends (path length flags out : Nat) :
    Op.Ends (pathOpen path length flags out) h (fun _ => Moves (fun k => InPathBuffer k ∨ InScratch k) h)
      (Moves (fun k => InPathBuffer k ∨ InScratch k) h) := by
  unfold pathOpen
  split_ifs with hc
  · exact Op.ends_pure (moves_of_files hs rfl)
  have hc := Nat.not_lt.1 hc
  have hlow := FileStore.pathBuffer_le hc
  rcases copyIn_cases (hs.le_size hlow) path with ⟨m, -, -, hx⟩ | ⟨-, e, hx⟩
  swap
  · exact Op.ends_of_error (Op.bind_of_error hx) (moves_of_files hs rfl)
  have hlen : (m.span path length).length = length := Memory.length_span ..
  rw [← hlen] at hlow
  have hpath : Moves (fun k => InPathBuffer k ∨ InScratch k) h _ :=
    moves_poke_low hs hlow fun k h1 h2 => Or.inl ⟨h1, by rw [hlen] at h2; omega⟩
  refine Op.ends_bind_of_ok hx (Op.ends_get_bind (Op.ends_lift_bind (fun name _ => ?_) hpath))
  refine .bind (P := fun (r : Except Errno Nat) h' => Moves (fun k => InPathBuffer k ∨ InScratch k) h h' ∧
      ∀ i, r = .ok i → ∃ n, h'.files.store.FileAt i n)
    (onStore_ends (FileStore.openTarget_ends hpath.laid name flags)
      (fun _ _ ht => ⟨Advances.trans hpath ht.1, ht.2⟩) fun _ ht => Advances.trans hpath ht) ?_
  rintro r h' ⟨htarget, hr⟩
  cases r with
  | error e => exact Op.ends_pure htarget
  | ok i =>
    obtain ⟨n, hn⟩ := hr i rfl
    have hopen : Moves (fun k => InPathBuffer k ∨ InScratch k) h (h'.withStore (h'.files.store.withOpenFile i)) :=
      Advances.trans htarget (FileStore.advances_withOpenFile htarget.laid hn)
    refine Op.ends_bind_of_ok (onStore_of_ok (FileStore.openNode_apply ..)) ?_
    refine .bind ((storeWord_ends hopen.laid (fun _ => Or.inr) out _).mono (fun _ _ ht => hopen.trans ht)
      fun _ ht => hopen.trans ht) fun _ h'' ht => ?_
    exact Op.ends_pure ht

/-- Closing a descriptor changes no byte. -/
theorem fileClose_ends (d : Int) :
    Op.Ends (fileClose d) h (fun _ => Moves (fun _ => False) h) (Moves (fun _ => False) h) :=
  onStore_ends (FileStore.close_ends hs d) (fun _ _ ht => ht) fun _ ht => ht

/-- Segments are written into the place of a file. -/
theorem writeSegments_ends (ho : Owns area h.files.store i n) (hp : position ≤ n.capacity) (segments : List Segment)
    (total : Nat) :
    Op.Ends (writeSegments i segments position total) h
      (fun r h' => Moves area h h' ∧ h'.files.store.opened = h.files.store.opened ∧
        ∃ n', h'.files.store.FileAt i n' ∧ r.1 ≤ n'.capacity)
      (Moves area h) := by
  induction segments generalizing h n position total with
  | nil => exact Op.ends_pure ⟨moves_of_files hs rfl, rfl, n, ho.fileAt, hp⟩
  | cons s rest ih =>
    have hstart : Moves area h h := moves_of_files hs rfl
    refine Op.ends_lift_bind (fun stop hstop => ?_) hstart
    obtain rfl : position + s.length = stop := Word.eq_of_add hstop
    refine .bind (P := fun n' h' => Moves area h h' ∧ Owns area h'.files.store i n' ∧
        position + s.length ≤ n'.capacity ∧ h'.files.store.opened = h.files.store.opened)
      (onStore_ends (FileStore.reserve_ends hs ho _) (fun _ _ ht => ht) fun _ ht => ht) ?_
    rintro n' h₁ ⟨hm, ho', hcap, hopened⟩
    refine Op.ends_lift_bind (fun address haddress => ?_) hm
    obtain rfl : n'.address + position = address := Word.eq_of_add haddress
    have hin : n'.address + position + s.length ≤ h₁.files.store.memory.size := by
      have h1 := (hm.laid.placed ho'.fileAt).stop_le
      have h2 := hm.laid.top_le
      omega
    rcases copyIn_cases hin s.address with ⟨m, -, -, hx⟩ | ⟨-, e, hx⟩
    swap
    · exact Op.ends_of_error (Op.bind_of_error hx) hm
    have hlen : (m.span s.address s.length).length = s.length := Memory.length_span ..
    have hext := FileStore.extend_poke ho'.fileAt position (m.span s.address s.length)
    have hroom : position + (m.span s.address s.length).length ≤ n'.capacity := by rwa [hlen]
    rw [hlen] at hext
    obtain ⟨hm', ho''⟩ := ho'.stored hm.laid hroom
    have hcap' : position + s.length ≤
        (FileStore.lengthened n' (position + (m.span s.address s.length).length)).capacity := hcap
    have hstep : Moves area h (h₁.withStore _) := Advances.trans hm hm'
    refine Op.ends_bind_of_ok hx (Op.ends_bind_of_ok (onStore_withStore_of_ok hext) ?_)
    refine Op.ends_lift_bind (fun total' _ => ?_) hstep
    refine (ih hm'.laid ho'' hcap' total').mono ?_ fun _ ht => hstep.trans ht
    rintro r h₂ ⟨ht, ho₂, hn⟩
    exact ⟨hstep.trans ht, ho₂.trans hopened, hn⟩

/-- Where a write to a descriptor may change bytes: in the scratch area, in the place of its file, and in places that
are handed out for it. -/
def writeFootprint (h : Host) (d : Int) (k : Nat) : Prop :=
  InScratch k ∨ ∃ f n, h.files.store.openFile? d = some f ∧ h.files.store.FileAt f.node n ∧
    (n.address ≤ k ∧ k < n.address + n.capacity ∨ h.files.store.top ≤ k)

/-- **Writing to a file** changes bytes of the scratch area and of the places of this file. -/
theorem fileWrite_ends (d : Int) (list count out : Nat) :
    Op.Ends (fileWrite d list count out) h (fun _ => Moves (h.writeFootprint d) h) (Moves (h.writeFootprint d) h) := by
  unfold fileWrite
  split_ifs with hd
  · refine Op.Ends.bind (P := fun _ h' => h'.files = h.files) ?_ fun _ _ hf => Op.ends_pure (moves_of_files hs hf)
    exact ((within_write d list count out).ends h).mono (fun _ _ ht => ht.files) fun _ ht => moves_of_files hs ht.files
  refine Op.ends_get_bind ?_
  cases hopen : h.files.store.openFile? d with
  | none => exact Op.ends_pure (moves_of_files hs rfl)
  | some f =>
    obtain ⟨slot, hslot, hget⟩ := FileStore.openFile?_eq_some.1 hopen
    obtain ⟨n, hn, hpos⟩ := hs.opened hget
    have hscratch {h' : Host} (hm : Moves InScratch h h') : Moves (h.writeFootprint d) h h' :=
      ⟨hm.laid, hm.grows, fun k hk => hm.byte_eq k (hk.imp_left fun hn hk => hn (Or.inl hk))⟩
    refine .bind ((guestSegments_ends hs list count).mono (fun _ _ hp => hp) fun _ => hscratch) ?_
    rintro segments h₁ ⟨data, hdata, rfl⟩
    have hlow := FileStore.scratch_le hdata
    have hm := hscratch (moves_poke_low hs hlow fun k h1 h2 =>
      ⟨h1, Nat.lt_of_lt_of_le h2 (Nat.add_le_add_left hdata _)⟩)
    cases segments with
    | none => exact Op.ends_pure hm
    | some segments =>
      dsimp only
      by_cases hstays : !staysAddressable f.position segments
      · rw [if_pos hstays]
        exact Op.ends_pure hm
      rw [if_neg hstays]
      have howns : Owns (h.writeFootprint d) (h.files.store.poke FileStore.scratch data) f.node n :=
        ⟨FileStore.fileAt_poke.2 hn, fun k h1 h2 => Or.inr ⟨f, n, hopen, hn, Or.inl ⟨h1, h2⟩⟩,
          fun k hk => Or.inr ⟨f, n, hopen, hn, Or.inr hk⟩⟩
      refine .bind ((writeSegments_ends hm.laid howns hpos segments 0).mono
        (fun r h' hp => (⟨hm.trans hp.1, hp.2⟩ : Moves (h.writeFootprint d) h h' ∧ _)) fun _ ht => hm.trans ht) ?_
      rintro ⟨position, total⟩ h₂ ⟨hm₂, hopened, n', hn', hp'⟩
      have hget₂ : h₂.files.store.opened.get? slot = some f := by rw [hopened]; exact hget
      have hpos₂ : Moves (h.writeFootprint d) h (h₂.withStore (h₂.files.store.withPosition slot position)) :=
        Advances.trans hm₂ (FileStore.advances_withPosition hm₂.laid hget₂ hn' hp')
      refine Op.ends_bind_of_ok (onStore_of_ok (FileStore.setPosition_apply hslot position)) ?_
      refine .bind ((storeWord_ends hpos₂.laid (fun _ => Or.inl) out total).mono (fun _ _ ht => hpos₂.trans ht)
        fun _ ht => hpos₂.trans ht) fun _ _ ht => ?_
      exact Op.ends_pure ht

/-- Reading segments moves the position within the file. -/
lemma readSegments_ends (hn : n.size ≤ n.capacity) (hp : position ≤ n.capacity) (segments : List Segment)
    (total : Nat) :
    Op.Ends (readSegments n segments position total) h (fun r h' => h'.files = h.files ∧ r.1 ≤ n.capacity)
      (fun h' => h'.files = h.files) := by
  induction segments generalizing h position total with
  | nil => exact Op.ends_pure ⟨rfl, hp⟩
  | cons s rest ih =>
    unfold readSegments
    dsimp only
    split_ifs with hc
    · exact Op.ends_pure ⟨rfl, hp⟩
    refine Op.ends_lift_bind (fun address _ => ?_) rfl
    refine .bind (copyOut_ends h _ _ _) fun _ h₁ hf => ?_
    refine Op.ends_lift_bind (fun position' hposition => ?_) hf
    refine Op.ends_lift_bind (fun total' _ => ?_) hf
    obtain rfl := Word.eq_of_add hposition
    refine (ih (h := h₁) (hf ▸ hs) (by omega) total').mono (fun r h₂ hp => ⟨hp.1.trans hf, hp.2⟩) fun _ ht => ?_
    exact ht.trans hf

/-- **Reading from a file** changes bytes of the scratch area. -/
theorem fileRead_ends (d : Int) (list count out : Nat) :
    Op.Ends (fileRead d list count out) h (fun _ => Moves InScratch h) (Moves InScratch h) := by
  unfold fileRead
  split_ifs with hd
  · refine Op.Ends.bind (P := fun _ h' => h'.files = h.files) ?_ fun _ _ hf => Op.ends_pure (moves_of_files hs hf)
    exact ((within_read d list count out).ends h).mono (fun _ _ ht => ht.files) fun _ ht => moves_of_files hs ht.files
  refine Op.ends_get_bind ?_
  cases hopen : h.files.store.openFile? d with
  | none => exact Op.ends_pure (moves_of_files hs rfl)
  | some f =>
    obtain ⟨slot, hslot, hget⟩ := FileStore.openFile?_eq_some.1 hopen
    obtain ⟨n, hn, hpos⟩ := hs.opened hget
    refine .bind (guestSegments_ends hs list count) ?_
    rintro segments h₁ ⟨data, hdata, rfl⟩
    have hlow := FileStore.scratch_le hdata
    have hm : Moves InScratch h _ := moves_poke_low hs hlow fun k h1 h2 =>
      ⟨h1, Nat.lt_of_lt_of_le h2 (Nat.add_le_add_left hdata _)⟩
    cases segments with
    | none => exact Op.ends_pure hm
    | some segments =>
      have hn' : (h.files.store.poke FileStore.scratch data).FileAt f.node n := FileStore.fileAt_poke.2 hn
      refine Op.ends_bind_of_ok (onStore_of_ok (FileStore.nodeAt_of_some hn'.1)) ?_
      refine .bind ((readSegments_ends hm.laid (hs.placed hn).size_le hpos segments 0).mono (fun _ _ hp => hp)
        fun _ hf => hm.trans (moves_of_files hm.laid hf)) ?_
      rintro ⟨position, total⟩ h₂ ⟨hf, hp'⟩
      have hm₂ := hm.trans (moves_of_files hm.laid hf)
      have hpos₂ : Moves InScratch h (h₂.withStore (h₂.files.store.withPosition slot position)) := by
        refine Advances.trans hm₂ (FileStore.advances_withPosition hm₂.laid (f := f) ?_ ?_ hp')
        · rw [hf]
          exact hget
        · rw [hf]
          exact hn'
      refine Op.ends_bind_of_ok (onStore_of_ok (FileStore.setPosition_apply hslot position)) ?_
      refine .bind ((storeWord_ends hpos₂.laid (fun _ => id) out total).mono (fun _ _ ht => hpos₂.trans ht)
        fun _ ht => hpos₂.trans ht) fun _ _ ht => ?_
      exact Op.ends_pure ht

end Low

end Host

/-! ### The calls of the host -/

namespace FileStore

/-- The store keeps its layout and its nodes. -/
def Sustains (s t : FileStore) : Prop := s.Laid → t.Laid ∧ s.Extends t

instance : IsPreorder FileStore Sustains where
  refl s hs := ⟨hs, .refl s⟩
  trans _ _ _ h1 h2 hs := by
    obtain ⟨ht, hst⟩ := h1 hs
    obtain ⟨hu, htu⟩ := h2 ht
    exact ⟨hu, hst.trans htu⟩

variable {α : Type} {x : Op FileStore α}

lemma within_of_ends
    (h : ∀ s, s.Laid → Op.Ends x s (fun _ => Advances (fun _ => False) s) (Advances (fun _ => False) s)) :
    Op.Within Sustains x := by
  intro s hs
  have hm := (h s hs).after
  exact ⟨hm.laid, hm.grows⟩

/-- Bytes may be written anywhere. -/
lemma within_write (address : Nat) (data : List UInt8) : Op.Within Sustains (write address data) := by
  intro s hs
  by_cases h : address + data.length ≤ s.memory.size
  · rw [Op.after_of_ok (write_of_le h)]
    exact ⟨hs.poke address data, s.extends_poke address data⟩
  · rw [Op.after_of_error (write_of_lt (Nat.not_le.1 h))]
    exact ⟨hs, .refl s⟩

end FileStore

namespace FileSystem

open FileStore (Sustains)

/-- The store keeps its layout and its nodes. -/
def SustainsStore (fs fs' : FileSystem) : Prop := Sustains fs.store fs'.store

instance : IsPreorder FileSystem SustainsStore where
  refl fs := refl_of Sustains fs.store
  trans _ _ _ := trans_of Sustains

variable {α : Type} {x : Op FileStore α}

lemma within_onStore (h : Op.Within Sustains x) : Op.Within SustainsStore (onStore x) :=
  Op.within_onPart fun fs => h fs.store

lemma within_writeStore (address : Nat) (data : List UInt8) :
    Op.Within SustainsStore (onStore (FileStore.write address data)) :=
  within_onStore (FileStore.within_write address data)

lemma within_register (path : String) (kind : NodeKind) : Op.Within SustainsStore (register path kind) :=
  Op.within_modify fun fs => refl_of Sustains fs.store

theorem sustains_addDirectory (path : String) : Op.Within SustainsStore (addDirectory path) :=
  within_addDirectory within_writeStore within_register (fun length => within_onStore
    (FileStore.within_of_ends fun _ hs => FileStore.addDirectoryNode_ends hs length)) path

theorem sustains_addFile (path : String) (contents : List UInt8) :
    Op.Within SustainsStore (addFile path contents) :=
  within_addFile within_writeStore within_register (fun length size => within_onStore
    (FileStore.within_of_ends fun _ hs => FileStore.addFileNode_ends hs length size)) path contents

end FileSystem

/-! ### Everything that can be done -/

/-- What guests and the host do to the store, beyond the calls by which files are used: no guest may be bound, and the
host may use the store directly, or write into its memory. What only asks the store is left out. -/
inductive StoreCall where
  | call (c : FileCall)
  | unbind
  | fileExists (path : String)
  | addDirectoryNode (length : Nat)
  | addFileNode (length size : Nat)
  | write (address : Nat) (data : List UInt8)

/-- How the host does it. -/
def StoreCall.run : StoreCall → Op Host Unit
  | call c => do let _ ← c.run
  | unbind => modify Host.unbind
  | fileExists path => do let _ ← Host.onFiles (FileSystem.fileExists path)
  | addDirectoryNode length => do let _ ← Host.onStore (FileStore.addDirectoryNode length)
  | addFileNode length size => do let _ ← Host.onStore (FileStore.addFileNode length size)
  | write address data => Host.onStore (FileStore.write address data)

/-- Where a call of a guest may change bytes of the store. -/
def FileCall.footprint (h : Host) : FileCall → Nat → Prop
  | .pathOpen .., k => InPathBuffer k ∨ InScratch k
  | .write d .., k => h.writeFootprint d k
  | .read .., k => InScratch k
  | .close _, _ | .compute _, _ => False
  | .addFile .., _ | .addDirectory _, _ | .contents _, _ => True

/-- A guest makes the call. -/
def FileCall.IsGuest : FileCall → Prop
  | .compute _ | .pathOpen .. | .write .. | .read .. | .close _ => True
  | .addFile .. | .addDirectory _ | .contents _ => False

namespace Host

variable {h : Host}

/-- The store keeps its layout and its nodes. -/
def SustainsStore (h h' : Host) : Prop := FileStore.Sustains h.files.store h'.files.store

instance : IsPreorder Host SustainsStore where
  refl h := refl_of FileStore.Sustains h.files.store
  trans _ _ _ := trans_of FileStore.Sustains

lemma within_onFiles {α : Type} {x : Op FileSystem α} (hx : Op.Within FileSystem.SustainsStore x) :
    Op.Within SustainsStore (onFiles x) := Op.within_onPart fun h => hx h.files

/-- **A call of a guest** keeps the layout and the nodes, and changes bytes within its footprint. -/
theorem moves_of_isGuest (hs : h.files.store.Laid) {c : FileCall} (hc : c.IsGuest) :
    Moves (c.footprint h) h (Op.after c.run h) := by
  cases c with
  | compute m => exact moves_of_files hs rfl
  | pathOpen path length flags out =>
    rw [FileCall.run, Op.after_map]
    exact (pathOpen_ends hs path length flags out).after
  | write d list count out =>
    rw [FileCall.run, Op.after_map]
    exact (fileWrite_ends hs d list count out).after
  | read d list count out =>
    rw [FileCall.run, Op.after_map]
    exact (fileRead_ends hs d list count out).after
  | close d =>
    rw [FileCall.run, Op.after_map]
    exact (fileClose_ends hs d).after
  | addFile | addDirectory | contents => exact hc.elim

/-- **One step** of whatever is done keeps the layout and the nodes. -/
theorem within_run (c : StoreCall) : Op.Within SustainsStore c.run := by
  cases c with
  | call c =>
    refine Op.Within.bind ?_ fun _ => Op.within_pure _
    by_cases hc : c.IsGuest
    · intro h hs
      have hm := moves_of_isGuest hs hc
      exact ⟨hm.laid, hm.grows⟩
    · cases c with
      | addFile path data => exact (within_onFiles (FileSystem.sustains_addFile path data).attempt).map _
      | addDirectory path => exact (within_onFiles (FileSystem.sustains_addDirectory path).attempt).map _
      | contents path =>
        exact (within_onFiles (FileSystem.within_contents FileSystem.within_writeStore path).attempt).map _
      | _ => exact absurd trivial hc
  | unbind => exact Op.within_modify fun h => refl_of FileStore.Sustains h.files.store
  | fileExists path =>
    exact (within_onFiles (FileSystem.within_fileExists FileSystem.within_writeStore path)).bind fun _ =>
      Op.within_pure _
  | addDirectoryNode length =>
    refine (within_onFiles (FileSystem.within_onStore ?_)).bind fun _ => Op.within_pure _
    exact FileStore.within_of_ends fun s hs => FileStore.addDirectoryNode_ends hs length
  | addFileNode length size =>
    refine (within_onFiles (FileSystem.within_onStore ?_)).bind fun _ => Op.within_pure _
    exact FileStore.within_of_ends fun s hs => FileStore.addFileNode_ends hs length size
  | write address data => exact within_onFiles (FileSystem.within_writeStore address data)

/-- The host after everything that was done, also where it failed. -/
def afterAll (h : Host) (calls : List StoreCall) : Host := calls.foldl (fun h c => Op.after c.run h) h

lemma afterAll_append (h : Host) (before after : List StoreCall) :
    h.afterAll (before ++ after) = (h.afterAll before).afterAll after := List.foldl_append

/-- Calls alone leave what they leave as calls. -/
lemma afterAll_map_call (h : Host) (calls : List FileCall) : h.afterAll (calls.map .call) = h.afterCalls calls := by
  induction calls generalizing h with
  | nil => rfl
  | cons c calls ih =>
    have hrun : Op.after (StoreCall.call c).run h = Op.after c.run h := by
      rw [StoreCall.run, bind_pure_comp, Op.after_map]
    rw [List.map_cons, afterAll, List.foldl_cons, hrun]
    exact ih _

/-- Any number of steps. -/
theorem sustains_afterAll (h : Host) (calls : List StoreCall) : SustainsStore h (h.afterAll calls) := by
  induction calls generalizing h with
  | nil => exact refl_of SustainsStore h
  | cons c rest ih => exact trans_of SustainsStore (within_run c h) (ih _)

end Host

/-- **The layout of the heap holds.** Whatever guests and the host do, and wherever it fails, the places of files lie
within what was handed out and share no byte, the positions of open files lie within the places of their files, and the
index finds exactly the node of a path. No path loses its node, no node changes its kind, and no place shrinks. A call
of a guest changes bytes within its footprint, and below what is handed out behind it. -/
theorem layout_holds (h : Host) (calls : List StoreCall) (hf : h.files = .empty) :
    (h.afterAll calls).files.store.Laid ∧
    (∀ path i, (h.afterAll calls).files.store.indexOf? path = some i ↔
      ∃ n, (h.afterAll calls).files.store.nodes[i]? = some n ∧ n.path = path) ∧
    (∀ before after, calls = before ++ after →
      (h.afterAll before).files.store.Extends (h.afterAll calls).files.store ∧
      ∀ path i, (h.afterAll before).files.store.indexOf? path = some i →
        (h.afterAll calls).files.store.indexOf? path = some i) ∧
    ∀ c : FileCall, c.IsGuest → ∀ k,
      (¬ c.footprint (h.afterAll calls) k ∨ (Op.after c.run (h.afterAll calls)).files.store.top ≤ k) →
      (Op.after c.run (h.afterAll calls)).files.store.memory.byte k = (h.afterAll calls).files.store.memory.byte k := by
  have hempty : h.files.store.Laid := by
    rw [hf]
    exact FileStore.laid_empty
  obtain ⟨hs, -⟩ := h.sustains_afterAll calls hempty
  refine ⟨hs, fun path i => hs.indexOf?_eq_some, fun before after hsplit => ?_,
    fun c hc k hk => (Host.moves_of_isGuest hs hc).byte_eq k hk⟩
  have hbefore := (h.sustains_afterAll before hempty).1
  have hrest := (h.afterAll before).sustains_afterAll after hbefore
  rw [← Host.afterAll_append, ← hsplit] at hrest
  refine ⟨hrest.2, fun path i hi => ?_⟩
  obtain ⟨n, hn, rfl⟩ := hbefore.indexOf?_eq_some.1 hi
  obtain ⟨n', hn', hp, -⟩ := hrest.2.node hn
  exact hs.indexOf?_eq_some.2 ⟨n', hn', hp⟩

/-- The layout holds behind a file that was added and bytes that were written below the heap. -/
theorem layout_holds_added :
    (Host.afterAll {} [.call (.addFile "/a" [1]), .write 0 [7]]).files.store.Laid ∧
      (Host.afterAll {} [.call (.addFile "/a" [1])]).files.store.Extends
        (Host.afterAll {} [.call (.addFile "/a" [1]), .write 0 [7]]).files.store := by
  obtain ⟨hs, -, hgrows, -⟩ := layout_holds {} [.call (.addFile "/a" [1]), .write 0 [7]] rfl
  exact ⟨hs, (hgrows [.call (.addFile "/a" [1])] [.write 0 [7]] rfl).1⟩

end ToolchainHost
