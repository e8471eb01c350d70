import ToolchainHost.Proofs.Host.Segments

/-!
# The file calls of guests

* `Host.Opening`, `Host.Writing`, `Host.Reading`: the ways in which opening a file, writing to it and reading from it
  end, each with the answer and with what the host is then.
* `refusal`, `openedEntry`: why a path cannot be opened, and what it names once it is.
-/

namespace ToolchainHost

open Interface (Errno)

/-- Why a path is not opened, by what it names. -/
def refusal (found : Option Entry) (flags : Nat) : Option Errno :=
  match found with
  | some .directory => some .invalid
  | some (.file _) => none
  | none => if Interface.hasFlag flags Interface.createFlag then none else some .noEntry

/-- A path that names nothing is opened if it is to be created. -/
lemma creates_of_not_refusal {flags : Nat} (h : refusal none flags = none) :
    Interface.hasFlag flags Interface.createFlag = true := by
  by_contra hc
  rw [refusal, if_neg hc] at h
  cases h

lemma eq_of_refusal {found : Option Entry} {flags : Nat} {e : Errno} (h : refusal found flags = some e) :
    e = .invalid ∨ e = .noEntry := by
  unfold refusal at h
  split at h
  · cases h
    exact Or.inl rfl
  · cases h
  · split_ifs at h
    cases h
    exact Or.inr rfl

/-- What a path names once it is opened. -/
def openedEntry (found : Option Entry) (flags : Nat) : Entry :=
  match found with
  | some (.file bytes) => if Interface.hasFlag flags Interface.truncateFlag then .file [] else .file bytes
  | _ => .file []

/-- Opening a path empties its file: a new one, or one that is to be truncated. -/
def empties (found : Option Entry) (flags : Nat) : Bool :=
  found.isNone || Interface.hasFlag flags Interface.truncateFlag

lemma openedEntry_of_empties {found : Option Entry} {flags : Nat} (h : empties found flags = true) :
    openedEntry found flags = .file [] := by
  cases found with
  | none => rfl
  | some e =>
    cases e with
    | directory => rfl
    | file bytes => exact if_pos h

lemma openedEntry_of_not_empties {found : Option Entry} {flags : Nat} (hr : refusal found flags = none)
    (h : ¬ empties found flags = true) : found = some (openedEntry found flags) := by
  cases found with
  | none => exact absurd rfl h
  | some e =>
    cases e with
    | directory => cases hr
    | file bytes => exact congrArg some (if_neg h).symm

namespace FileStore

variable {s t : FileStore} {name : String} {flags d : Nat} {e : Errno}

/-- The store `t` is `s` with a path opened behind a new descriptor. -/
structure Opens (s : FileStore) (name : String) (flags d : Nat) (t : FileStore) : Prop where
  sound : t.Sound
  le : firstDescriptor ≤ d
  fresh : s.handle (d : Int) = none
  lookup : t.lookup = Function.update s.lookup name (some (openedEntry (s.lookup name) flags))
  handle : t.handle = Function.update s.handle (d : Int) (some (name, 0))

lemma openTarget_of_refusal (hd : (s.nodes.map (·.path)).Nodup) (h : refusal (s.lookup name) flags = some e) :
    openTarget name flags s = .ok (.error e) s := by
  cases hl : s.lookup name with
  | none =>
    rw [hl, refusal] at h
    rw [openTarget_of_none hl]
    split_ifs at h ⊢
    cases h
    rfl
  | some entry =>
    cases entry with
    | directory =>
      rw [hl] at h
      cases h
      exact openTarget_of_directory hd hl flags
    | file bytes =>
      rw [hl] at h
      cases h

/-- A path that is not refused is opened: its file, emptied or as it is, or a new one. -/
theorem openTarget_of_not_refusal (hs : s.Sound) (h : refusal (s.lookup name) flags = none) :
    ∃ i n t, openTarget name flags s = .ok (.ok i) t ∧ t.Sound ∧ t.FileAt i n ∧ n.path = name ∧
      t.lookup = Function.update s.lookup name (some (openedEntry (s.lookup name) flags)) ∧
      t.handle = s.handle ∧ t.opened = s.opened := by
  cases hl : s.lookup name with
  | none =>
    have hx := openTarget_of_none hl flags
    rw [if_pos (creates_of_not_refusal (hl ▸ h))] at hx
    have hlist := listing_withFreshFile s name
    exact ⟨_, _, _, hx, hs.withFreshFile hl, fileAt_withNewNode.2 (Or.inr ⟨rfl, rfl, rfl⟩), rfl,
      lookup_of_concat hl hlist, hs.handle_of_concat hlist (withNewNode_opened ..), withNewNode_opened ..⟩
  | some entry =>
    cases entry with
    | directory =>
      rw [hl] at h
      cases h
    | file bytes =>
      obtain ⟨i, n, hi, hf, rfl, hb⟩ := hs.file_of_lookup hl
      have hx := openTarget_of_file hi hf flags
      by_cases ht : Interface.hasFlag flags Interface.truncateFlag
      · rw [if_pos ht] at hx
        have hlist := listing_emptied hf
        have he : openedEntry (some (.file bytes)) flags = .file [] := if_pos ht
        have hk : ({ n with size := 0 } : Node).kind = .file := hf.2
        exact ⟨i, { n with size := 0 }, s.emptied i n, hx, hs.emptied hf,
          (fileAt_withNode hf hk).2 (Or.inl ⟨rfl, rfl⟩), rfl,
          by rw [he]; exact hs.lookup_of_set hf.1 hlist, handle_of_set hf.1 hlist rfl, rfl⟩
      · rw [if_neg ht] at hx
        have he : openedEntry (some (.file bytes)) flags = .file bytes := if_neg ht
        exact ⟨i, n, s, hx, hs, hf, rfl, by rw [he]; exact (Function.update_eq_self_iff.2 hl.symm).symm, rfl, rfl⟩

/-- Opening a path that is not refused. -/
theorem exists_opens (hs : s.Sound) (h : refusal (s.lookup name) flags = none) :
    ∃ i t d u, openTarget name flags s = .ok (.ok i) t ∧ openNode i t = .ok d u ∧ s.Opens name flags d u := by
  obtain ⟨i, n, t, hx, ht, hf, rfl, hl, hh, ho⟩ := openTarget_of_not_refusal hs h
  refine ⟨i, t, _, _, hx, openNode_apply t i, ht.withOpenFile hf, Nat.le_add_left .., ?_, ?_, ?_⟩
  · rw [← hh]
    exact ht.handle_nextSlot
  · rw [withOpenFile, lookup_congr (listing_withOpened ..), hl]
  · rw [ht.handle_withOpenFile hf, hh]

end FileStore

namespace Host

variable {h : Host} {path length flags out list count : Nat} {d : Int}

/-! ### Opening and closing -/

/-- A guest's path can be read, and is not refused. -/
structure Accepts (h : Host) (path length flags : Nat) (m : Memory) : Prop where
  fits : length ≤ Interface.pathLimit
  guest : h.guest = some m
  inRange : m.InRange path length
  not_refused : refusal (h.files.store.lookup (nodePath (m.span path length))) flags = none

/-- How opening a file ends. -/
inductive Opening (h : Host) (path length flags out : Nat) : EStateM.Result Failure Host Errno → Prop
  | tooLong (hl : Interface.pathLimit < length) : Opening h path length flags out (.ok .invalid h)
  | unread (e : Failure) (hn : ∀ m, h.guest = some m → ¬ m.InRange path length) :
      Opening h path length flags out (.error e h)
  | refused {m : Memory} {t : FileStore} {e : Errno} (hl : length ≤ Interface.pathLimit) (hg : h.guest = some m)
      (ht : h.files.store.Looks t)
      (he : refusal (h.files.store.lookup (nodePath (m.span path length))) flags = some e) :
      Opening h path length flags out (.ok e (h.withStore t))
  | opened {m : Memory} {t : FileStore} {d : Nat} (ha : h.Accepts path length flags m)
      (ho : h.files.store.Opens (nodePath (m.span path length)) flags d t) :
      Opening h path length flags out (.ok .success ((h.withStore t).bind (m.put out (Bytes.ofNat 4 d))))
  | lost {m : Memory} {t : FileStore} {d : Nat} (e : Failure) (ha : h.Accepts path length flags m)
      (ho : h.files.store.Opens (nodePath (m.span path length)) flags d t) :
      Opening h path length flags out (.error e (h.withStore t))

lemma pathOpen_of_lt (hl : Interface.pathLimit < length) (path flags out : Nat) :
    pathOpen path length flags out h = .ok .invalid h := by
  unfold pathOpen
  rw [if_pos hl, Op.pure_apply]

lemma pathOpen_of_not_inRange (hl : length ≤ Interface.pathLimit)
    (hn : ∀ m, h.guest = some m → ¬ m.InRange path length) (flags out : Nat) :
    pathOpen path length flags out h = .error (outOfReach h.guest path length) h := by
  unfold pathOpen
  rw [if_neg (Nat.not_lt.2 hl), Op.bind_of_error (copyIn_of_not_inRange hn _)]

/-- The host with a path of the guest in the path buffer. -/
def staging (h : Host) (m : Memory) (path length : Nat) : Host :=
  h.withStore (h.files.store.poke FileStore.pathBuffer (m.span path length))

lemma looks_staging (hs : h.files.store.Sound) (hl : length ≤ Interface.pathLimit) (m : Memory) (path : Nat) :
    h.files.store.Looks (h.staging m path length).files.store := by
  rw [staging, withStore_store]
  exact hs.looks_poke_low (by rw [Memory.length_span]; exact FileStore.pathBuffer_le hl)

/-- A path that the guest has is opened. -/
lemma pathOpen_eq {m : Memory} (hb : FileStore.heapBase ≤ h.files.store.memory.size)
    (hl : length ≤ Interface.pathLimit) (hg : h.guest = some m) (hr : m.InRange path length) (flags out : Nat) :
    pathOpen path length flags out h = (do
      match ← onStore (FileStore.openTarget (nodePath (m.span path length)) flags) with
      | .error e => return e
      | .ok index =>
        let descriptor ← onStore (FileStore.openNode index)
        storeWord out descriptor
        return .success : Op Host Errno) (h.staging m path length) := by
  have hcopy := copyIn_of_inRange (Nat.le_trans (FileStore.pathBuffer_le hl) hb) hg hr
  have hfits : (m.span path length).length ≤ Interface.pathLimit := by rwa [Memory.length_span]
  have hp := FileStore.stagedPath_poke hb hfits
  rw [Memory.length_span] at hp
  unfold pathOpen
  rw [if_neg (Nat.not_lt.2 hl), Op.bind_of_ok hcopy, Op.get_bind_apply, withStore_store, hp, staging]
  exact Op.lift_ok_bind _ _ _

theorem pathOpen_cases (hs : h.files.store.Sound) (path length flags out : Nat) :
    h.Opening path length flags out (pathOpen path length flags out h) := by
  by_cases hl : Interface.pathLimit < length
  · rw [pathOpen_of_lt hl]
    exact .tooLong hl
  have hle := Nat.not_lt.1 hl
  by_cases hn : ∀ m, h.guest = some m → ¬ m.InRange path length
  · rw [pathOpen_of_not_inRange hle hn]
    exact .unread _ hn
  push Not at hn
  obtain ⟨m, hg, hr⟩ := hn
  have hk := looks_staging hs hle m path
  rw [pathOpen_eq hs.base_le_size hle hg hr]
  rw [staging, withStore_store] at hk
  rw [staging]
  generalize h.files.store.poke FileStore.pathBuffer (m.span path length) = s at hk
  cases he : refusal (h.files.store.lookup (nodePath (m.span path length))) flags with
  | some e =>
    have ht := FileStore.openTarget_of_refusal hk.sound.nodup (hk.lookup.symm ▸ he)
    rw [Op.bind_of_ok (onStore_withStore_of_ok ht)]
    exact .refused hle hg hk he
  | none =>
    obtain ⟨i, t, d, u, ht, hn, ho⟩ := FileStore.exists_opens hk.sound (hk.lookup.symm ▸ he)
    have ho' : h.files.store.Opens (nodePath (m.span path length)) flags d u :=
      ⟨ho.sound, ho.le, hk.handle ▸ ho.fresh, hk.lookup ▸ ho.lookup, hk.handle ▸ ho.handle⟩
    obtain ⟨v, hv, hw⟩ := storeWord_cases (h := h.withStore u) ho.sound out d
    have hov : h.files.store.Opens (nodePath (m.span path length)) flags d v :=
      ⟨hv.sound, ho.le, ho'.fresh, hv.lookup.trans ho'.lookup, hv.handle.trans ho'.handle⟩
    rw [Op.bind_of_ok (onStore_withStore_of_ok ht)]
    dsimp only
    rw [Op.bind_of_ok (onStore_withStore_of_ok hn)]
    rcases hw with ⟨m', hg', -, hw⟩ | ⟨e, hw⟩
    · obtain rfl : m' = m := Option.some.inj (hg'.symm.trans hg)
      rw [Op.bind_of_ok hw, Op.pure_apply]
      exact .opened ⟨hle, hg, hr, he⟩ hov
    · rw [Op.bind_of_error hw]
      exact .lost e ⟨hle, hg, hr, he⟩ hov

theorem fileClose_of_none (hn : h.files.store.openFile? d = none) : fileClose d h = .ok .badDescriptor h :=
  onStore_of_ok (FileStore.close_of_none hn)

theorem fileClose_of_some {slot : Nat} {f : OpenFile} (hd : FileStore.slotOf? d = some slot)
    (hf : h.files.store.opened.get? slot = some f) :
    fileClose d h = .ok .success (h.withStore (h.files.store.withOpened (h.files.store.opened.erase slot))) :=
  onStore_of_ok (FileStore.close_of_some hd hf)

/-! ### Writing -/

/-- The descriptor is open, and the guest's segment list can be read. -/
structure Begins (h : Host) (d : Int) (list count : Nat) (f : OpenFile) (m : Memory) : Prop where
  openFile : h.files.store.openFile? d = some f
  fits : count * Segment.width ≤ FileStore.scratchLimit
  guest : h.guest = some m
  inRange : m.InRange list (count * Segment.width)

/-- The host with the position of a descriptor moved, and what looks the same. -/
def Settles (h : Host) (d : Int) (position : Nat) (u : FileStore) : Prop :=
  ∃ slot, FileStore.slotOf? d = some slot ∧ (h.files.store.withPosition slot position).Looks u

/-- The segments of a guest's list that a write puts into its file. -/
def landing (h : Host) (f : OpenFile) (m : Memory) (list count : Nat) : List Segment :=
  (segmentsOf m list count).take ((h.listed m list count).landings m f.node (segmentsOf m list count) f.position)

/-- The store `t` is that of the host with the segments that land put into the file. -/
def Rewrites (h : Host) (f : OpenFile) (m : Memory) (list count : Nat) (t : FileStore) : Prop :=
  ∃ n, h.files.store.FileAt f.node n ∧ h.files.store.Revises f.node n.path
    (rewritten h.files.store n m f.position (h.landing f m list count)) t

lemma Rewrites.sound {f : OpenFile} {m : Memory} {t : FileStore} (ht : h.Rewrites f m list count t) : t.Sound := by
  obtain ⟨n, -, hr⟩ := ht
  exact hr.sound

/-- How writing to a file ends. -/
inductive Writing (h : Host) (d : Int) (list count out : Nat) : EStateM.Result Failure Host Errno → Prop
  | notOpen (hn : h.files.store.openFile? d = none) : Writing h d list count out (.ok .badDescriptor h)
  | listTooLong {f : OpenFile} (hf : h.files.store.openFile? d = some f)
      (hl : FileStore.scratchLimit < count * Segment.width) : Writing h d list count out (.ok .invalid h)
  | unread (e : Failure) (hn : ∀ m, h.guest = some m → ¬ m.InRange list (count * Segment.width)) :
      Writing h d list count out (.error e h)
  | unaddressable {f : OpenFile} {m : Memory} (hb : h.Begins d list count f m)
      (hs : ¬ staysAddressable f.position (segmentsOf m list count)) :
      Writing h d list count out (.ok .invalid (h.listed m list count))
  | broken {f : OpenFile} {m : Memory} {t : FileStore} (e : Failure) (hb : h.Begins d list count f m)
      (hs : staysAddressable f.position (segmentsOf m list count)) (ht : h.Rewrites f m list count t) :
      Writing h d list count out (.error e (h.withStore t))
  | written {f : OpenFile} {m : Memory} {t u : FileStore} (hb : h.Begins d list count f m)
      (hs : staysAddressable f.position (segmentsOf m list count)) (ht : h.Rewrites f m list count t)
      (hall : h.landing f m list count = segmentsOf m list count)
      (hu : (h.withStore t).Settles d (f.position + Segment.total (segmentsOf m list count)) u) :
      Writing h d list count out (.ok .success
        ((h.withStore u).bind (m.put out (Bytes.ofNat 4 (Segment.total (segmentsOf m list count))))))
  | lost {f : OpenFile} {m : Memory} {t u : FileStore} (e : Failure) (hb : h.Begins d list count f m)
      (hs : staysAddressable f.position (segmentsOf m list count)) (ht : h.Rewrites f m list count t)
      (hall : h.landing f m list count = segmentsOf m list count)
      (hu : (h.withStore t).Settles d (f.position + Segment.total (segmentsOf m list count)) u) :
      Writing h d list count out (.error e (h.withStore u))

/-- Moving the position and handing over the number of bytes, which ends a read or a write. -/
theorem settle_cases (h' : Host) {slot position : Nat} (hd : FileStore.slotOf? d = some slot)
    (hs : (h'.files.store.withPosition slot position).Sound) (out total : Nat) :
    ∃ u, h'.Settles d position u ∧
      ((∃ m, h'.guest = some m ∧ (do
          onStore (FileStore.setPosition d position)
          storeWord out total
          return Errno.success : Op Host Errno) h' =
            .ok .success ((h'.withStore u).bind (m.put out (Bytes.ofNat 4 total)))) ∨
        ∃ e, (do
          onStore (FileStore.setPosition d position)
          storeWord out total
          return Errno.success : Op Host Errno) h' = .error e (h'.withStore u)) := by
  have hp := onStore_of_ok (h := h') (FileStore.setPosition_apply hd position)
  obtain ⟨u, hu, hw⟩ := storeWord_cases (h := h'.withStore (h'.files.store.withPosition slot position)) hs out total
  refine ⟨u, ⟨slot, hd, hu⟩, ?_⟩
  rcases hw with ⟨m, hg, -, hw⟩ | ⟨e, hw⟩
  · exact Or.inl ⟨m, hg, by rw [Op.bind_of_ok hp, Op.bind_of_ok hw, Op.pure_apply, withStore_withStore]⟩
  · exact Or.inr ⟨e, by rw [Op.bind_of_ok hp, Op.bind_of_error hw, withStore_withStore]⟩

/-- The segments that land are put into the file, and the write goes on or breaks off. -/
lemma Begins.rewrites {f : OpenFile} {m : Memory} (hb : h.Begins d list count f m) (hs : h.files.store.Sound)
    (hst : staysAddressable f.position (segmentsOf m list count)) :
    ∃ t, h.Rewrites f m list count t ∧
      (h.landing f m list count ≠ segmentsOf m list count ∧
          (∃ e, writeSegments f.node (segmentsOf m list count) f.position 0 (h.listed m list count) =
            .error e (h.withStore t)) ∨
        h.landing f m list count = segmentsOf m list count ∧
          writeSegments f.node (segmentsOf m list count) f.position 0 (h.listed m list count) =
            .ok (f.position + Segment.total (segmentsOf m list count), Segment.total (segmentsOf m list count))
              (h.withStore t)) := by
  have hk := looks_listed hs hb.fits m list
  have hlow := scratch_list_le hb.fits m list
  obtain ⟨hp, n, hn⟩ := hs.fileAt_of_open hb.openFile
  have hn' : (h.listed m list count).files.store.FileAt f.node n := by
    rw [listed_store]
    exact FileStore.fileAt_poke.2 hn
  obtain ⟨t, ht, hx⟩ := writeSegments_cases hk.sound hn' ((listed_guest ..).trans hb.guest)
    ((staysAddressable_iff hp).1 hst) (Nat.zero_le f.position)
  refine ⟨t, ⟨n, hn, ?_⟩, ?_⟩
  · have hr := hk.trans_revises ht
    rwa [listed_store, rewritten_poke_low hs hn hlow] at hr
  · rw [withStore_listed, Nat.zero_add] at hx
    refine hx.imp (fun hx => ⟨fun hall => ?_, hx.2⟩) fun hx => ⟨by rw [landing, hx.1, List.take_length], hx.2⟩
    have hlen := congrArg List.length hall
    rw [landing, List.length_take] at hlen
    omega

section FileWrite

variable (hd : Interface.isStandard d = false)

include hd

/-- A write to a file does nothing with the terminal. -/
lemma fileWrite_apply (list count out : Nat) : fileWrite d list count out h = (do
    match h.files.store.openFile? d with
    | none => return .badDescriptor
    | some file =>
      match ← guestSegments list count with
      | none => return .invalid
      | some segments =>
        if !staysAddressable file.position segments then return .invalid
        let (position, total) ← writeSegments file.node segments file.position 0
        onStore (FileStore.setPosition d position)
        storeWord out total
        return .success : Op Host Errno) h := by
  unfold fileWrite
  rw [if_neg (by simp [hd])]
  exact Op.get_bind_apply ..

lemma fileWrite_of_none (hf : h.files.store.openFile? d = none) (list count out : Nat) :
    fileWrite d list count out h = .ok .badDescriptor h := by
  rw [fileWrite_apply hd, hf]
  rfl

lemma fileWrite_of_lt {f : OpenFile} (hf : h.files.store.openFile? d = some f)
    (hl : FileStore.scratchLimit < count * Segment.width) (list out : Nat) :
    fileWrite d list count out h = .ok .invalid h := by
  rw [fileWrite_apply hd, hf]
  dsimp only
  rw [Op.bind_of_ok (guestSegments_of_lt hl list)]
  rfl

lemma fileWrite_of_not_inRange {f : OpenFile} (hf : h.files.store.openFile? d = some f)
    (hc : count * Segment.width ≤ FileStore.scratchLimit)
    (hn : ∀ m, h.guest = some m → ¬ m.InRange list (count * Segment.width)) (out : Nat) :
    fileWrite d list count out h = .error (outOfReach h.guest list (count * Segment.width)) h := by
  rw [fileWrite_apply hd, hf]
  dsimp only
  rw [Op.bind_of_error (guestSegments_of_not_inRange hc hn)]

/-- A write that begins goes on with the segments of the guest's list. -/
lemma Begins.fileWrite_eq {f : OpenFile} {m : Memory} (hb : h.Begins d list count f m)
    (hbase : FileStore.heapBase ≤ h.files.store.memory.size) (out : Nat) : fileWrite d list count out h = (do
      if !staysAddressable f.position (segmentsOf m list count) then return .invalid
      let (position, total) ← writeSegments f.node (segmentsOf m list count) f.position 0
      onStore (FileStore.setPosition d position)
      storeWord out total
      return .success : Op Host Errno) (h.listed m list count) := by
  rw [fileWrite_apply hd, hb.openFile]
  dsimp only
  rw [Op.bind_of_ok (guestSegments_of_inRange hbase hb.fits hb.guest hb.inRange)]

end FileWrite

theorem fileWrite_cases (hs : h.files.store.Sound) (hd : Interface.isStandard d = false) (list count out : Nat) :
    h.Writing d list count out (fileWrite d list count out h) := by
  cases hf : h.files.store.openFile? d with
  | none =>
    rw [fileWrite_of_none hd hf]
    exact .notOpen hf
  | some f =>
    by_cases hl : FileStore.scratchLimit < count * Segment.width
    · rw [fileWrite_of_lt hd hf hl]
      exact .listTooLong hf hl
    by_cases hn : ∀ m, h.guest = some m → ¬ m.InRange list (count * Segment.width)
    · rw [fileWrite_of_not_inRange hd hf (Nat.not_lt.1 hl) hn]
      exact .unread _ hn
    push Not at hn
    obtain ⟨m, hg, hr⟩ := hn
    have hb : h.Begins d list count f m := ⟨hf, Nat.not_lt.1 hl, hg, hr⟩
    rw [hb.fileWrite_eq hd hs.base_le_size]
    by_cases hst : staysAddressable f.position (segmentsOf m list count) = true
    · have hstop := (staysAddressable_iff (hs.fileAt_of_open hf).1).1 hst
      obtain ⟨t, ht, ⟨-, e, he⟩ | ⟨hall, hw⟩⟩ := hb.rewrites hs hst
      · rw [if_neg (by simp [hst]), Op.bind_of_error he]
        exact .broken e hb hst ht
      · obtain ⟨slot, hslot, -⟩ := FileStore.openFile?_eq_some.1 hf
        obtain ⟨u, hu, hend⟩ := settle_cases (h.withStore t) hslot
          (ht.sound.withPosition hstop) out (Segment.total (segmentsOf m list count))
        rw [if_neg (by simp [hst]), Op.bind_of_ok hw]
        dsimp only
        rw [withStore_withStore, withStore_guest] at hend
        rcases hend with ⟨m', hg', hend⟩ | ⟨e, hend⟩
        · obtain rfl : m' = m := Option.some.inj (hg'.symm.trans hg)
          rw [hend]
          exact .written hb hst ht hall hu
        · rw [hend]
          exact .lost e hb hst ht hall hu
    · rw [if_pos (by simpa using hst), Op.pure_apply]
      exact .unaddressable hb hst

lemma Settles.sound {position : Nat} {u : FileStore} (hu : h.Settles d position u) : u.Sound := by
  obtain ⟨slot, -, hl⟩ := hu
  exact hl.sound

lemma Settles.lookup {position : Nat} {u : FileStore} (hu : h.Settles d position u) :
    u.lookup = h.files.store.lookup := by
  obtain ⟨slot, -, hl⟩ := hu
  rw [hl.lookup, FileStore.withPosition, FileStore.lookup_congr (FileStore.listing_withOpened ..)]

/-- The position of a descriptor is all that moves. -/
lemma Settles.handle {position : Nat} {u : FileStore} {f : OpenFile} {n : Node} (hu : h.Settles d position u)
    (hf : h.files.store.openFile? d = some f) (hn : h.files.store.FileAt f.node n) :
    u.handle = Function.update h.files.store.handle d (some (n.path, position)) := by
  obtain ⟨slot, hslot, hl⟩ := hu
  obtain ⟨slot', hslot', hget⟩ := FileStore.openFile?_eq_some.1 hf
  obtain rfl := Option.some.inj (hslot.symm.trans hslot')
  rw [hl.handle, FileStore.handle_withPosition hslot hget hn]

/-- A revised file, and the position behind what was written. -/
lemma Settles.of_revises {position : Nat} {t u : FileStore} {f : OpenFile} {path : String}
    {bytes : List UInt8} (hr : h.files.store.Revises f.node path bytes t) (hu : (h.withStore t).Settles d position u)
    (hf : h.files.store.openFile? d = some f) :
    u.lookup = Function.update h.files.store.lookup path (some (.file bytes)) ∧
      u.handle = Function.update h.files.store.handle d (some (path, position)) := by
  obtain ⟨n, hn, hpath, -⟩ := hr.fileAt
  have hf' : t.openFile? d = some f := by
    rw [← hf, FileStore.openFile?, hr.opened, FileStore.openFile?]
  have hlookup := hu.lookup
  have hhandle := hu.handle hf' hn
  rw [withStore_store] at hlookup hhandle
  exact ⟨hlookup.trans hr.lookup, by rw [hhandle, hr.handle, hpath]⟩

/-! ### Reading -/

/-- How reading from a file ends. -/
inductive Reading (h : Host) (d : Int) (list count out : Nat) : EStateM.Result Failure Host Errno → Prop
  | notOpen (hn : h.files.store.openFile? d = none) : Reading h d list count out (.ok .badDescriptor h)
  | listTooLong {f : OpenFile} (hf : h.files.store.openFile? d = some f)
      (hl : FileStore.scratchLimit < count * Segment.width) : Reading h d list count out (.ok .invalid h)
  | broken {h' : Host} (e : Failure) (hk : h.files.store.Looks h'.files.store)
      (hr : h'.files.registered = h.files.registered) : Reading h d list count out (.error e h')
  | read {f : OpenFile} {m : Memory} {n : Node} {u : FileStore} {data : List UInt8} (hb : h.Begins d list count f m)
      (hf : h.files.store.FileAt f.node n)
      (hd : data = delivered (h.files.store.memory.span n.address n.size) f.position (segmentsOf m list count))
      (hu : h.Settles d (f.position + data.length) u) :
      Reading h d list count out (.ok .success
        ((h.withStore u).bind ((scattered m (segmentsOf m list count) data).put out (Bytes.ofNat 4 data.length))))
  | lost {u : FileStore} {h' : Host} {position : Nat} (e : Failure) (hu : h.Settles d position u)
      (hs : h'.files.store = u) (hr : h'.files.registered = h.files.registered) :
      Reading h d list count out (.error e h')

lemma bind_withStore (h : Host) (m : Memory) (s : FileStore) : (h.bind m).withStore s = (h.withStore s).bind m := rfl

lemma bind_bind (h : Host) (m m' : Memory) : (h.bind m).bind m' = h.bind m' := rfl

/-- Moving a position is the same in stores that look the same. -/
lemma Settles.of_looks {h' : Host} {position : Nat} {u : FileStore} (hk : h.files.store.Looks h'.files.store)
    (hu : h'.Settles d position u) : h.Settles d position u := by
  obtain ⟨slot, hslot, hl⟩ := hu
  refine ⟨slot, hslot, hl.sound, hl.listing.trans ?_, hl.opened.trans ?_⟩
  · rw [FileStore.withPosition, FileStore.withPosition, FileStore.listing_withOpened, FileStore.listing_withOpened,
      hk.listing]
  · rw [FileStore.withPosition, FileStore.withPosition, FileStore.withOpened_opened, FileStore.withOpened_opened,
      hk.opened]

/-- A read breaks off and changes nothing that users see, or delivers the bytes of the file. -/
lemma Begins.reads {f : OpenFile} {m : Memory} (hb : h.Begins d list count f m) (hs : h.files.store.Sound) :
    ∃ n b, h.files.store.FileAt f.node n ∧ (h.listed m list count).files.store.FileAt f.node b ∧
      ((∃ e h', readSegments b (segmentsOf m list count) f.position 0 (h.listed m list count) = .error e h' ∧
          h'.files = (h.listed m list count).files) ∨
        ∃ data, data = delivered (h.files.store.memory.span n.address n.size) f.position (segmentsOf m list count) ∧
          f.position + data.length < Word.count ∧
          readSegments b (segmentsOf m list count) f.position 0 (h.listed m list count) =
            .ok (f.position + data.length, data.length)
              ((h.listed m list count).bind (scattered m (segmentsOf m list count) data))) := by
  have hk := looks_listed hs hb.fits m list
  obtain ⟨hp, n, hn⟩ := hs.fileAt_of_open hb.openFile
  obtain ⟨b, hfb, -, hbytes⟩ := hk.fileAt hn
  have hfiles := files_readSegments (h := h.listed m list count) (hk.sound.backs hfb) (segmentsOf m list count)
    (Nat.zero_le f.position)
  refine ⟨n, b, hn, hfb, ?_⟩
  cases hread : readSegments b (segmentsOf m list count) f.position 0 (h.listed m list count) with
  | error e h' =>
    rw [Op.after_of_error hread] at hfiles
    exact Or.inl ⟨e, h', rfl, hfiles⟩
  | ok r h' =>
    obtain ⟨position, total⟩ := r
    obtain ⟨rfl, rfl, rfl⟩ := readSegments_eq (h := h.listed m list count) (hk.sound.backs hfb)
      ((listed_guest ..).trans hb.guest) (Nat.zero_le _) hread
    have hle := length_delivered_le (h.files.store.memory.span n.address n.size) f.position
      (segmentsOf m list count)
    obtain ⟨h1, h2, h3⟩ := hs.placed hn
    have h4 := hs.top_lt
    rw [Memory.length_span] at hle
    rw [hbytes, Nat.zero_add]
    exact Or.inr ⟨_, rfl, by omega, rfl⟩

section FileRead

variable (hd : d ≠ 0)

include hd

/-- A read from a file does nothing with the terminal. -/
lemma fileRead_apply (list count out : Nat) : fileRead d list count out h = (do
    match h.files.store.openFile? d with
    | none => return .badDescriptor
    | some file =>
      match ← guestSegments list count with
      | none => return .invalid
      | some segments =>
        let n ← onStore (FileStore.nodeAt file.node)
        let (position, total) ← readSegments n segments file.position 0
        onStore (FileStore.setPosition d position)
        storeWord out total
        return .success : Op Host Errno) h := by
  unfold fileRead
  rw [if_neg hd]
  exact Op.get_bind_apply ..

lemma fileRead_of_none (hf : h.files.store.openFile? d = none) (list count out : Nat) :
    fileRead d list count out h = .ok .badDescriptor h := by
  rw [fileRead_apply hd, hf]
  rfl

lemma fileRead_of_lt {f : OpenFile} (hf : h.files.store.openFile? d = some f)
    (hl : FileStore.scratchLimit < count * Segment.width) (list out : Nat) :
    fileRead d list count out h = .ok .invalid h := by
  rw [fileRead_apply hd, hf]
  dsimp only
  rw [Op.bind_of_ok (guestSegments_of_lt hl list)]
  rfl

lemma fileRead_of_not_inRange {f : OpenFile} (hf : h.files.store.openFile? d = some f)
    (hc : count * Segment.width ≤ FileStore.scratchLimit)
    (hn : ∀ m, h.guest = some m → ¬ m.InRange list (count * Segment.width)) (out : Nat) :
    fileRead d list count out h = .error (outOfReach h.guest list (count * Segment.width)) h := by
  rw [fileRead_apply hd, hf]
  dsimp only
  rw [Op.bind_of_error (guestSegments_of_not_inRange hc hn)]

/-- A read that begins goes on with the segments of the guest's list. -/
lemma Begins.fileRead_eq {f : OpenFile} {m : Memory} {n : Node} (hb : h.Begins d list count f m)
    (hbase : FileStore.heapBase ≤ h.files.store.memory.size)
    (hn : (h.listed m list count).files.store.FileAt f.node n) (out : Nat) :
    fileRead d list count out h = (do
      let (position, total) ← readSegments n (segmentsOf m list count) f.position 0
      onStore (FileStore.setPosition d position)
      storeWord out total
      return .success : Op Host Errno) (h.listed m list count) := by
  have hnode := onStore_of_ok (FileStore.nodeAt_of_some hn.1)
  rw [fileRead_apply hd, hb.openFile]
  dsimp only
  rw [Op.bind_of_ok (guestSegments_of_inRange hbase hb.fits hb.guest hb.inRange)]
  dsimp only
  rw [Op.bind_of_ok hnode, withStore_self]

end FileRead

theorem fileRead_cases (hs : h.files.store.Sound) (hd : d ≠ 0) (list count out : Nat) :
    h.Reading d list count out (fileRead d list count out h) := by
  cases hf : h.files.store.openFile? d with
  | none =>
    rw [fileRead_of_none hd hf]
    exact .notOpen hf
  | some f =>
    by_cases hl : FileStore.scratchLimit < count * Segment.width
    · rw [fileRead_of_lt hd hf hl]
      exact .listTooLong hf hl
    by_cases hn : ∀ m, h.guest = some m → ¬ m.InRange list (count * Segment.width)
    · rw [fileRead_of_not_inRange hd hf (Nat.not_lt.1 hl) hn]
      exact .broken _ (.refl hs) rfl
    push Not at hn
    obtain ⟨m, hg, hr⟩ := hn
    have hb : h.Begins d list count f m := ⟨hf, Nat.not_lt.1 hl, hg, hr⟩
    have hk := looks_listed hs hb.fits m list
    obtain ⟨n, b, hn, hfb, hread⟩ := hb.reads hs
    rw [hb.fileRead_eq hd hs.base_le_size hfb]
    rcases hread with ⟨e, h', he, hfiles⟩ | ⟨data, hdata, hlt, hread⟩
    · rw [Op.bind_of_error he]
      refine .broken e ?_ ?_
      · rw [hfiles]
        exact hk
      · rw [hfiles, listed, withStore_registered]
    · obtain ⟨slot, hslot, -⟩ := FileStore.openFile?_eq_some.1 hf
      obtain ⟨u, hu, hend⟩ := settle_cases
        ((h.listed m list count).bind (scattered m (segmentsOf m list count) data)) hslot
        (hk.sound.withPosition hlt) out data.length
      have hu' : h.Settles d (f.position + data.length) u := hu.of_looks hk
      rw [Op.bind_of_ok hread]
      dsimp only
      rcases hend with ⟨m', hg', hend⟩ | ⟨e, hend⟩
      · obtain rfl := Option.some.inj ((bind_guest ..).symm.trans hg')
        rw [hend, bind_withStore, bind_bind, withStore_listed]
        exact .read hb hn hdata hu'
      · rw [hend, bind_withStore, withStore_listed]
        exact .lost e hu' rfl rfl

end Host

end ToolchainHost
