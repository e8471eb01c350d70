import ToolchainHost.Proofs.Host.Rejection

/-!
# Descriptors that nobody is told

An open empties or makes its file and takes a slot for it before it stores the descriptor in the guest. Where the guest
has no place for the descriptor, the open fails, and all of that stays.

* `FileStore.Leaves`: what an open does to the store before the descriptor is stored.
* `Host.Issuing`: how an open ends, and what it leaves.
* `pathOpen_untouched_iff`: an open that fails leaves everything as it was iff there was nothing to open.
* `exists_open_left`: it does not where only the place for the descriptor is missing.
-/

namespace ToolchainHost

open Interface (Errno)

namespace FileStore

variable {s s' t t' : FileStore} {name : String} {flags : Nat}

/-- The store `t` is `s` with the file of a path opened: it was there, and may be emptied, or it is new. Its descriptor
is that of the slot that was next. -/
inductive Leaves (s : FileStore) (name : String) (flags : Nat) (t : FileStore) : Prop
  | found {i : Nat} {bytes : List UInt8} (hi : s.listing[i]? = some (name, .file bytes))
      (hl : t.listing = s.listing.set i (name, openedEntry (some (.file bytes)) flags))
      (ho : t.opened = s.opened.insert ⟨i, 0⟩)
  | made (hn : s.lookup name = none) (hl : t.listing = s.listing ++ [(name, .file [])])
      (ho : t.opened = s.opened.insert ⟨s.listing.length, 0⟩)

/-- What users see of the two stores decides it. -/
lemma Leaves.congr (h : s'.Leaves name flags t') (hl : s'.listing = s.listing) (ho : s'.opened = s.opened)
    (hl' : t.listing = t'.listing) (ho' : t.opened = t'.opened) : s.Leaves name flags t := by
  cases h with
  | found hi hlist hopen =>
    rw [hl] at hi hlist
    rw [ho] at hopen
    exact .found hi (hl'.trans hlist) (ho'.trans hopen)
  | made hn hlist hopen =>
    rw [lookup_congr hl] at hn
    rw [hl] at hlist hopen
    rw [ho] at hopen
    exact .made hn (hl'.trans hlist) (ho'.trans hopen)

/-- A slot was taken. -/
lemma Leaves.exists_insert (h : s.Leaves name flags t) : ∃ f, t.opened = s.opened.insert f := by
  cases h with
  | found _ _ ho => exact ⟨_, ho⟩
  | made _ _ ho => exact ⟨_, ho⟩

/-- There is a descriptor more. -/
lemma Leaves.exists_descriptor (hs : s.Laid) (h : s.Leaves name flags t) :
    ∃ d f, s.openFile? d = none ∧ t.openFile? d = some f := by
  obtain ⟨f, ho⟩ := h.exists_insert
  refine ⟨((s.opened.nextSlot + firstDescriptor : Nat) : Int), f, ?_, ?_⟩
  · rw [openFile?, slotOf?_nextSlot, Option.bind_some, hs.slots.get?_nextSlot]
  · rw [openFile?, slotOf?_nextSlot, Option.bind_some, ho, hs.slots.get?_insert, if_pos rfl]

/-- **A path that is not refused** is opened. -/
theorem Laid.openTarget_leaves (hs : s.Laid) (h : refusal (s.lookup name) flags = none) :
    ∃ i t, openTarget name flags s = .ok (.ok i) t ∧ (t.withOpenFile i).Laid ∧
      s.Leaves name flags (t.withOpenFile i) := by
  have hlaid {i : Nat} {t : FileStore} (hx : openTarget name flags s = .ok (.ok i) t) : (t.withOpenFile i).Laid := by
    have hadvances : Advances (fun _ => True) s t ∧ _ := (openTarget_ends hs name flags).ok hx
    obtain ⟨n, hn⟩ := hadvances.2 i rfl
    have hopen : Advances (fun _ => True) t (t.withOpenFile i) := advances_withOpenFile hadvances.1.laid hn
    exact hopen.laid
  have hopened (t : FileStore) (i : Nat) : (t.withOpenFile i).listing = t.listing := listing_withOpened ..
  cases hl : s.lookup name with
  | none =>
    have hx := openTarget_of_none hl flags
    rw [if_pos (creates_of_not_refusal (hl ▸ h))] at hx
    have hlen : s.nodes.length = s.listing.length := (List.length_map ..).symm
    refine ⟨_, _, hx, hlaid hx, .made hl ((hopened ..).trans (listing_withFreshFile ..)) ?_⟩
    rw [← hlen]
    rfl
  | some entry =>
    cases entry with
    | directory =>
      rw [hl] at h
      cases h
    | file bytes =>
      obtain ⟨i, n, hi, hf, rfl, rfl⟩ := file_of_lookup_of_nodup hs.nodup hl
      have hx := openTarget_of_file hi hf flags
      by_cases ht : Interface.hasFlag flags Interface.truncateFlag
      · rw [if_pos ht] at hx
        refine ⟨_, _, hx, hlaid hx, .found hf.listing ((hopened ..).trans ?_) rfl⟩
        rw [listing_emptied hf, openedEntry, if_pos ht]
      · rw [if_neg ht] at hx
        refine ⟨_, _, hx, hlaid hx, .found hf.listing ((hopened ..).trans ?_) rfl⟩
        rw [openedEntry, if_neg ht, hf.listing_set]

end FileStore

namespace Host

variable {h h' : Host} {path length flags out : Nat} {name : String}

/-! ### How an open ends -/

/-- How opening a file ends, and what it leaves if it fails. -/
inductive Issuing (h : Host) (path length flags out : Nat) : EStateM.Result Failure Host Errno → Prop
  | issued {m : Memory} {h' : Host} (ha : h.Accepts path length flags m) (ho : m.InRange out 4) :
      Issuing h path length flags out (.ok .success h')
  | refused {e : Errno} {h' : Host} (he : e = .invalid ∨ e = .noEntry) (hn : ∀ m, ¬ h.Accepts path length flags m)
      (hu : h.Untouched h') : Issuing h path length flags out (.ok e h')
  | unread (e : Failure) (hn : ∀ m, ¬ h.Accepts path length flags m) : Issuing h path length flags out (.error e h)
  | orphaned {m : Memory} {t : FileStore} (e : Failure) (ha : h.Accepts path length flags m) (ho : ¬ m.InRange out 4)
      (hl : h.files.store.Leaves (nodePath (m.span path length)) flags t) :
      Issuing h path length flags out (.error e (h.withStore t))

lemma Accepts.guest_unique {m m' : Memory} (ha : h.Accepts path length flags m)
    (ha' : h.Accepts path length flags m') : m' = m := Option.some.inj (ha'.guest.symm.trans ha.guest)

theorem pathOpen_issuing (hs : h.files.store.Laid) (path length flags out : Nat) :
    h.Issuing path length flags out (pathOpen path length flags out h) := by
  by_cases hl : Interface.pathLimit < length
  · rw [pathOpen_of_lt hl]
    exact .refused (Or.inl rfl) (fun _ ha => absurd ha.fits (Nat.not_le.2 hl)) (.refl h)
  have hle := Nat.not_lt.1 hl
  by_cases hn : ∀ m, h.guest = some m → ¬ m.InRange path length
  · rw [pathOpen_of_not_inRange hle hn]
    exact .unread _ fun m ha => hn m ha.guest ha.inRange
  push Not at hn
  obtain ⟨m, hg, hr⟩ := hn
  have hlow : FileStore.pathBuffer + (m.span path length).length ≤ FileStore.heapBase := by
    rw [Memory.length_span]
    exact FileStore.pathBuffer_le hle
  have hlisting := hs.listing_poke_low hlow
  have hlookup := FileStore.lookup_congr hlisting
  have hstaged := hs.poke FileStore.pathBuffer (m.span path length)
  rw [pathOpen_eq hs.base_le_size hle hg hr, staging]
  cases he : refusal (h.files.store.lookup (nodePath (m.span path length))) flags with
  | some e =>
    rw [Op.bind_of_ok (onStore_withStore_of_ok (FileStore.openTarget_of_refusal hstaged.nodup (hlookup ▸ he)))]
    refine .refused (eq_of_refusal he) (fun m' ha => ?_) ⟨hlisting, rfl, _, rfl⟩
    obtain rfl : m' = m := Option.some.inj (ha.guest.symm.trans hg)
    cases he.symm.trans ha.not_refused
  | none =>
    have ha : h.Accepts path length flags m := ⟨hle, hg, hr, he⟩
    obtain ⟨i, t, hx, hopen, hleaves⟩ := hstaged.openTarget_leaves (hlookup ▸ he)
    rw [Op.bind_of_ok (onStore_withStore_of_ok hx)]
    dsimp only
    rw [Op.bind_of_ok (onStore_withStore_of_ok (FileStore.openNode_apply t i))]
    by_cases ho : m.InRange out 4
    · have hword := storeWord_of_inRange (h := h.withStore (t.withOpenFile i)) hopen.base_le_size out
        (t.opened.nextSlot + FileStore.firstDescriptor) hg ho
      rw [Op.bind_of_ok hword, Op.pure_apply]
      exact .issued ha ho
    · -- the scratch area is below all files
      have hword := storeWord_of_not_inRange (h := h.withStore (t.withOpenFile i)) hopen.base_le_size out
        (t.opened.nextSlot + FileStore.firstDescriptor) fun m' hg' => Option.some.inj (hg.symm.trans hg') ▸ ho
      rw [Op.bind_of_error hword, withStore_withStore, withStore_store]
      exact .orphaned _ ha ho (hleaves.congr hlisting rfl (hopen.listing_poke_low (scratchWord_le _)) rfl)

/-! ### What it leaves -/

/-- The host was left with a file opened that no guest has a descriptor for. -/
structure Orphans (h : Host) (name : String) (flags : Nat) (h' : Host) : Prop where
  leaves : h.files.store.Leaves name flags h'.files.store
  descriptor : ∃ d f, h.files.store.openFile? d = none ∧ h'.files.store.openFile? d = some f
  others : ∃ t, h' = h.withStore t

lemma Orphans.not_untouched (hs : h.files.store.Laid) (ho : h.Orphans name flags h') : ¬ h.Untouched h' := by
  intro hu
  obtain ⟨f, hf⟩ := ho.leaves.exists_insert
  exact hs.slots.insert_ne_self f (hf.symm.trans hu.opened)

/-- An open that breaks off although its path is accepted leaves an orphan. -/
lemma Issuing.orphans {e : Failure} {m : Memory} (hs : h.files.store.Laid)
    (hi : h.Issuing path length flags out (.error e h')) (ha : h.Accepts path length flags m) :
    ¬ m.InRange out 4 ∧ h.Orphans (nodePath (m.span path length)) flags h' := by
  cases hi with
  | unread _ hn => exact absurd ha (hn m)
  | orphaned _ ha' ho hl =>
    obtain rfl := ha'.guest_unique ha
    exact ⟨ho, hl, hl.exists_descriptor hs, _, rfl⟩

end Host

/-- **An open that fails.** It succeeds iff the guest has its path, which is not refused, and a place for the
descriptor. One that is refused with an answer leaves everything as it was. One that breaks off does so iff the guest
does not have the path; where it has, and only the place for the descriptor is missing, the file is made or emptied as
if the open had succeeded, and a descriptor is taken that nobody is told. -/
theorem pathOpen_untouched_iff (h : Host) (calls : List StoreCall) (hf : h.files = .empty)
    (path length flags out : Nat) :
    ((∃ h', Host.pathOpen path length flags out (h.afterAll calls) = .ok .success h') ↔
      ∃ m, (h.afterAll calls).Accepts path length flags m ∧ m.InRange out 4) ∧
    (∀ e h', Host.pathOpen path length flags out (h.afterAll calls) = .ok e h' → e ≠ .success →
      (e = .invalid ∨ e = .noEntry) ∧ (h.afterAll calls).Untouched h' ∧
        ∀ m, ¬ (h.afterAll calls).Accepts path length flags m) ∧
    ∀ e h', Host.pathOpen path length flags out (h.afterAll calls) = .error e h' →
      ((h.afterAll calls).Untouched h' ↔ ∀ m, ¬ (h.afterAll calls).Accepts path length flags m) ∧
        ∀ m, (h.afterAll calls).Accepts path length flags m → ¬ m.InRange out 4 ∧
          (h.afterAll calls).Orphans (nodePath (m.span path length)) flags h' := by
  obtain ⟨hs, -⟩ := Host.laid_afterAll hf calls
  have hc := Host.pathOpen_issuing hs path length flags out
  refine ⟨⟨?_, ?_⟩, ?_, ?_⟩
  · rintro ⟨h', hx⟩
    rw [hx] at hc
    cases hc with
    | issued ha ho => exact ⟨_, ha, ho⟩
    | refused he => exact absurd he (by decide)
  · rintro ⟨m, ha, ho⟩
    generalize Host.pathOpen path length flags out (h.afterAll calls) = r at hc ⊢
    cases hc with
    | issued => exact ⟨_, rfl⟩
    | refused _ hn => exact absurd ha (hn m)
    | unread _ hn => exact absurd ha (hn m)
    | orphaned _ ha' ho' => exact absurd (ha'.guest_unique ha ▸ ho) ho'
  · intro e h' hx hne
    rw [hx] at hc
    cases hc with
    | issued => exact absurd rfl hne
    | refused he hn hu => exact ⟨he, hu, hn⟩
  · intro e h' hx
    rw [hx] at hc
    refine ⟨⟨fun hu m ha => (hc.orphans hs ha).2.not_untouched hs hu, fun hn => ?_⟩, fun m => hc.orphans hs⟩
    cases hc with
    | unread => exact .refl _
    | orphaned _ ha => exact absurd ha (hn _)

/-- The guest is about to make a file. -/
def orphaningCalls : List StoreCall := [.call (.compute overreachingGuest)]

lemma orphaningCalls_accepts :
    (Host.afterAll {} orphaningCalls).Accepts 0 2 Interface.createFlag overreachingGuest := by
  have hbound : Host.afterAll {} orphaningCalls = ({} : Host).bind overreachingGuest := rfl
  have hname : nodePath (overreachingGuest.span 0 2) = "/a" := by decide
  rw [hbound]
  refine ⟨by decide, rfl, by decide, ?_⟩
  rw [hname]
  rfl

/-- It names a place for the descriptor behind its memory. -/
lemma orphaningCalls_breaks : ∃ e h',
    Host.pathOpen 0 2 Interface.createFlag 24 (Host.afterAll {} orphaningCalls) = .error e h' := by
  obtain ⟨hs, -⟩ := Host.laid_afterAll (h := {}) rfl orphaningCalls
  have hc := Host.pathOpen_issuing hs 0 2 Interface.createFlag 24
  cases hx : Host.pathOpen 0 2 Interface.createFlag 24 (Host.afterAll {} orphaningCalls) with
  | error e h' => exact ⟨e, h', rfl⟩
  | ok e h' =>
    rw [hx] at hc
    cases hc with
    | issued ha ho =>
      obtain rfl := orphaningCalls_accepts.guest_unique ha
      exact absurd ho (by decide)
    | refused _ hn => exact absurd orphaningCalls_accepts (hn _)

/-- The open fails, and the file is there. -/
theorem pathOpen_untouched_iff_orphaning : ∃ e h',
    Host.pathOpen 0 2 Interface.createFlag 24 (Host.afterAll {} orphaningCalls) = .error e h' ∧
      ¬ (Host.afterAll {} orphaningCalls).Untouched h' ∧ h'.files.store.listing = [("/a", .file [])] := by
  obtain ⟨e, h', hx⟩ := orphaningCalls_breaks
  obtain ⟨-, -, herror⟩ := pathOpen_untouched_iff {} orphaningCalls rfl 0 2 Interface.createFlag 24
  obtain ⟨huntouched, horphans⟩ := herror e h' hx
  have hname : nodePath (overreachingGuest.span 0 2) = "/a" := by decide
  have hnothing : (Host.afterAll {} orphaningCalls).files.store.listing = [] := rfl
  refine ⟨e, h', hx, fun hu => huntouched.1 hu _ orphaningCalls_accepts, ?_⟩
  obtain ⟨-, hleft⟩ := horphans _ orphaningCalls_accepts
  cases hleft.leaves with
  | found hi =>
    rw [hnothing] at hi
    cases hi
  | made _ hl => rw [hl, hnothing, hname, List.nil_append]

/-- Not every open that fails leaves everything as it was. -/
theorem exists_open_left : ¬ ∀ (h : Host) (calls : List StoreCall) (path length flags out : Nat), h.files = .empty →
    (∀ h', Host.pathOpen path length flags out (h.afterAll calls) ≠ .ok .success h') →
    (h.afterAll calls).Untouched (Op.after (Host.pathOpen path length flags out) (h.afterAll calls)) := by
  intro hall
  obtain ⟨e, h', hx⟩ := orphaningCalls_breaks
  obtain ⟨hs, -⟩ := Host.laid_afterAll (h := {}) rfl orphaningCalls
  have hu := hall {} orphaningCalls 0 2 Interface.createFlag 24 rfl fun h'' hok => by cases hx.symm.trans hok
  rw [Op.after_of_error hx] at hu
  have hc := Host.pathOpen_issuing hs 0 2 Interface.createFlag 24
  rw [hx] at hc
  exact (hc.orphans hs orphaningCalls_accepts).2.not_untouched hs hu

end ToolchainHost
