import ToolchainHost.Proofs.Files.History
import ToolchainHost.Proofs.Host.Calls
import ToolchainHost.Proofs.Host.Stdio
import ToolchainHost.Proofs.Host.Success

/-!
# What a run stores in files, and what it uncovers

* `FileCall.events`: which contents a call discards and which bytes it stores.
* `Host.Exposes`: the calls that bring discarded bytes back.
* `faithful_iff_not_exposes`: the files of a run hold what was stored in them as long as no call is one of these.
-/

namespace ToolchainHost

open Interface (Errno)
open FileSystem (storedPath)
open Host (segmentsOf gathered staysAddressable)

/-- What a call does to the bytes of files, the latest event first. -/
def FileCall.events (h : Host) : FileCall → List FileEvent
  | .pathOpen path length flags _ =>
    match h.guest with
    | none => []
    | some m =>
      let name := nodePath (m.span path length)
      if (length ≤ Interface.pathLimit ∧ m.InRange path length ∧ refusal (h.files.store.lookup name) flags = none) ∧
          empties (h.files.store.lookup name) flags then
        [.discarded name]
      else []
  | .write d list count _ =>
    match h.files.store.openFile? d, h.files.store.handle d, h.guest with
    | some f, some (path, position), some m =>
      if count * Segment.width ≤ FileStore.scratchLimit ∧ m.InRange list (count * Segment.width) ∧
          staysAddressable position (segmentsOf m list count) then
        match h.landing f m list count with
        | [] => []
        | s :: rest => [.stored path position (gathered m (s :: rest))]
      else []
    | _, _, _ => []
  | .addFile path data =>
    match FileSystem.addFile path data h.files with
    | .ok .. => [.stored (storedPath path) 0 data, .discarded (storedPath path)]
    | .error (.outOfBounds ..) _ => [.discarded (storedPath path)]
    | .error .. => []
  | _ => []

namespace Host

variable {h h' : Host} {m : Memory}

/-- Discarded bytes come back. A write whose first segment stays in place behind the end of its file, on a place that
still holds a byte there, uncovers that byte; so does a file whose contents are too long to be stored. -/
inductive Exposes (h : Host) : FileCall → Prop
  | write {d : Int} {list count out k : Nat} {f : OpenFile} {m : Memory} {n : Node} {s : Segment}
      {rest : List Segment} (hb : h.Begins d list count f m) (hn : h.files.store.FileAt f.node n)
      (hsegments : segmentsOf m list count = s :: rest)
      (hs : f.position + Segment.total (s :: rest) < Word.count) (hr : m.InRange s.address s.length)
      (hplace : f.position + s.length ≤ n.capacity) (h1 : n.size ≤ k) (h2 : k < f.position)
      (hbyte : h.files.store.memory.byte (n.address + k) ≠ 0) : Exposes h (.write d list count out)
  | addFile {path : String} {data : List UInt8} {address count size : Nat} {fs : FileSystem} {b : UInt8}
      (hx : FileSystem.addFile path data h.files = .error (.outOfBounds address count size) fs)
      (hb : b ∈ h.files.store.recycled (storedPath path) (data.length % Word.count)) (hbyte : b ≠ 0) :
      Exposes h (.addFile path data)

/-- What a call leaves, as a change of what the paths name. -/
def Evolving (h : Host) (c : FileCall) (t : FileStore) : Prop :=
  t.Sound ∧ ∃ gap, Catalog.Evolves h.files.store.lookup gap (c.events h) t.lookup ∧
    ((∃ b ∈ gap, b ≠ 0) ↔ h.Exposes c)

lemma evolving_of_lookup {c : FileCall} {t : FileStore} (ht : t.Sound) (hl : t.lookup = h.files.store.lookup)
    (he : c.events h = []) (hx : ¬ h.Exposes c) : h.Evolving c t := by
  refine ⟨ht, [], ?_, ?_⟩
  · rw [he, hl]
    exact .same fun _ _ hf => hf
  · simpa using hx

/-! ### Opening -/

/-- A path that is accepted is emptied, or left as it is. -/
lemma Accepts.events {path length flags : Nat} (ha : h.Accepts path length flags m) (out : Nat) :
    (FileCall.pathOpen path length flags out).events h =
      if empties (h.files.store.lookup (nodePath (m.span path length))) flags then
        [.discarded (nodePath (m.span path length))]
      else [] := by
  unfold FileCall.events
  rw [ha.guest]
  exact if_congr (and_iff_right ⟨ha.fits, ha.inRange, ha.not_refused⟩) rfl rfl

lemma pathOpen_evolving (hs : h.files.store.Sound) (path length flags out : Nat) :
    h.Evolving (.pathOpen path length flags out) (Op.after (pathOpen path length flags out) h).files.store := by
  have hx : ¬ h.Exposes (.pathOpen path length flags out) := fun hx => by cases hx
  have hopened {m : Memory} {t : FileStore} {d : Nat} (ha : h.Accepts path length flags m)
      (ho : h.files.store.Opens (nodePath (m.span path length)) flags d t) :
      h.Evolving (.pathOpen path length flags out) t := by
    refine ⟨ho.sound, [], ?_, by simpa using hx⟩
    rw [ho.lookup, ha.events]
    by_cases he : empties (h.files.store.lookup (nodePath (m.span path length))) flags = true
    · rw [if_pos he, openedEntry_of_empties he]
      exact .discarded ..
    · rw [if_neg he, ← openedEntry_of_not_empties ha.not_refused he, Function.update_eq_self]
      exact .same fun _ _ hf => hf
  have hnone (hn : ∀ m, h.guest = some m → ¬ (length ≤ Interface.pathLimit ∧ m.InRange path length ∧
      refusal (h.files.store.lookup (nodePath (m.span path length))) flags = none)) :
      (FileCall.pathOpen path length flags out).events h = [] := by
    unfold FileCall.events
    cases hg : h.guest with
    | none => rfl
    | some m => exact if_neg fun hc => hn m hg hc.1
  have hc := pathOpen_cases hs path length flags out
  cases hr : pathOpen path length flags out h with
  | ok e h' =>
    rw [hr] at hc
    rw [Op.after_of_ok hr]
    cases hc with
    | tooLong hl => exact evolving_of_lookup hs rfl (hnone fun m _ hm => absurd hm.1 (Nat.not_le.2 hl)) hx
    | @refused m' t e hl hg ht he =>
      refine evolving_of_lookup ht.sound ht.lookup (hnone fun m hg' hm => ?_) hx
      obtain rfl : m' = m := Option.some.inj (hg.symm.trans hg')
      rw [he] at hm
      cases hm.2.2
    | opened ha ho => exact hopened ha ho
  | error e h' =>
    rw [hr] at hc
    rw [Op.after_of_error hr]
    cases hc with
    | unread e hn => exact evolving_of_lookup hs rfl (hnone fun m hg hm => hn m hg hm.2.1) hx
    | lost e ha ho => exact hopened ha ho

/-! ### Writing -/

section Write

variable {d : Int} {list count out : Nat} {f : OpenFile} {n : Node}

/-- A write puts a segment into its file iff the first one lands. -/
lemma landing_eq_cons {s : Segment} {rest : List Segment} (hn : h.files.store.FileAt f.node n)
    (hl : h.landing f m list count = s :: rest) :
    (∃ more, segmentsOf m list count = s :: more) ∧ (h.listed m list count).Lands n s f.position := by
  have hn' : (h.listed m list count).files.store.FileAt f.node n := by
    rw [listed_store]
    exact FileStore.fileAt_poke.2 hn
  unfold landing at hl
  cases hs : segmentsOf m list count with
  | nil =>
    rw [hs, List.take_nil] at hl
    cases hl
  | cons s' more =>
    rw [hs] at hl
    by_cases hland : (h.listed m list count).Lands n s' f.position
    · rw [landings_cons hn' hland, List.take_succ_cons] at hl
      obtain ⟨rfl, -⟩ := List.cons.inj hl
      exact ⟨⟨more, rfl⟩, hland⟩
    · rw [landings_cons_of_not hn' hland] at hl
      cases hl

lemma landing_ne_nil {s : Segment} {more : List Segment} (hn : h.files.store.FileAt f.node n)
    (hs : segmentsOf m list count = s :: more) (hland : (h.listed m list count).Lands n s f.position) :
    h.landing f m list count ≠ [] := by
  have hn' : (h.listed m list count).files.store.FileAt f.node n := by
    rw [listed_store]
    exact FileStore.fileAt_poke.2 hn
  rw [landing, hs, landings_cons hn' hland, List.take_succ_cons]
  simp

lemma events_write (hb : h.Begins d list count f m) (hst : staysAddressable f.position (segmentsOf m list count))
    (hn : h.files.store.FileAt f.node n) (out : Nat) :
    (FileCall.write d list count out).events h = match h.landing f m list count with
      | [] => []
      | s :: rest => [.stored n.path f.position (gathered m (s :: rest))] := by
  dsimp only [FileCall.events]
  rw [hb.openFile, FileStore.handle_of_open hb.openFile hn.1, hb.guest]
  exact if_pos ⟨hb.fits, hb.inRange, hst⟩

lemma events_write_of_not
    (hn : ∀ f m, h.Begins d list count f m → ¬ staysAddressable f.position (segmentsOf m list count)) (out : Nat) :
    (FileCall.write d list count out).events h = [] := by
  dsimp only [FileCall.events]
  split
  · rename_i f path position m hf hd hg
    refine if_neg fun hc => hn f m ⟨hf, hc.1, hg, hc.2.1⟩ ?_
    have hp : f.position = position := by
      rw [FileStore.handle, hf, Option.bind_some, FileStore.handleOf] at hd
      obtain ⟨e, -, he⟩ := Option.map_eq_some_iff.1 hd
      exact congrArg Prod.snd he
    exact hp ▸ hc.2.2
  · rfl

/-- When a write exposes bytes, by its descriptor, its first segment and its file. -/
lemma exposes_write_iff {s : Segment} {more : List Segment} (hb : h.Begins d list count f m)
    (hn : h.files.store.FileAt f.node n) (hsegments : segmentsOf m list count = s :: more) :
    h.Exposes (.write d list count out) ↔ f.position + Segment.total (s :: more) < Word.count ∧
      m.InRange s.address s.length ∧ f.position + s.length ≤ n.capacity ∧
      ∃ k, n.size ≤ k ∧ k < f.position ∧ h.files.store.memory.byte (n.address + k) ≠ 0 := by
  constructor
  · intro hx
    cases hx with
    | @write _ _ _ _ k f' m' n' s' more' hb' hn' hsegments' hs hr hplace h1 h2 hbyte =>
      obtain rfl : f' = f := Option.some.inj (hb'.openFile.symm.trans hb.openFile)
      obtain rfl : m' = m := Option.some.inj (hb'.guest.symm.trans hb.guest)
      obtain rfl : n' = n := Option.some.inj (hn'.1.symm.trans hn.1)
      obtain ⟨rfl, rfl⟩ := List.cons.inj (hsegments'.symm.trans hsegments)
      exact ⟨hs, hr, hplace, k, h1, h2, hbyte⟩
  · rintro ⟨hs, hr, hplace, k, h1, h2, hbyte⟩
    exact .write hb hn hsegments hs hr hplace h1 h2 hbyte

/-- A byte between the end of a file and a position behind it. -/
lemma mem_residue {store : FileStore} {position stop : Nat} {b : UInt8} (hb : b ∈ store.residue n position stop)
    (hz : b ≠ 0) : stop ≤ n.capacity ∧ ∃ k, n.size ≤ k ∧ k < position ∧ store.memory.byte (n.address + k) = b := by
  unfold FileStore.residue at hb
  split_ifs at hb with hc
  · obtain ⟨j, hj, rfl⟩ := List.mem_map.1 hb
    rw [List.mem_range] at hj
    exact ⟨hc, n.size + j, by omega, by omega, by rw [Nat.add_assoc]⟩
  · exact absurd (List.eq_of_mem_replicate hb) hz

lemma byte_mem_residue {store : FileStore} {position stop k : Nat} (hc : stop ≤ n.capacity) (h1 : n.size ≤ k)
    (h2 : k < position) : store.memory.byte (n.address + k) ∈ store.residue n position stop := by
  rw [FileStore.residue, if_pos hc]
  refine List.mem_map.2 ⟨k - n.size, List.mem_range.2 (by omega), ?_⟩
  congr 1
  omega

/-- A write of which no segment lands changes no file. -/
lemma Rewrites.lookup_of_nil {t : FileStore} (hs : h.files.store.Sound) (ht : h.Rewrites f m list count t)
    (hland : h.landing f m list count = []) : t.lookup = h.files.store.lookup := by
  obtain ⟨n, hn, hr⟩ := ht
  have hf : h.files.store.lookup n.path = some (.file (h.files.store.memory.span n.address n.size)) := by
    rw [hs.lookup_path hn.1, FileStore.entry_of_file hn.2]
  rw [hr.lookup, hland]
  exact Function.update_eq_self_iff.2 hf.symm

/-- What a write leaves when the segments that land have been put into the file. -/
lemma Rewrites.evolving {t u : FileStore} (hs : h.files.store.Sound) (hb : h.Begins d list count f m)
    (hst : staysAddressable f.position (segmentsOf m list count)) (ht : h.Rewrites f m list count t) (hu : u.Sound)
    (hl : u.lookup = t.lookup) (out : Nat) : h.Evolving (.write d list count out) u := by
  have hquiet := ht.lookup_of_nil hs
  obtain ⟨n, hn, hr⟩ := ht
  have hf : h.files.store.lookup n.path = some (.file (h.files.store.memory.span n.address n.size)) := by
    rw [hs.lookup_path hn.1, FileStore.entry_of_file hn.2]
  have he := events_write hb hst hn out
  cases hland : h.landing f m list count with
  | nil =>
    rw [hland] at he
    refine evolving_of_lookup hu (hl.trans (hquiet hland)) he fun hx => ?_
    cases hsegments : segmentsOf m list count with
    | nil =>
      cases hx with
      | write hb' _ hsegments' =>
        obtain rfl := Option.some.inj (hb'.guest.symm.trans hb.guest)
        rw [hsegments] at hsegments'
        cases hsegments'
    | cons s more =>
      obtain ⟨-, hrange, hplace, -⟩ := (exposes_write_iff hb hn hsegments).1 hx
      refine landing_ne_nil hn hsegments ⟨⟨m, (listed_guest ..).trans hb.guest, hrange⟩, fun hlt => ?_⟩ hland
      exact absurd hplace (Nat.not_le.2 hlt)
  | cons s rest =>
    obtain ⟨⟨more, hsegments⟩, ⟨m', hg', hrange⟩, -⟩ := landing_eq_cons hn hland
    obtain rfl : m' = m := Option.some.inj (hg'.symm.trans ((listed_guest ..).trans hb.guest))
    rw [hland] at he hr
    refine ⟨hu, h.files.store.residue n f.position (f.position + s.length), ?_, ?_⟩
    · rw [hl, hr.lookup, he]
      exact .stored (gathered m' (s :: rest)) hf (by rw [FileStore.length_residue, Memory.length_span])
    · rw [exposes_write_iff hb hn hsegments]
      constructor
      · rintro ⟨b, hmem, hz⟩
        obtain ⟨hplace, k, h1, h2, rfl⟩ := mem_residue hmem hz
        have hstop := (staysAddressable_iff (hs.fileAt_of_open hb.openFile).1).1 hst
        exact ⟨hsegments ▸ hstop, hrange, hplace, k, h1, h2, hz⟩
      · rintro ⟨-, -, hplace, k, h1, h2, hbyte⟩
        exact ⟨_, byte_mem_residue hplace h1 h2, hbyte⟩

/-- Writing to a terminal descriptor touches no file. -/
lemma files_fileWrite_of_isStandard (hd : Interface.isStandard d = true) (list count out : Nat) :
    (Op.after (fileWrite d list count out) h).files = h.files := by
  have hx : fileWrite d list count out = (do
      let _ ← write d list count out
      return .success : Op Host Errno) := by
    unfold fileWrite
    rw [if_pos hd]
  rw [hx]
  exact ((within_write d list count out).bind (fun _ => Op.within_pure _) h).files

lemma openFile?_of_isStandard (hd : Interface.isStandard d = true) : h.files.store.openFile? d = none := by
  have hlt : d < (FileStore.firstDescriptor : Int) := by
    unfold FileStore.firstDescriptor
    simp only [Interface.isStandard, Interface.standardDescriptors, List.contains_eq_mem, List.mem_cons,
      List.not_mem_nil, or_false, decide_eq_true_eq] at hd
    omega
  rw [FileStore.openFile?, FileStore.slotOf?, if_neg (Int.not_le.2 hlt), Option.bind_none]

lemma fileWrite_evolving (hs : h.files.store.Sound) (d : Int) (list count out : Nat) :
    h.Evolving (.write d list count out) (Op.after (fileWrite d list count out) h).files.store := by
  have hnot (hn : ∀ f m, h.Begins d list count f m → ¬ staysAddressable f.position (segmentsOf m list count))
      {t : FileStore} (ht : t.Sound) (hl : t.lookup = h.files.store.lookup) :
      h.Evolving (.write d list count out) t := by
    refine evolving_of_lookup ht hl (events_write_of_not hn out) fun hx => ?_
    cases hx with
    | write hb hf hsegments hstop =>
      refine hn _ _ hb ((staysAddressable_iff (hs.fileAt_of_open hb.openFile).1).2 ?_)
      rwa [hsegments]
  have hclosed (hn : h.files.store.openFile? d = none) :
      ∀ f m, h.Begins d list count f m → ¬ staysAddressable f.position (segmentsOf m list count) := by
    intro f m hb
    cases hn.symm.trans hb.openFile
  by_cases hd : Interface.isStandard d = true
  · have hk := files_fileWrite_of_isStandard (h := h) hd list count out
    exact hnot (hclosed (openFile?_of_isStandard hd)) (by rwa [hk]) (by rw [hk])
  have hc := fileWrite_cases hs (Bool.eq_false_iff.2 hd) list count out
  cases hr : fileWrite d list count out h with
  | ok e h' =>
    rw [hr] at hc
    rw [Op.after_of_ok hr]
    cases hc with
    | notOpen hn => exact hnot (hclosed hn) hs rfl
    | listTooLong hf hl => exact hnot (fun f m hb => absurd hb.fits (Nat.not_le.2 hl)) hs rfl
    | @unaddressable f m hb hst =>
      have hk := looks_listed hs hb.fits m list
      refine hnot (fun f' m' hb' => ?_) hk.sound hk.lookup
      obtain rfl : f' = f := Option.some.inj (hb'.openFile.symm.trans hb.openFile)
      obtain rfl : m' = m := Option.some.inj (hb'.guest.symm.trans hb.guest)
      exact hst
    | written hb hst ht hall hu => exact ht.evolving hs hb hst hu.sound hu.lookup out
  | error e h' =>
    rw [hr] at hc
    rw [Op.after_of_error hr]
    cases hc with
    | unread e hn => exact hnot (fun f m hb => absurd hb.inRange (hn m hb.guest)) hs rfl
    | broken e hb hst ht => exact ht.evolving hs hb hst ht.sound rfl out
    | lost e hb hst ht hall hu => exact ht.evolving hs hb hst hu.sound hu.lookup out

end Write

/-! ### Reading and closing -/

/-- Reading standard input touches no file. -/
lemma sameFiles_fileRead_zero (list count out : Nat) : SameFiles h (Op.after (fileRead 0 list count out) h) := by
  have hx : fileRead 0 list count out = (do
      let _ ← read 0 list count out
      return .success : Op Host Errno) := by
    unfold fileRead
    rw [if_pos rfl]
  rw [hx]
  exact ((within_read 0 list count out).bind (fun _ => Op.within_pure _) h).files

/-- A call that neither stores bytes nor exposes any. -/
lemma fileRead_lookup (hs : h.files.store.Sound) (d : Int) (list count out : Nat) :
    (Op.after (fileRead d list count out) h).files.store.Sound ∧
      (Op.after (fileRead d list count out) h).files.store.lookup = h.files.store.lookup := by
  by_cases hd : d = 0
  · subst hd
    have hk : (Op.after (fileRead 0 list count out) h).files = h.files := sameFiles_fileRead_zero list count out
    rw [hk]
    exact ⟨hs, rfl⟩
  have hc := fileRead_cases hs hd list count out
  cases hr : fileRead d list count out h with
  | ok e h' =>
    rw [hr] at hc
    rw [Op.after_of_ok hr]
    cases hc with
    | notOpen hn => exact ⟨hs, rfl⟩
    | listTooLong hf hl => exact ⟨hs, rfl⟩
    | read hb hn hdata hu => exact ⟨hu.sound, hu.lookup⟩
  | error e h' =>
    rw [hr] at hc
    rw [Op.after_of_error hr]
    cases hc with
    | broken e hk => exact ⟨hk.sound, hk.lookup⟩
    | lost e hu hs' => exact hs' ▸ ⟨hu.sound, hu.lookup⟩

lemma fileClose_lookup (hs : h.files.store.Sound) (d : Int) :
    (Op.after (fileClose d) h).files.store.Sound ∧
      (Op.after (fileClose d) h).files.store.lookup = h.files.store.lookup := by
  cases hf : h.files.store.openFile? d with
  | none =>
    rw [Op.after_of_ok (fileClose_of_none hf)]
    exact ⟨hs, rfl⟩
  | some f =>
    obtain ⟨slot, hslot, hget⟩ := FileStore.openFile?_eq_some.1 hf
    rw [Op.after_of_ok (fileClose_of_some hslot hget), withStore_store]
    exact ⟨hs.withErased hget, FileStore.lookup_congr (FileStore.listing_withOpened ..)⟩

/-! ### The calls of the host -/

section AddFile

variable {path : String} {data : List UInt8} {fs : FileSystem}

/-- Contents that are refused, but not for their length, change no file. -/
lemma addFile_refused {e : Failure} (hx : FileSystem.addFile path data h.files = .error e fs)
    (he : ∀ address count size, e ≠ .outOfBounds address count size) (hs : fs.store.Sound)
    (hl : fs.store.lookup = h.files.store.lookup) : h.Evolving (.addFile path data) fs.store := by
  refine evolving_of_lookup hs hl ?_ fun hexp => ?_
  · dsimp only [FileCall.events]
    rw [hx]
    split
    · rename_i hr
      cases hr
    · rename_i address count size t hr
      exact absurd (EStateM.Result.error.inj hr).1 (he address count size)
    · rfl
  · cases hexp with
    | @addFile _ _ address count size t b hx' =>
      exact he address count size (EStateM.Result.error.inj (hx.symm.trans hx')).1

lemma addFile_evolving (hs : h.files.store.Sound) {r : Except Failure Unit}
    (hx : Op.attempt (FileSystem.addFile path data) h.files = .ok r fs) :
    h.Evolving (.addFile path data) fs.store := by
  obtain ⟨r', fs', hx', hadd⟩ := FileSystem.addFile_cases hs path data
  obtain ⟨rfl, rfl⟩ := EStateM.Result.ok.inj (hx.symm.trans hx')
  cases hadd with
  | registered hk => exact addFile_refused (Op.eq_error_of_attempt hx) (by rintro _ _ _ ⟨⟩) hs rfl
  | tooLong hk hl => exact addFile_refused (Op.eq_error_of_attempt hx) (by rintro _ _ _ ⟨⟩) hs rfl
  | directory hk hl hn =>
    have hkeeps := FileSystem.keeps_staged hs hl
    exact addFile_refused (Op.eq_error_of_attempt hx) (by rintro _ _ _ ⟨⟩) hkeeps.sound hkeeps.lookup
  | full hk hl hn hr =>
    have hkeeps := FileSystem.keeps_staged hs hl
    refine addFile_refused (Op.eq_error_of_attempt hx) (fun address count size => ?_) hkeeps.sound hkeeps.lookup
    unfold FileStore.denial
    split_ifs
    · rintro ⟨⟩
    · rintro ⟨⟩
  | cut address size hk hl hn hc hsound hf hh hr =>
    have hx := Op.eq_error_of_attempt hx
    refine ⟨hsound, h.files.store.recycled (storedPath path) (data.length % Word.count), ?_, ?_⟩
    · rw [hf]
      dsimp only [FileCall.events]
      rw [hx]
      exact .discarded ..
    · constructor
      · rintro ⟨b, hb, hz⟩
        exact .addFile hx hb hz
      · intro hexp
        cases hexp with
        | addFile hx' hb hz => exact ⟨_, hb, hz⟩
  | added hk hl hn hc hg =>
    have hx := Op.eq_ok_of_attempt hx
    refine ⟨hg.sound, [], ?_, ?_⟩
    · rw [hg.lookup]
      dsimp only [FileCall.events]
      rw [hx]
      exact .added ..
    · constructor
      · rintro ⟨b, hb, -⟩
        cases hb
      · intro hexp
        cases hexp with
        | addFile hx' => cases hx.symm.trans hx'

end AddFile

/-- Adding a directory changes no file. -/
lemma addDirectory_evolving (hs : h.files.store.Sound) {path : String} {r : Except Failure Unit} {fs : FileSystem}
    (hx : Op.attempt (FileSystem.addDirectory path) h.files = .ok r fs) :
    h.Evolving (.addDirectory path) fs.store := by
  have hnone : ¬ h.Exposes (.addDirectory path) := fun hexp => by cases hexp
  obtain ⟨r', fs', hx', hadd⟩ := FileSystem.addDirectory_cases hs path
  obtain ⟨rfl, rfl⟩ := EStateM.Result.ok.inj (hx.symm.trans hx')
  cases hadd with
  | kept | registered | tooLong => exact evolving_of_lookup hs rfl rfl hnone
  | file bytes hk hl hn =>
    have hkeeps := FileSystem.keeps_staged hs hl
    exact evolving_of_lookup hkeeps.sound hkeeps.lookup rfl hnone
  | added hk hl hn hg =>
    refine ⟨hg.sound, [], .same fun q bytes hq => ?_, by simpa using hnone⟩
    rw [hg.lookup] at hq
    rcases Catalog.file_update hq with ⟨-, hq⟩ | ⟨-, hq⟩
    · cases hq
    · exact hq

/-! ### One call, and all calls -/

/-- **One call** changes the files as its events say, and uncovers bytes other than zero iff it exposes them. -/
theorem evolving (hs : h.files.store.Sound) (c : FileCall) : h.Evolving c (Op.after c.run h).files.store := by
  cases c with
  | compute memory => exact evolving_of_lookup hs rfl rfl fun hexp => by cases hexp
  | pathOpen path length flags out =>
    rw [FileCall.run, Op.after_map]
    exact pathOpen_evolving hs path length flags out
  | write d list count out =>
    rw [FileCall.run, Op.after_map]
    exact fileWrite_evolving hs d list count out
  | read d list count out =>
    rw [FileCall.run, Op.after_map]
    obtain ⟨hsound, hlookup⟩ := fileRead_lookup hs d list count out
    exact evolving_of_lookup hsound hlookup rfl fun hexp => by cases hexp
  | close d =>
    rw [FileCall.run, Op.after_map]
    obtain ⟨hsound, hlookup⟩ := fileClose_lookup hs d
    exact evolving_of_lookup hsound hlookup rfl fun hexp => by cases hexp
  | addFile path data =>
    obtain ⟨r, fs, hx, -⟩ := FileSystem.addFile_cases hs path data
    rw [FileCall.run, Op.after_map, Op.after_of_ok (onFiles_of_ok hx)]
    exact addFile_evolving hs hx
  | addDirectory path =>
    obtain ⟨r, fs, hx, -⟩ := FileSystem.addDirectory_cases hs path
    rw [FileCall.run, Op.after_map, Op.after_of_ok (onFiles_of_ok hx)]
    exact addDirectory_evolving hs hx
  | contents path =>
    obtain ⟨r, fs, hx, hy⟩ := FileSystem.contents_cases hs path
    rw [FileCall.run, Op.after_map, Op.after_of_ok (onFiles_of_ok hx)]
    have hkeeps := hy.keeps hs
    exact evolving_of_lookup hkeeps.sound hkeeps.lookup rfl fun hexp => by cases hexp

/-- What calls do to the bytes of files, the latest event first. -/
def log (h : Host) : List FileCall → List FileEvent
  | [] => []
  | c :: rest => (Op.after c.run h).log rest ++ c.events h

lemma log_concat (h : Host) (calls : List FileCall) (c : FileCall) :
    h.log (calls ++ [c]) = c.events (h.afterCalls calls) ++ h.log calls := by
  induction calls generalizing h with
  | nil => rw [List.nil_append, log, log, log, afterCalls, List.nil_append, List.append_nil]
  | cons c' calls ih => rw [List.cons_append, log, ih, log, afterCalls, List.append_assoc]

lemma afterCalls_concat (h : Host) (calls : List FileCall) (c : FileCall) :
    h.afterCalls (calls ++ [c]) = Op.after c.run (h.afterCalls calls) := h.afterCalls_append calls [c]

/-- On every run nothing is stored behind the ends of the files. -/
theorem covers_log (hf : h.files = .empty) (calls : List FileCall) :
    (h.afterCalls calls).files.store.Sound ∧
      Catalog.Covers (h.afterCalls calls).files.store.lookup (h.log calls) := by
  induction calls using List.reverseRecOn with
  | nil =>
    rw [afterCalls, hf]
    exact ⟨FileStore.sound_empty, fun _ _ hq => by cases hq⟩
  | append_singleton calls c ih =>
    obtain ⟨hsound, gap, hev, -⟩ := evolving ih.1 c
    rw [afterCalls_concat, log_concat]
    exact ⟨hsound, hev.covers ih.2⟩

/-- What a call yields was stored last where it comes from, or is zero where nothing was stored. -/
def Honest (h : Host) (log : List FileEvent) : FileCall → Prop
  | .contents path => ∀ bytes h', (FileCall.contents path).run h = .ok (.contents (.ok bytes)) h' →
      ∀ k < bytes.length, bytes.getD k 0 = lastStored (storedPath path) k log
  | .read d list count out => ∀ path position h', h.files.store.handle d = some (path, position) →
      (FileCall.read d list count out).run h = .ok (.errno .success) h' →
      ∃ m data, h.guest = some m ∧
        h'.guest = some ((scattered m (segmentsOf m list count) data).put out (Bytes.ofNat 4 data.length)) ∧
        ∀ k < data.length, data.getD k 0 = lastStored path (position + k) log
  | _ => True

lemma getD_delivered {bytes : List UInt8} {position k : Nat} {segments : List Segment}
    (hk : k < (delivered bytes position segments).length) :
    position + k < bytes.length ∧ (delivered bytes position segments).getD k 0 = bytes.getD (position + k) 0 := by
  unfold delivered at hk ⊢
  rw [List.length_take, List.length_drop] at hk
  refine ⟨by omega, ?_⟩
  rw [List.getD_eq_getElem?_getD, List.getElem?_take_of_lt (by omega), List.getElem?_drop,
    List.getD_eq_getElem?_getD]

/-- Calls yield bytes of the files. -/
theorem honest_of_faithful (hs : h.files.store.Sound) {log : List FileEvent}
    (hf : Catalog.Faithful h.files.store.lookup log) (c : FileCall) : h.Honest log c := by
  cases c with
  | contents path =>
    intro bytes h' hx
    obtain ⟨r, fs, hr, hy⟩ := FileSystem.contents_cases hs path
    rw [FileCall.run, Op.map_apply, onFiles_of_ok hr] at hx
    cases hx
    cases hy with
    | file bytes hk hl hn => exact hf _ _ hn
  | read d list count out =>
    intro path position h' hd hx
    obtain ⟨e, he, hx⟩ := run_eq_ok hx
    cases he
    have hne : d ≠ 0 := by
      rintro rfl
      cases hd
    have hc := fileRead_cases hs hne list count out
    rw [hx] at hc
    cases hc with
    | @read f m n u data hb hn hdata hu =>
      obtain ⟨rfl, rfl⟩ := Prod.mk.inj (Option.some.inj ((FileStore.handle_of_open hb.openFile hn.1).symm.trans hd))
      refine ⟨m, data, hb.guest, rfl, fun k hk => ?_⟩
      subst hdata
      obtain ⟨hlt, hget⟩ := getD_delivered hk
      rw [hget]
      refine hf _ _ ?_ _ hlt
      rw [hs.lookup_path hn.1, FileStore.entry_of_file hn.2]
  | _ => trivial

/-! ### Truncated files -/

/-- A segment without bytes is written behind the end of a file that has been truncated. -/
structure Uncovers (h : Host) (d : Int) (list count : Nat) (f : OpenFile) (m : Memory) (n : Node) (bytes : List UInt8) :
    Prop extends Begins h d list count f m where
  sound : h.files.store.Sound
  descriptor : Interface.isStandard d = false
  fileAt : h.files.store.FileAt f.node n
  size_eq : n.size = 0
  position_eq : f.position = bytes.length
  length_le : bytes.length ≤ n.capacity
  span_eq : h.files.store.memory.span n.address bytes.length = bytes
  segments : ∃ a, a ≤ m.size ∧ segmentsOf m list count = [⟨a, 0⟩]

namespace Uncovers

variable {d : Int} {list count : Nat} {f : OpenFile} {n : Node} {bytes : List UInt8}

lemma rewritten_eq (hu : h.Uncovers d list count f m n bytes) (a : Nat) :
    rewritten h.files.store n m f.position [⟨a, 0⟩] = bytes := by
  have hresidue : h.files.store.residue n f.position (f.position + 0) = bytes := by
    rw [FileStore.residue, if_pos (hu.position_eq ▸ hu.length_le), hu.size_eq, hu.position_eq]
    exact hu.span_eq
  have hnone : gathered m [⟨a, 0⟩] = [] := List.eq_nil_of_length_eq_zero (length_gathered ..)
  rw [rewritten, hresidue, hnone, Bytes.splice_nil, hu.size_eq, Memory.span_zero, List.nil_append]

/-- The file has its bytes again, although none are written. -/
theorem writes (hu : h.Uncovers d list count f m n bytes) {out : Nat} (ho : m.InRange out 4) :
    ∃ u, u.Sound ∧ u.lookup n.path = some (.file bytes) ∧
      fileWrite d list count out h = .ok .success ((h.withStore u).bind (m.put out (Bytes.ofNat 4 0))) ∧
      (FileCall.write d list count out).events h = [.stored n.path bytes.length []] := by
  obtain ⟨a, ha, hsegments⟩ := hu.segments
  have hstop := (hu.sound.fileAt_of_open hu.openFile).1
  have hroom : h.files.store.CanHold n (f.position + 0) := fun hlt =>
    absurd hu.length_le (Nat.not_le.2 (hu.position_eq ▸ hlt))
  obtain ⟨u, hs, hlookup, -, hx⟩ := hu.toBegins.writes hu.descriptor hu.sound hu.fileAt hsegments ha hstop hroom ho
  refine ⟨u, hs, ?_, hx, ?_⟩
  · rw [hlookup, Function.update_self, hu.rewritten_eq]
  · rw [events_write hu.toBegins (by rw [hsegments, staysAddressable_iff hstop]; exact hstop) hu.fileAt,
      landing_of_singleton hu.toBegins hu.fileAt hsegments ha hroom, hu.position_eq]
    exact congrArg (fun data => [FileEvent.stored n.path bytes.length data])
      (List.eq_nil_of_length_eq_zero (length_gathered m [⟨a, 0⟩]))

end Uncovers

end Host

/-- **Discarded bytes come back exactly where a call exposes them.** On every run from a fresh file system all files
hold at all times the bytes stored in them last, and zeros elsewhere, iff no call exposes bytes. As long as they do,
so does what calls yield. -/
theorem faithful_iff_not_exposes (h : Host) (calls : List FileCall) (hf : h.files = .empty) :
    ((∀ before after, calls = before ++ after →
        Catalog.Faithful (h.afterCalls before).files.store.lookup (h.log before)) ↔
      ∀ before c after, calls = before ++ c :: after → ¬ (h.afterCalls before).Exposes c) ∧
    ∀ before c after, calls = before ++ c :: after →
      Catalog.Faithful (h.afterCalls before).files.store.lookup (h.log before) →
      (h.afterCalls before).Honest (h.log before) c := by
  refine ⟨⟨fun hall before c after hsplit hexp => ?_, fun hnone before => ?_⟩, fun before c after _ hfaith => ?_⟩
  · obtain ⟨hs, hc⟩ := Host.covers_log hf before
    obtain ⟨-, gap, hev, hgap⟩ := Host.evolving hs c
    obtain ⟨b, hb, hz⟩ := hgap.2 hexp
    have hnext := hall (before ++ [c]) after (by rw [hsplit, List.append_assoc, List.singleton_append])
    rw [Host.afterCalls_concat, Host.log_concat] at hnext
    exact hz (hev.zero_of_faithful hc hnext b hb)
  · induction before using List.reverseRecOn with
    | nil =>
      intro after _
      rw [Host.afterCalls, hf]
      exact fun _ _ hq => by cases hq
    | append_singleton before c ih =>
      intro after hsplit
      rw [List.append_assoc, List.singleton_append] at hsplit
      obtain ⟨hs, hc⟩ := Host.covers_log hf before
      obtain ⟨-, gap, hev, hgap⟩ := Host.evolving hs c
      rw [Host.afterCalls_concat, Host.log_concat]
      refine hev.faithful hc (ih (c :: after) hsplit) fun b hb => ?_
      by_contra hz
      exact hnone before c after hsplit (hgap.1 ⟨b, hb, hz⟩)
  · exact Host.honest_of_faithful (Host.covers_log hf before).1 hfaith c

/-- Calls that neither write nor add a file expose nothing. -/
theorem faithful_iff_not_exposes_opened : ({} : Host).files = .empty ∧ ∀ before after,
    [FileCall.pathOpen 0 2 Interface.createFlag 20, .contents "/a"] = before ++ after →
      Catalog.Faithful (Host.afterCalls {} before).files.store.lookup (Host.log {} before) := by
  refine ⟨rfl, (faithful_iff_not_exposes {} _ rfl).1.2 fun before c after hsplit hexp => ?_⟩
  have hmem : c ∈ [FileCall.pathOpen 0 2 Interface.createFlag 20, .contents "/a"] := by
    rw [hsplit]
    exact List.mem_append_right _ List.mem_cons_self
  rcases List.mem_pair.1 hmem with rfl | rfl
  · cases hexp
  · cases hexp

/-- A guest writes a file, truncates it behind another descriptor, and writes nothing behind the first. -/
def staleCalls : List FileCall :=
  [.pathOpen 0 2 Interface.createFlag 20, .write 3 4 1 20, .pathOpen 0 2 Interface.truncateFlag 20, .write 3 12 1 20]

/-- The guest: its path, a segment with the path's bytes, an empty segment, and room for a result. -/
def staleGuest : Memory :=
  ⟨#[47, 97, 0, 0, 0, 0, 0, 0, 2, 0, 0, 0, 0, 0, 0, 0, 0, 0, 0, 0, 0, 0, 0, 0], #[]⟩

/-- The host of this guest. -/
def staleHost : Host := { guest := some staleGuest }

/-- The bytes that the host reads. -/
def readBytes (h : Host) : List UInt8 :=
  match (FileCall.contents "/a").run h with
  | .ok (.contents (.ok bytes)) _ => bytes
  | _ => []

lemma run_of_readBytes {h : Host} {b : UInt8} {bytes : List UInt8} (hb : readBytes h = b :: bytes) :
    ∃ h', (FileCall.contents "/a").run h = .ok (.contents (.ok (b :: bytes))) h' := by
  unfold readBytes at hb
  split at hb
  · rename_i h' hx
    exact ⟨h', by rw [hx, hb]⟩
  · cases hb

lemma readBytes_of_lookup {h : Host} {bytes : List UInt8} (hs : h.files.store.Sound)
    (hr : h.files.registered = []) (hl : h.files.store.lookup "/a" = some (.file bytes)) : readBytes h = bytes := by
  have hk : h.files.kindOf "/a" ≠ some .directory := by
    rw [FileSystem.kindOf, hr]
    decide
  obtain ⟨r, fs, hx, hy⟩ := FileSystem.contents_cases hs "/a"
  have hpath : storedPath "/a" = "/a" := by decide
  have hlimit : FileSystem.pathLength "/a" ≤ Interface.pathLimit := by decide
  rw [readBytes, FileCall.run, Op.map_apply, Host.onFiles_of_ok hx]
  cases hy with
  | registered h => exact absurd h hk
  | tooLong _ h => exact absurd hlimit (Nat.not_le.2 h)
  | absent _ _ hn => cases (hpath ▸ hn).symm.trans hl
  | directory _ _ _ hn => cases (hpath ▸ hn).symm.trans hl
  | file found _ _ hn =>
    cases (hpath ▸ hn).symm.trans hl
    rfl

/-- The guest behind the first two calls. -/
def staleWritten : Memory := (staleGuest.put 20 (Bytes.ofNat 4 3)).put 20 (Bytes.ofNat 4 2)

lemma stale_written : ∃ t : FileStore, t.Sound ∧ t.lookup "/a" = some (.file [47, 97]) ∧
    t.handle 3 = some ("/a", 2) ∧
    staleHost.afterCalls [.pathOpen 0 2 Interface.createFlag 20, .write 3 4 1 20] =
      (staleHost.withStore t).bind staleWritten := by
  have hname : nodePath (staleGuest.span 0 2) = "/a" := by decide
  have ha : staleHost.Accepts 0 2 Interface.createFlag staleGuest := by
    refine ⟨by decide, rfl, by decide, ?_⟩
    rw [hname]
    rfl
  obtain ⟨_, t, -, -, hopen, ht, hlookup, hhandle, hwrite⟩ := ha.writes_new (s := ⟨0, 2⟩) rfl 20 4 1 20 (by decide) rfl
    (by decide) (by decide) (by decide) (by decide) (by decide) (by decide)
  rw [hname] at hlookup hhandle
  have hbytes : (staleGuest.put 20 (Bytes.ofNat 4 3)).span 0 2 = [47, 97] := by decide
  refine ⟨t, ht, hlookup.trans (congrArg (fun bytes => some (Entry.file bytes)) hbytes), hhandle, ?_⟩
  rw [Host.afterCalls, Host.after_pathOpen hopen, Host.afterCalls]
  exact Host.after_fileWrite hwrite

/-- Behind the third call the file is empty, but its bytes are in its place. -/
lemma stale_truncated {t : FileStore} (ht : t.Sound) (hl : t.lookup "/a" = some (.file [47, 97]))
    (hh : t.handle 3 = some ("/a", 2)) : ∃ m u f n,
    Host.pathOpen 0 2 Interface.truncateFlag 20 ((staleHost.withStore t).bind staleWritten) =
      .ok .success ((staleHost.withStore u).bind m) ∧
    ((staleHost.withStore u).bind m).Uncovers 3 12 1 f m n [47, 97] ∧ n.path = "/a" ∧ m.InRange 20 4 ∧
    (FileCall.pathOpen 0 2 Interface.truncateFlag 20).events ((staleHost.withStore t).bind staleWritten) =
      [.discarded "/a"] := by
  have hname : nodePath (staleWritten.span 0 2) = "/a" := by decide
  have ha : ((staleHost.withStore t).bind staleWritten).Accepts 0 2 Interface.truncateFlag staleWritten := by
    refine ⟨by decide, rfl, by decide, ?_⟩
    rw [hname, Host.bind_files, Host.withStore_store, hl]
    rfl
  obtain ⟨u, guest, ho, -, hafter, hopen⟩ := ha.opens ht 20
  obtain ⟨i, b, hb, hpath, hsize, hle, hspan⟩ := ha.truncates ht (by decide) (hname.symm ▸ hl) 20
  rw [hafter] at hb hspan
  have hopen := hopen (by decide)
  have hevents := ha.events 20
  rw [hname] at ho hpath hevents
  -- the new descriptor is another one
  have hopened : u.handle 3 = some ("/a", 2) := by
    rw [ho.handle, Function.update_of_ne, Host.bind_files, Host.withStore_store, hh]
    intro hd
    have hfresh := ho.fresh
    rw [← hd, Host.bind_files, Host.withStore_store, hh] at hfresh
    cases hfresh
  obtain ⟨f, n, hf, hn, hn', hposition⟩ := ho.sound.exists_open hopened
  obtain rfl := FileStore.index_unique ho.sound.nodup hb.1 hn.1 (hpath.trans hn'.symm)
  obtain rfl := Option.some.inj (hb.1.symm.trans hn.1)
  have hrange (address count : Nat) (hr : staleWritten.InRange address count) (data : List UInt8) :
      (staleWritten.put 20 data).InRange address count := by
    rwa [Memory.InRange, Memory.size_put]
  refine ⟨_, u, f, b, hopen, ?_, hpath, hrange 20 4 (by decide) _, ?_⟩
  · refine ⟨⟨hf, by decide, rfl, hrange 12 _ (by decide) _⟩, ho.sound, by decide, hn, hsize, hposition, hle, hspan,
      0, Nat.zero_le _, ?_⟩
    rw [Host.segmentsOf, Memory.span_put_of_apart (Or.inl (by decide))]
    decide
  · rw [hevents, Host.bind_files, Host.withStore_store, hl]
    rfl

lemma staleCalls_read : readBytes (staleHost.afterCalls staleCalls) = [47, 97] ∧
    lastStored (storedPath "/a") 0 (staleHost.log staleCalls) = 0 := by
  obtain ⟨t, ht, hl, hh, hafter⟩ := stale_written
  obtain ⟨m, u, f, n, hopen, hunc, hpath, ho, hdiscarded⟩ := stale_truncated ht hl hh
  obtain ⟨v, hv, hlookup, hwrite, hstored⟩ := hunc.writes ho
  have hcalls : staleCalls = ([.pathOpen 0 2 Interface.createFlag 20, .write 3 4 1 20] ++
    [.pathOpen 0 2 Interface.truncateFlag 20]) ++ [.write 3 12 1 20] := rfl
  have hthird : staleHost.afterCalls ([.pathOpen 0 2 Interface.createFlag 20, .write 3 4 1 20] ++
      [.pathOpen 0 2 Interface.truncateFlag 20]) = (staleHost.withStore u).bind m := by
    rw [Host.afterCalls_concat, hafter, Host.after_pathOpen hopen]
  have hstoredPath : storedPath "/a" = "/a" := by decide
  rw [hpath] at hlookup hstored
  rw [hcalls, Host.afterCalls_concat, Host.log_concat, hthird, Host.log_concat, hafter, hdiscarded, hstored, hstoredPath,
    Host.after_fileWrite hwrite]
  exact ⟨readBytes_of_lookup hv rfl hlookup, rfl⟩

/-- The bytes that were truncated are read again. -/
theorem exists_not_honest : ¬ ∀ (h : Host) (calls : List FileCall), h.files = .empty →
    ∀ before c after, calls = before ++ c :: after → (h.afterCalls before).Honest (h.log before) c := by
  intro hall
  have hhonest := hall staleHost (staleCalls ++ [.contents "/a"]) rfl staleCalls (.contents "/a") [] rfl
  obtain ⟨hread, hlog⟩ := staleCalls_read
  generalize staleHost.afterCalls staleCalls = h at hhonest hread
  generalize staleHost.log staleCalls = log at hhonest hlog
  obtain ⟨h', hx⟩ := run_of_readBytes hread
  have hbyte := hhonest [47, 97] h' hx 0 (by decide)
  rw [hlog] at hbyte
  cases hbyte

end ToolchainHost
