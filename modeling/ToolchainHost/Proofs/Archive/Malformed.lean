import ToolchainHost.Proofs.Archive.Resumption
import ToolchainHost.Proofs.Archive.RoundTrip
import ToolchainHost.Proofs.Text.Plain

/-!
# Archives of any bytes

Whatever the bytes of an archive are, a load of it into an empty file system stops at a header, and nothing of the
entry there is left behind.

* `entryAt_eq_ok_none`: an archive ends exactly where a block is not complete or lacks the magic bytes.
* `Catalogued.addFile_or_conflict`, `addDirectory_or_conflict`: with room for it, an entry is added or its path names
  a node of the other kind, and then nothing is touched.
* `Along`: what holds at every place that a load comes to, and `Along.step`, why it does.
* `load_of_bytes`: how every load ends.
-/

namespace ToolchainHost

open Path (normalize)

/-! ### Lengths of decoded texts -/

lemma Utf8.length_decodeOnto_le (skip : Nat) (bs : List UInt8) : (decodeOnto [] skip bs).length ≤ bs.length := by
  induction bs generalizing skip with
  | nil => exact Nat.le_refl 0
  | cons b bs ih =>
    cases skip with
    | succ n => exact Nat.le_succ_of_le (ih n)
    | zero =>
      rw [decodeOnto, decodeOnto_eq, List.length_append, List.length_reverse, List.length_singleton, Nat.add_comm]
      exact Nat.succ_le_succ (ih _)

/-- A byte becomes one character at most, which takes four bytes at most. -/
lemma Utf8.length_encode_decode_le (bs : List UInt8) : (encode (decode bs)).length ≤ 4 * bs.length := by
  have hchars (cs : List Char) : (cs.flatMap String.utf8EncodeChar).length ≤ 4 * cs.length := by
    induction cs with
    | nil => exact Nat.le_refl 0
    | cons c cs ih =>
      have hc := Char.utf8Size_le_four c
      rw [List.flatMap_cons, List.length_append, String.length_utf8EncodeChar, List.length_cons]
      omega
  rw [encode, decode, String.toList_ofList]
  exact (hchars _).trans (Nat.mul_le_mul_left 4 (length_decodeOnto_le 0 bs))

/-! ### Adding where there is room -/

namespace FileSystem.Catalogued

variable {fs : FileSystem} {path : String} {data : List UInt8}

/-- The store has as many nodes as the host has registered. -/
theorem nodeCount_eq (hc : fs.Catalogued) : fs.store.nodeCount = fs.entries.length := by
  have hregistered : (fs.registered.map (·.1)).Nodup :=
    List.pairwise_map.2 (hc.sorted.imp fun h => String.ne_of_lt h)
  have hmem (q : String) : q ∈ fs.store.nodes.map (·.path) ↔ q ∈ fs.registered.map (·.1) := by
    constructor
    · intro hq
      cases hl : fs.store.lookup q with
      | none => exact absurd hq (FileStore.path_notMem_of_lookup_none hl)
      | some e => exact List.mem_map.2 ⟨_, hc.complete hl, rfl⟩
    · intro hq
      obtain ⟨⟨p, k⟩, hp, rfl⟩ := List.mem_map.1 hq
      obtain ⟨e, he, -⟩ := hc.known hp
      obtain ⟨i, n, hn, rfl, -⟩ := FileStore.exists_node_of_lookup he
      exact List.mem_map.2 ⟨n, List.mem_of_getElem? hn, rfl⟩
  have hperm := (List.perm_ext_iff_of_nodup hc.store.nodup hregistered).2 hmem
  have hlength := hperm.length_eq
  rwa [List.length_map, List.length_map] at hlength

section Room

variable (hc : fs.Catalogued) (hn : '\x00' ∉ path.toList) (hl : pathLength path ≤ Interface.pathLimit)

include hc hn hl

/-- A file is added, unless its path names a directory. -/
lemma addFile_or_conflict (hd : data.length < Word.count) (hr : fs.store.Room data.length) :
    (∃ fs', FileSystem.addFile path data fs = .ok ⟨⟩ fs' ∧ fs'.Catalogued ∧
      fs'.store.top ≤ fs.store.top + 7 + data.length) ∨
    fs.kindOf path = some .directory ∧
      FileSystem.addFile path data fs = .error (.pathConflict (normalize path) .directory) fs := by
  obtain ⟨r, fs', hx, hadd⟩ := addFile_cases hc.store path data
  obtain ⟨hi, -, -⟩ := hc.toInStep.addFile hn hr.1 hx
  cases hadd with
  | registered h => exact Or.inr ⟨h, addFile_registered h⟩
  | tooLong _ h => exact absurd hl (Nat.not_le.2 h)
  | directory h _ hdir =>
    rw [storedPath_eq hn] at hdir
    exact absurd (hc.kindOf_directory.2 hdir) h
  | full _ _ _ h => exact absurd (by rwa [Nat.mod_eq_of_lt hd]) h
  | cut _ _ _ _ _ h => exact absurd hd (Nat.not_lt.2 h)
  | added _ _ _ _ hg =>
    have hrun := Op.eq_ok_of_attempt hx
    refine Or.inl ⟨fs', hrun, hc.of_gains (storedPath_eq hn) hg hi, ?_⟩
    rcases addFile_top hc.store hrun with htop | htop
    · omega
    · rw [Nat.mod_eq_of_lt hd] at htop
      unfold FileStore.aligned at htop
      omega

/-- A directory is added, unless its path names a file. -/
lemma addDirectory_or_conflict :
    (∃ fs', FileSystem.addDirectory path fs = .ok ⟨⟩ fs' ∧ fs'.Catalogued ∧ fs'.store.top = fs.store.top) ∨
    fs.kindOf path = some .file ∧
      FileSystem.addDirectory path fs = .error (.pathConflict (normalize path) .file) fs := by
  obtain ⟨r, fs', hx, hadd⟩ := addDirectory_cases hc.store path
  obtain ⟨hi, -, -⟩ := hc.toInStep.addDirectory hn hx
  cases hadd with
  | kept h => exact Or.inl ⟨fs, addDirectory_kept h, hc, rfl⟩
  | registered h => exact Or.inr ⟨h, addDirectory_registered h⟩
  | tooLong _ h => exact absurd hl (Nat.not_le.2 h)
  | file bytes h _ hfile =>
    rw [storedPath_eq hn] at hfile
    rw [hc.kindOf, hfile] at h
    cases h
  | added _ _ _ hg =>
    have hrun := Op.eq_ok_of_attempt hx
    exact Or.inl ⟨fs', hrun, hc.of_gains (storedPath_eq hn) hg hi, addDirectory_top hc.store hrun⟩

end Room

end FileSystem.Catalogued

namespace Archive

variable {data block : List UInt8} {l m : Loading} {e : Entry} {es : List Entry} {f : Failure}
  {offset next size : Nat} {header : Header} {fs : FileSystem}

/-! ### What an offset of an archive has -/

lemma field_field {start count : Nat} (h : start + count ≤ blockSize) :
    field (field data offset blockSize) start count = field (data.drop offset) start count := by
  rw [field, field, field, List.drop_take, List.take_take, Nat.min_eq_left (by omega)]

/-- **Where an archive ends.** -/
theorem entryAt_eq_ok_none : entryAt data offset = .ok none ↔ EndsHere (data.drop offset) := by
  have hmagic : field (field data offset blockSize) 257 8 = field (data.drop offset) 257 8 := field_field (by decide)
  unfold EndsHere
  rw [List.length_drop, ← hmagic]
  by_cases hlt : data.length < offset + blockSize
  · refine iff_of_true (entryAt_of_lt hlt) (Or.inl ?_)
    unfold blockSize at hlt ⊢
    omega
  have hle : offset + blockSize ≤ data.length := Nat.not_lt.1 hlt
  rw [or_iff_right (by omega), entryAt, Header.at?, blockAt?, if_pos hle]
  dsimp only
  by_cases hm : field (field data offset blockSize) 257 8 = magic
  · refine iff_of_false ?_ (not_not_intro hm)
    rw [if_neg (not_not_intro hm)]
    cases Header.ofBlock (field data offset blockSize) offset with
    | error f => simp
    | ok header =>
      dsimp only
      cases entryOf data offset header <;> simp
  · rw [if_pos hm]
    exact iff_of_true rfl hm

lemma archiveFormat_of_headerAt (h : Header.at? data offset = .error f) :
    ∃ reason, f = .archiveFormat offset reason := by
  unfold Header.at? Header.ofBlock at h
  dsimp only at h
  split at h
  · cases h
  rename_i block hb
  split_ifs at h
  cases hparse : parseSize (field block 124 12) with
  | ok size =>
    rw [hparse] at h
    cases h
  | error e =>
    rw [hparse] at h
    cases h
    exact ⟨_, rfl⟩

lemma archiveFormat_of_entryOf (h : entryOf data offset header = .error f) :
    ∃ reason, f = .archiveFormat offset reason := by
  unfold entryOf at h
  dsimp only at h
  split at h
  · split_ifs at h
    cases h
    exact ⟨_, rfl⟩
  · cases h
  · cases h
    exact ⟨_, rfl⟩

/-- A header that has no entry is reported with its offset. -/
lemma archiveFormat_of_entryAt (h : entryAt data offset = .error f) : ∃ reason, f = .archiveFormat offset reason := by
  unfold entryAt at h
  split at h
  · rename_i g hg
    cases h
    exact archiveFormat_of_headerAt hg
  · cases h
  · split at h
    · cases h
    · rename_i g hg
      cases h
      exact archiveFormat_of_entryOf hg

lemma path_of_headerAt (h : Header.at? data offset = .ok (some header)) :
    header.path = Utf8.decode (untilNul (field (field data offset blockSize) 0 100)) := by
  unfold Header.at? Header.ofBlock at h
  dsimp only at h
  split at h
  · cases h
  · rename_i block hb
    unfold blockAt? at hb
    split_ifs at hb
    cases hb
    split_ifs at h
    · cases h
    · cases hparse : parseSize (field (field data offset blockSize) 124 12) with
      | ok size =>
        rw [hparse] at h
        cases h
        rfl
      | error e =>
        rw [hparse] at h
        cases h

lemma path_of_entryOf (h : entryOf data offset header = .ok (e, next)) : e.path = header.path := by
  unfold entryOf at h
  dsimp only at h
  split at h
  · split_ifs at h
    cases h
    rfl
  · cases h
    rfl
  · cases h

/-- The path of an entry fits the path buffer, whatever the header holds. -/
lemma path_of_entryAt (h : entryAt data offset = .ok (some (e, next))) :
    '\x00' ∉ e.path.toList ∧ FileSystem.pathLength e.path ≤ Interface.pathLimit := by
  obtain ⟨header, hh, ho⟩ := exists_header_of_entryAt h
  rw [path_of_entryOf ho, path_of_headerAt hh]
  constructor
  · refine Utf8.nul_notMem_decode fun hz => ?_
    exact absurd (List.mem_takeWhile_imp hz) (by decide)
  · have hfield : (untilNul (field (field data offset blockSize) 0 100)).length ≤ 100 :=
      (List.takeWhile_prefix _).length_le.trans (List.length_take_le ..)
    have hencode := Utf8.length_encode_decode_le (untilNul (field (field data offset blockSize) 0 100))
    refine (pathLength_le _).trans ?_
    unfold Interface.pathLimit
    omega

/-- An entry takes its header and the blocks of its contents, which lie within the archive. -/
lemma extent_of_entryAt (h : entryAt data offset = .ok (some (e, next))) :
    next = offset + e.extent ∧ offset + blockSize + e.contents.length ≤ data.length := by
  obtain ⟨header, hh, ho⟩ := exists_header_of_entryAt h
  have hhead := length_of_headerAt hh
  have hlen := (length_of_entryOf ho).1
  unfold entryOf at ho
  dsimp only at ho
  split at ho
  · rename_i hflag
    have hsize := hlen hflag
    split_ifs at ho with hle
    cases ho
    rw [Entry.extent, hsize]
    exact ⟨by omega, hle⟩
  · cases ho
    refine ⟨?_, hhead⟩
    change offset + blockSize = offset + (blockSize + blocksFor 0 * blockSize)
    rw [show blocksFor 0 = 0 from by decide]
    omega
  · cases ho

/-! ### Every place of a load -/

/-- What holds at every place that a load of `data` into an empty file system comes to. -/
structure Along (data : List UInt8) (l : Loading) : Prop where
  catalogued : l.files.Catalogued
  aligned : blockSize ∣ l.offset
  offset_le : l.offset ≤ blocksFor data.length * blockSize
  -- what aligns the place of a file is less than its header takes
  top_le : l.files.store.top ≤ FileStore.heapBase + l.offset

lemma along_start (data : List UInt8) : Along data ⟨0, .empty⟩ where
  catalogued := FileSystem.catalogued_empty
  aligned := Nat.dvd_zero blockSize
  offset_le := Nat.zero_le _
  top_le := Nat.le_refl FileStore.heapBase

/-- The path of an entry names a node of the other kind, and the entry is refused without a trace. -/
structure Conflicts (fs : FileSystem) (e : Entry) (kind : NodeKind) : Prop where
  kindOf_eq : fs.kindOf e.path = some kind
  kind_ne : kind ≠ e.kind
  refused : e.add fs = .error (.pathConflict (normalize e.path) kind) fs

namespace Along

variable (ha : Along data l) (he : entryAt data l.offset = .ok (some (e, next)))

include ha he

/-- The next offset is a multiple of a block, too, and not past the last block. -/
lemma offset_next : blockSize ∣ next ∧ next ≤ blocksFor data.length * blockSize ∧
    l.offset + blockSize + e.contents.length ≤ next := by
  obtain ⟨hnext, hlen⟩ := extent_of_entryAt he
  obtain ⟨k, hk⟩ := ha.aligned
  rw [hk] at hnext hlen ⊢
  unfold Entry.extent blocksFor blockSize at *
  omega

/-- **One entry** is added, or conflicts with a node that is there. -/
lemma step (hsize : data.length < 2147483648) :
    (∃ fs, e.add l.files = .ok ⟨⟩ fs ∧ Along data ⟨next, fs⟩) ∨ ∃ kind, Conflicts l.files e kind := by
  obtain ⟨hfree, hshort⟩ := path_of_entryAt he
  obtain ⟨haligned, hle, hnext⟩ := ha.offset_next he
  have htop := ha.top_le
  have hlen := (extent_of_entryAt he).2
  cases e with
  | file path contents =>
    have hcontents : (Entry.file path contents).contents = contents := rfl
    rw [hcontents] at hlen hnext
    have hcount : contents.length < Word.count := by
      unfold Word.count
      omega
    have hroom : l.files.store.Room contents.length := by
      refine FileStore.room_of_top_le htop ?_
      unfold FileStore.heapBase Word.count
      omega
    rcases ha.catalogued.addFile_or_conflict hfree hshort hcount hroom with ⟨fs, hrun, hc, hfs⟩ | ⟨hk, hrun⟩
    · refine Or.inl ⟨fs, hrun, hc, haligned, hle, ?_⟩
      unfold blockSize at hnext
      dsimp only
      omega
    · exact Or.inr ⟨_, hk, NodeKind.noConfusion, hrun⟩
  | directory path =>
    rcases ha.catalogued.addDirectory_or_conflict hfree hshort with ⟨fs, hrun, hc, hfs⟩ | ⟨hk, hrun⟩
    · refine Or.inl ⟨fs, hrun, hc, haligned, hle, ?_⟩
      dsimp only
      omega
    · exact Or.inr ⟨_, hk, NodeKind.noConfusion, hrun⟩

end Along

/-- **Every place** of a load is such a place. -/
lemma Arrives.along (h : Arrives data l es m) (hsize : data.length < 2147483648) (ha : Along data l) :
    Along data m := by
  induction h with
  | here => exact ha
  | past he hadd hr ih =>
    rcases ha.step he hsize with ⟨fs, hrun, hnext⟩ | ⟨kind, hconflict⟩
    · cases hadd.symm.trans hrun
      exact ih hnext
    · cases hadd.symm.trans hconflict.refused

/-- A load adds the entries that it passes, in order. -/
lemma Arrives.addAll_eq (h : Arrives data l es m) : addAll es l.files = .ok ⟨⟩ m.files := by
  induction h with
  | here => rfl
  | past he hadd hr ih => rw [addAll, Op.bind_of_ok hadd, ih]

/-- The contents that a load passes are parts of the archive that do not overlap. -/
lemma Arrives.bytes_le (h : Arrives data l es m) (hne : es ≠ []) :
    l.offset + (Summary.of es).bytes ≤ data.length := by
  induction h with
  | here => exact absurd rfl hne
  | @past l l' e next fs es he hadd hr ih =>
    obtain ⟨hnext, hlen⟩ := extent_of_entryAt he
    have hsplit : (Summary.of (e :: es)).bytes = e.contents.length + (Summary.of es).bytes := by
      rw [Summary.of, List.map_cons, List.sum_cons, Summary.of]
    have hextent : blockSize + e.contents.length ≤ e.extent := by
      unfold Entry.extent blocksFor blockSize
      omega
    rw [hsplit]
    by_cases hes : es = []
    · subst hes
      change l.offset + (e.contents.length + 0) ≤ data.length
      omega
    · have hrest := ih hes
      dsimp only at hrest
      omega

/-! ### How a load ends -/

/-- How a load of `data` ends that has passed the entries `es` and stands at `l`. -/
inductive Ends (data : List UInt8) (es : List Entry) (l : Loading) : Except Failure Summary → Prop
  | loaded (h : EndsHere (data.drop l.offset)) : Ends data es l (.ok (Summary.of es))
  | malformed (reason : String) (hm : ¬ EndsHere (data.drop l.offset))
      (h : entryAt data l.offset = .error (.archiveFormat l.offset reason)) :
      Ends data es l (.error (.archiveFormat l.offset reason))
  | conflicting (e : Entry) (next : Nat) (kind : NodeKind) (hm : ¬ EndsHere (data.drop l.offset))
      (h : entryAt data l.offset = .ok (some (e, next))) (hc : Conflicts l.files e kind) :
      Ends data es l (.error (.pathConflict (normalize e.path) kind))

/-- A load that goes no further leaves behind the place it has come to. -/
lemma Stops.ends {r : Except Failure Unit} {l' : Loading} (h : Stops data l r l') (hsize : data.length < 2147483648)
    (ha : Along data l) (es : List Entry) : l' = l ∧ Ends data es l (r.map fun _ => Summary.of es) := by
  cases h with
  | ended he => exact ⟨rfl, .loaded (entryAt_eq_ok_none.1 he)⟩
  | bad he =>
    obtain ⟨reason, rfl⟩ := archiveFormat_of_entryAt he
    exact ⟨rfl, .malformed reason (fun hm => by cases he.symm.trans (entryAt_eq_ok_none.2 hm)) he⟩
  | @refused e next f fs he hadd =>
    rcases ha.step he hsize with ⟨fs', hrun, -⟩ | ⟨kind, hconflict⟩
    · cases hadd.symm.trans hrun
    · obtain ⟨rfl, rfl⟩ := EStateM.Result.error.inj (hadd.symm.trans hconflict.refused)
      exact ⟨rfl, .conflicting e next kind (fun hm => by cases he.symm.trans (entryAt_eq_ok_none.2 hm)) he hconflict⟩

/-- **Archives of any bytes fail cleanly.** A load of fewer than 2³¹ bytes into an empty file system ends at a place
where the archive ends, where a header has no entry, or where an entry conflicts with a node that is there. It has
added the entries before this place in order and nothing else, and the store has as many nodes as the host lists.
Every place on the way is a multiple of a block, within the archive's last block, a block at least behind the one
before, and every number that is computed there is a word. -/
theorem load_of_bytes (data : List UInt8) (hsize : data.length < 2147483648) :
    (∃ es l r, Arrives data ⟨0, .empty⟩ es l ∧ (load data).outcome ⟨0, .empty⟩ = (r, l) ∧ Ends data es l r ∧
      addAll es .empty = .ok ⟨⟩ l.files ∧ l.files.store.nodeCount = l.files.entries.length) ∧
    ∀ es m, Arrives data ⟨0, .empty⟩ es m →
      blockSize ∣ m.offset ∧ m.offset ≤ blocksFor data.length * blockSize ∧
      m.offset + blockSize < Word.count ∧ (Summary.of es).bytes ≤ data.length ∧
      (∀ block, blockAt? data m.offset = some block → block.length = blockSize) ∧
      ∀ e es' m', Arrives data m (e :: es') m' → m.offset + blockSize ≤ m'.offset := by
  constructor
  · obtain ⟨es, l, r, l', harr, hstop⟩ := exists_stops data ⟨0, .empty⟩
    have ha := harr.along hsize (along_start data)
    obtain ⟨rfl, hends⟩ := hstop.ends hsize ha es
    exact ⟨es, l', _, harr, outcome_load harr hstop, hends, harr.addAll_eq, ha.catalogued.nodeCount_eq⟩
  · intro es m harr
    have ha := harr.along hsize (along_start data)
    have hle := ha.offset_le
    refine ⟨ha.aligned, hle, ?_, ?_, ?_, ?_⟩
    · unfold blocksFor blockSize at hle
      unfold blockSize Word.count
      omega
    · by_cases hes : es = []
      · subst hes
        exact Nat.zero_le _
      · have hbytes := harr.bytes_le hes
        dsimp only at hbytes
        omega
    · intro block hb
      have hblock := blockAt?_eq_some hb
      rw [blockAt?, if_pos hblock] at hb
      obtain rfl := Option.some.inj hb
      rw [field, List.length_take, List.length_drop]
      omega
    · intro e es' m' hnext
      cases hnext with
      | past he hadd hr => exact (le_of_entryAt he).1.trans hr.offset_le

/-- A file of two bytes, cut behind the first. -/
theorem load_of_bytes_cut :
    let data := List.replicate 124 0 ++ [0x32] ++ List.replicate 132 0 ++ magic ++ List.replicate 247 0 ++ [1]
    data.length < 2147483648 ∧ ∃ es l r, (load data).outcome ⟨0, .empty⟩ = (r, l) ∧ Ends data es l r ∧
      addAll es .empty = .ok ⟨⟩ l.files := by
  intro data
  have hsize : data.length < 2147483648 := by decide +kernel
  obtain ⟨⟨es, l, r, -, hload, hends, hadd, -⟩, -⟩ := load_of_bytes data hsize
  exact ⟨hsize, es, l, r, hload, hends, hadd⟩

end Archive

end ToolchainHost
