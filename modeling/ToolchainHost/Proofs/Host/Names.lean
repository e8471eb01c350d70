import ToolchainHost.Proofs.Host.Residue
import ToolchainHost.Proofs.Text.Plain

/-!
# The names of nodes

A path is handed to the store as bytes in the path buffer, and read back from there as a text that ends at its first
NUL.

* `Path.normalizeBytes`: the normal form of a path that is given as bytes.
* `HandedPath`: a path of the host or of a guest, and `HandedPath.key`, the text that the store makes of it.
* `FileStore.Reaches`, `FileSystem.ReadsAs`: the node that a path leads to, and what is read there.
* `names_apart`: paths lead to one node iff their keys are equal. Those of plain paths are as different as their normal
  forms are.
* `exists_names_share_file`: those of other paths are not.
-/

namespace ToolchainHost

open String (utf8EncodeChar)

namespace Path

/-! ### Paths as bytes -/

/-- Drops every leading `./`. -/
def dropDotSlashBytes : List UInt8 → List UInt8
  | b :: c :: bs => if b = 0x2E ∧ c = 0x2F then dropDotSlashBytes bs else b :: c :: bs
  | bs => bs

/-- The normal form of a path that is given as bytes. -/
def normalizeBytes (path : List UInt8) : List UInt8 :=
  let rest := dropDotSlashBytes path
  let name := rest.rdropWhile (· == 0x2F)
  if name = [] ∧ rest ≠ [] then [0x2F] else name

/-- A text whose bytes begin with one of the ASCII class begins with that character. -/
lemma eq_cons_of_bytes {cs : List Char} {c : Char} {u : List UInt8} (hc : c.toNat < 0x80)
    (h : cs.flatMap utf8EncodeChar = UInt8.ofNat c.toNat :: u) :
    ∃ rest, cs = c :: rest ∧ rest.flatMap utf8EncodeChar = u := by
  have hn : (UInt8.ofNat c.toNat).toNat = c.toNat := Utf8.toNat_ofNat (by omega)
  cases cs with
  | nil => cases h
  | cons d rest =>
    rw [List.flatMap_cons] at h
    obtain ⟨b, v, hd, -⟩ := Utf8.exists_lead d
    have hb : b = UInt8.ofNat c.toNat := by
      rw [hd] at h
      exact (List.cons.inj h).1
    obtain ⟨hone, hval⟩ := Utf8.encodeChar_of_mem (b := b) (c := d) (by rw [hd]; exact List.mem_cons_self)
      (by rw [hb, hn]; exact hc)
    refine ⟨rest, ?_, ?_⟩
    · rw [← Char.ofNat_toNat d, hval, hb, hn, Char.ofNat_toNat]
    · rw [hone] at h
      exact (List.cons.inj h).2

lemma dropDotSlashBytes_of_not {bs : List UInt8} (h : ∀ u, bs ≠ 0x2E :: 0x2F :: u) : dropDotSlashBytes bs = bs := by
  unfold dropDotSlashBytes
  split
  · rename_i b c u
    exact if_neg fun hbc => h u (by rw [hbc.1, hbc.2])
  · rfl

lemma dropDotSlashBytes_flatMap (cs : List Char) :
    dropDotSlashBytes (cs.flatMap utf8EncodeChar) = (dropDotSlashes cs).flatMap utf8EncodeChar := by
  fun_induction dropDotSlashes cs with
  | case1 cs ih =>
    rw [← ih, List.flatMap_cons, List.flatMap_cons]
    exact if_pos ⟨rfl, rfl⟩
  | case2 cs h =>
    refine dropDotSlashBytes_of_not fun u hu => ?_
    obtain ⟨rest, rfl, hrest⟩ := eq_cons_of_bytes (c := '.') (by decide) hu
    obtain ⟨rest, rfl, -⟩ := eq_cons_of_bytes (c := '/') (by decide) hrest
    exact h rest rfl

lemma rdropWhile_flatMap (cs : List Char) :
    (cs.flatMap utf8EncodeChar).rdropWhile (· == 0x2F) =
      (cs.rdropWhile (· == '/')).flatMap utf8EncodeChar := by
  induction cs using List.reverseRecOn with
  | nil => rfl
  | append_singleton cs c ih =>
    rw [List.flatMap_append, List.flatMap_singleton]
    by_cases hc : c = '/'
    · subst hc
      rw [List.rdropWhile_concat_pos _ _ _ rfl, ← ih]
      exact List.rdropWhile_concat_pos _ _ _ rfl
    · rw [List.rdropWhile_concat_neg _ _ _ (by simpa using hc), List.flatMap_append, List.flatMap_singleton]
      -- the last byte of another character is no slash
      refine List.rdropWhile_eq_self_iff.2 fun hne hlast => ?_
      have hchar : utf8EncodeChar c ≠ [] := by
        obtain ⟨b, u, hb, -⟩ := Utf8.exists_lead c
        simp [hb]
      rw [List.getLast_append_of_ne_nil _ hchar] at hlast
      have hmem : (0x2F : UInt8) ∈ utf8EncodeChar c := eq_of_beq hlast ▸ List.getLast_mem hchar
      have hval := (Utf8.encodeChar_of_mem hmem (by decide)).2
      exact hc (by rw [← Char.ofNat_toNat c, hval]; rfl)

lemma flatMap_eq_nil {cs : List Char} : cs.flatMap utf8EncodeChar = [] ↔ cs = [] := by
  cases cs with
  | nil => simp
  | cons c cs =>
    obtain ⟨b, u, hb, -⟩ := Utf8.exists_lead c
    simp [hb]

/-- Normalizing a text normalizes its bytes. -/
theorem encode_normalize (path : String) : Utf8.encode (normalize path) = normalizeBytes (Utf8.encode path) := by
  have hend (cs : List Char) : Text.dropEndWhile (· == '/') cs = cs.rdropWhile (· == '/') := rfl
  unfold Utf8.encode normalizeBytes
  rw [normalize, String.toList_ofList, normalizeChars_eq, dropDotSlashBytes_flatMap, hend]
  dsimp only
  simp only [rdropWhile_flatMap, flatMap_eq_nil, ne_eq]
  split_ifs
  · rfl
  · rfl

end Path

/-! ### Paths that are handed over -/

/-- A path as it is handed over: a text by the host, bytes by a guest. -/
inductive HandedPath where
  | host (path : String)
  | guest (bytes : List UInt8)

namespace HandedPath

variable {p q : HandedPath}

/-- The bytes of a path. -/
def bytes : HandedPath → List UInt8
  | host path => Utf8.encode path
  | guest bytes => bytes

/-- The normal form of a path. -/
def normalForm (p : HandedPath) : List UInt8 := Path.normalizeBytes p.bytes

/-- What is put into the path buffer. The host hands over the normal spelling. -/
def staged : HandedPath → List UInt8
  | host path => Utf8.encode (Path.normalize path)
  | guest bytes => bytes

/-- The path has room in the path buffer. -/
def Fits (p : HandedPath) : Prop := p.staged.length ≤ Interface.pathLimit

/-- The path under which the store keeps the node. -/
def key (p : HandedPath) : String := nodePath p.staged

lemma key_host (path : String) : (host path).key = FileSystem.storedPath path := rfl

/-- The key of a path has the normal form of what is read from the path buffer. -/
lemma encode_key (p : HandedPath) : Utf8.encode p.key = Path.normalizeBytes (Utf8.shown p.staged) :=
  Path.encode_normalize _

lemma plain_staged (h : Utf8.Plain p.bytes) : Utf8.Plain p.staged := by
  cases p with
  | guest bytes => exact h
  | host path =>
    refine Utf8.plain_encode (Path.nul_notMem_normalize fun hm => h.1 ?_)
    exact List.mem_flatMap.2 ⟨_, hm, List.mem_singleton.2 rfl⟩

lemma normalizeBytes_staged (p : HandedPath) : Path.normalizeBytes p.staged = p.normalForm := by
  cases p with
  | guest bytes => rfl
  | host path =>
    change Path.normalizeBytes (Utf8.encode (Path.normalize path)) = Path.normalizeBytes (Utf8.encode path)
    rw [← Path.encode_normalize, Path.normalize_normalize, Path.encode_normalize]

/-- A plain path is kept under its normal form. -/
theorem encode_key_of_plain (h : Utf8.Plain p.bytes) : Utf8.encode p.key = p.normalForm := by
  rw [encode_key, Utf8.shown_eq_iff.2 (plain_staged h), normalizeBytes_staged]

/-- Plain paths are kept under one key iff they have one normal form. -/
theorem key_eq_iff_of_plain (hp : Utf8.Plain p.bytes) (hq : Utf8.Plain q.bytes) :
    p.key = q.key ↔ p.normalForm = q.normalForm := by
  rw [← encode_key_of_plain hp, ← encode_key_of_plain hq, Utf8.encode_injective.eq_iff]

end HandedPath

/-! ### Nodes by their names -/

namespace FileStore

variable {s : FileStore} {p q : HandedPath} {i j : Nat}

/-- The path leads to the node with an index: it fits the path buffer, and the node is found from there. -/
def Reaches (s : FileStore) (p : HandedPath) (i : Nat) : Prop :=
  p.Fits ∧ (s.poke pathBuffer p.staged).findNode p.staged.length = .ok (some (i + 1))

lemma Sound.reaches_iff (hs : s.Sound) : s.Reaches p i ↔ p.Fits ∧ s.indexOf? p.key = some i := by
  refine and_congr_right fun hfits => ?_
  rw [findNode_of_staged (stagedPath_poke hs.base_le_size hfits)]
  change Except.ok ((s.indexOf? p.key).map (· + 1)) = .ok (some (i + 1)) ↔ _
  cases s.indexOf? p.key <;> simp

/-- Two paths lead to one node iff their keys are equal. -/
lemma Sound.reaches_same_iff (hs : s.Sound) (hp : s.Reaches p i) (hq : s.Reaches q j) : i = j ↔ p.key = q.key := by
  have hi := (hs.reaches_iff.1 hp).2
  have hj := (hs.reaches_iff.1 hq).2
  constructor
  · rintro rfl
    obtain ⟨n, hn, hpath⟩ := exists_node_of_indexOf? hi
    obtain ⟨n', hn', hpath'⟩ := exists_node_of_indexOf? hj
    rw [← hpath, ← hpath', Option.some.inj (hn.symm.trans hn')]
  · intro h
    rw [h] at hi
    exact Option.some.inj (hi.symm.trans hj)

end FileStore

/-! ### What is read under a name -/

namespace FileSystem

variable {fs fs' : FileSystem} {p q : HandedPath} {path : String} {k : NodeKind} {bytes data : List UInt8}

/-- What is read under a path: by the host, or by a guest that opens it. -/
def ReadsAs (fs : FileSystem) : HandedPath → List UInt8 → Prop
  | .host path, bytes => ∃ fs', contents path fs = .ok bytes fs'
  | .guest name, bytes => name.length ≤ Interface.pathLimit ∧ fs.store.lookup (nodePath name) = some (.file bytes)

/-- The host has registered a directory under the path, and does not ask the store. -/
def Hides (fs : FileSystem) : HandedPath → Prop
  | .host path => fs.kindOf path = some .directory
  | .guest _ => False

lemma readsAs_iff (hs : fs.store.Sound) :
    fs.ReadsAs p bytes ↔ ¬ fs.Hides p ∧ p.Fits ∧ fs.store.lookup p.key = some (.file bytes) := by
  cases p with
  | guest name =>
    exact ⟨fun h => ⟨id, h⟩, fun h => h.2⟩
  | host path =>
    change (∃ fs', contents path fs = .ok bytes fs') ↔ _
    obtain ⟨r, fs', hx, hy⟩ := contents_cases hs path
    constructor
    · rintro ⟨fs'', hc⟩
      obtain ⟨rfl, rfl⟩ := EStateM.Result.ok.inj ((Op.attempt_of_ok hc).symm.trans hx)
      cases hy with
      | file _ hk hl hn => exact ⟨hk, hl, hn⟩
    · rintro ⟨hk, hl, hn⟩
      have hn' : fs.store.lookup (storedPath path) = some (.file bytes) := hn
      cases hy with
      | registered h => exact absurd h hk
      | tooLong _ h => exact absurd hl (Nat.not_le.2 h)
      | absent _ _ h => cases hn'.symm.trans h
      | directory _ _ _ h => cases hn'.symm.trans h
      | file b _ _ h =>
        obtain rfl : b = bytes := Entry.file.inj (Option.some.inj (h.symm.trans hn'))
        exact ⟨_, Op.eq_ok_of_attempt hx⟩

lemma find?_insertSorted {l : List (String × NodeKind)} {q : String} (h : q ≠ path) :
    (insertSorted path k l).find? (·.1 == q) = l.find? (·.1 == q) := by
  have hne : (path == q) = false := beq_false_of_ne h.symm
  induction l with
  | nil => simp [insertSorted, hne]
  | cons a l ih =>
    rw [insertSorted]
    split_ifs with h1 h2
    · simp [List.find?_cons, hne]
    · have ha : (a.1 == q) = false := beq_false_of_ne (h2 ▸ h.symm)
      simp [hne, ha]
    · simp [List.find?_cons, ih]

/-- What a call may change that names a path: what is kept under its key, and the kind registered for it. -/
structure Touches (fs : FileSystem) (p : HandedPath) (fs' : FileSystem) : Prop where
  sound : fs'.store.Sound
  lookup : ∀ key, key ≠ p.key → fs'.store.lookup key = fs.store.lookup key
  registered : fs'.registered = fs.registered ∨
    ∃ path kind, p = .host path ∧ fs'.registered = insertSorted (Path.normalize path) kind fs.registered

lemma touches_of_lookup (hs : fs'.store.Sound) (hl : fs'.store.lookup = fs.store.lookup)
    (hr : fs'.registered = fs.registered) : fs.Touches p fs' := ⟨hs, fun _ _ => by rw [hl], Or.inl hr⟩

lemma Keeps.touches (h : fs.Keeps fs') : fs.Touches p fs' := touches_of_lookup h.sound h.lookup h.registered

lemma Gains.touches {e : Entry} (h : fs.Gains path e fs') : fs.Touches (.host path) fs' where
  sound := h.sound
  lookup key hk := by
    rw [h.lookup]
    exact Function.update_of_ne hk ..
  registered := Or.inr ⟨path, e.kind, rfl, h.registered⟩

lemma Touches.hides_iff (h : fs.Touches p fs') (hq : q.key ≠ p.key) : fs'.Hides q ↔ fs.Hides q := by
  cases q with
  | guest name => exact Iff.rfl
  | host path =>
    change fs'.kindOf path = _ ↔ fs.kindOf path = _
    rcases h.registered with hr | ⟨other, kind, rfl, hr⟩
    · rw [kindOf, hr, kindOf]
    · have hne : Path.normalize path ≠ Path.normalize other := fun e => hq (by
        rw [HandedPath.key_host, storedPath, e, HandedPath.key_host, storedPath])
      rw [kindOf, hr, find?_insertSorted hne, kindOf]

/-- What a call touches is not read under other names. -/
lemma Touches.readsAs_iff (hs : fs.store.Sound) (h : fs.Touches p fs') (hq : q.key ≠ p.key) :
    fs'.ReadsAs q bytes ↔ fs.ReadsAs q bytes := by
  rw [FileSystem.readsAs_iff h.sound, FileSystem.readsAs_iff hs, h.hides_iff hq, h.lookup _ hq]

lemma touches_addFile (hs : fs.store.Sound) {r : Except Failure Unit}
    (hx : Op.attempt (addFile path data) fs = .ok r fs') : fs.Touches (.host path) fs' := by
  obtain ⟨r', fs'', hx', hadd⟩ := addFile_cases hs path data
  obtain ⟨rfl, rfl⟩ := EStateM.Result.ok.inj (hx.symm.trans hx')
  cases hadd with
  | registered | tooLong => exact (Keeps.refl hs).touches
  | directory _ hl | full _ hl => exact (keeps_staged hs hl).touches
  | cut _ _ _ _ _ _ hsound hf _ hr =>
    refine ⟨hsound, fun key hk => ?_, Or.inl hr⟩
    rw [hf]
    exact Function.update_of_ne hk ..
  | added _ _ _ _ hg => exact hg.touches

lemma touches_addDirectory (hs : fs.store.Sound) {r : Except Failure Unit}
    (hx : Op.attempt (addDirectory path) fs = .ok r fs') : fs.Touches (.host path) fs' := by
  obtain ⟨r', fs'', hx', hadd⟩ := addDirectory_cases hs path
  obtain ⟨rfl, rfl⟩ := EStateM.Result.ok.inj (hx.symm.trans hx')
  cases hadd with
  | kept | registered | tooLong => exact (Keeps.refl hs).touches
  | file _ _ hl => exact (keeps_staged hs hl).touches
  | added _ _ _ hg => exact hg.touches

/-- Contents that were added are read under every name with the same key. -/
lemma eq_of_readsAs_added (hs : fs.store.Sound) (hx : addFile path data fs = .ok ⟨⟩ fs')
    (hq : q.key = storedPath path) (hr : fs'.ReadsAs q bytes) : bytes = data := by
  obtain ⟨r, fs'', hx', hadd⟩ := addFile_cases hs path data
  obtain ⟨rfl, rfl⟩ := EStateM.Result.ok.inj ((Op.attempt_of_ok hx).symm.trans hx')
  cases hadd with
  | added _ _ _ _ hg =>
    obtain ⟨-, -, hl⟩ := (FileSystem.readsAs_iff hg.sound).1 hr
    rw [hg.lookup, hq, Function.update_self] at hl
    exact (Entry.file.inj (Option.some.inj hl)).symm

end FileSystem

/-! ### Calls that name a path -/

/-- The path that a call names. -/
def FileCall.path? (h : Host) : FileCall → Option HandedPath
  | .pathOpen path length _ _ => h.guest.map fun m => .guest (m.span path length)
  | .addFile path _ | .addDirectory path | .contents path => some (.host path)
  | _ => none

namespace Host

variable {h : Host} {p : HandedPath}

lemma touches_pathOpen (hs : h.files.store.Sound) {m : Memory} (hg : h.guest = some m) (path length flags out : Nat) :
    h.files.Touches (.guest (m.span path length)) (Op.after (pathOpen path length flags out) h).files := by
  have hopened {m' : Memory} {t : FileStore} {d : Nat} (ha : h.Accepts path length flags m')
      (ho : h.files.store.Opens (nodePath (m'.span path length)) flags d t) :
      h.files.Touches (.guest (m.span path length)) (h.withStore t).files := by
    obtain rfl : m' = m := Option.some.inj (ha.guest.symm.trans hg)
    refine ⟨ho.sound, fun key hk => ?_, Or.inl rfl⟩
    rw [withStore_store, ho.lookup]
    exact Function.update_of_ne hk ..
  have hc := pathOpen_cases hs path length flags out
  cases hr : pathOpen path length flags out h with
  | ok e h' =>
    rw [hr] at hc
    rw [Op.after_of_ok hr]
    cases hc with
    | tooLong => exact FileSystem.touches_of_lookup hs rfl rfl
    | refused _ _ ht => exact FileSystem.touches_of_lookup ht.sound ht.lookup rfl
    | opened ha ho => exact hopened ha ho
  | error e h' =>
    rw [hr] at hc
    rw [Op.after_of_error hr]
    cases hc with
    | unread => exact FileSystem.touches_of_lookup hs rfl rfl
    | lost e ha ho => exact hopened ha ho

/-- A call touches what is kept under the key of the path that it names, and no other file. -/
theorem touches_of_path? (hs : h.files.store.Sound) {c : FileCall} (hc : c.path? h = some p) :
    h.files.Touches p (Op.after c.run h).files := by
  cases c with
  | pathOpen path length flags out =>
    obtain ⟨m, hg, rfl⟩ := Option.map_eq_some_iff.1 hc
    rw [FileCall.run, Op.after_map]
    exact touches_pathOpen hs hg path length flags out
  | addFile path data =>
    obtain rfl := Option.some.inj hc
    obtain ⟨r, fs, hx, -⟩ := FileSystem.addFile_cases hs path data
    rw [FileCall.run, Op.after_map, Op.after_of_ok (onFiles_of_ok hx)]
    exact FileSystem.touches_addFile hs hx
  | addDirectory path =>
    obtain rfl := Option.some.inj hc
    obtain ⟨r, fs, hx, -⟩ := FileSystem.addDirectory_cases hs path
    rw [FileCall.run, Op.after_map, Op.after_of_ok (onFiles_of_ok hx)]
    exact FileSystem.touches_addDirectory hs hx
  | contents path =>
    obtain rfl := Option.some.inj hc
    obtain ⟨r, fs, hx, hy⟩ := FileSystem.contents_cases hs path
    rw [FileCall.run, Op.after_map, Op.after_of_ok (onFiles_of_ok hx)]
    exact (hy.keeps hs).touches
  | _ => cases hc

end Host

/-- **Names are kept apart as far as their keys are.** On every run two paths lead to one node iff their keys are equal.
A call changes what is read under the key it names, and under no other; contents that are added under a path are those
that are read under every path with the same key. The key is the normal form of what is read from the path buffer. For
a plain path this is its own normal form, so plain paths with different normal forms are kept apart. -/
theorem names_apart (h : Host) (calls : List FileCall) (hf : h.files = .empty) :
    (∀ (p q : HandedPath) (i j : Nat), (h.afterCalls calls).files.store.Reaches p i →
      (h.afterCalls calls).files.store.Reaches q j → (i = j ↔ p.key = q.key)) ∧
    (∀ (c : FileCall) (p q : HandedPath) (bytes : List UInt8), c.path? (h.afterCalls calls) = some p →
      q.key ≠ p.key →
      ((Op.after c.run (h.afterCalls calls)).files.ReadsAs q bytes ↔ (h.afterCalls calls).files.ReadsAs q bytes)) ∧
    (∀ (path : String) (data : List UInt8) (fs : FileSystem) (q : HandedPath) (bytes : List UInt8),
      FileSystem.addFile path data (h.afterCalls calls).files = .ok ⟨⟩ fs →
      q.key = (HandedPath.host path).key → fs.ReadsAs q bytes → bytes = data) ∧
    ∀ p : HandedPath, Utf8.encode p.key = Path.normalizeBytes (Utf8.shown p.staged) ∧
      (Utf8.Plain p.bytes → Utf8.encode p.key = p.normalForm) := by
  have hs := (Host.covers_log hf calls).1
  refine ⟨fun p q i j hp hq => hs.reaches_same_iff hp hq, fun c p q bytes hc hne => ?_,
    fun path data fs q bytes hx hq hr => FileSystem.eq_of_readsAs_added hs hx hq hr,
    fun p => ⟨p.encode_key, HandedPath.encode_key_of_plain⟩⟩
  exact (Host.touches_of_path? hs hc).readsAs_iff hs hne

/-- A file that has been added to an empty file system. -/
def addedA : Host := Host.afterCalls {} [.addFile "/a" [1]]

lemma gains_addedA : FileSystem.empty.Gains "/a" (.file [1]) addedA.files ∧ addedA.files.store.top ≤ 0x1008 := by
  obtain ⟨fs, hx, hg⟩ := FileSystem.empty.exists_gains_addFile "/a" [1] FileStore.sound_empty (by decide) (by decide)
    (by decide) (by decide) (by decide)
  have hfs : addedA.files = fs := by
    rw [addedA, Host.afterCalls, Host.afterCalls, FileCall.run, Op.after_map,
      Op.after_of_ok (Host.onFiles_of_ok (h := {}) (Op.attempt_of_ok hx))]
    rfl
  rw [hfs]
  refine ⟨hg, ?_⟩
  rcases FileSystem.addFile_top FileStore.sound_empty hx with htop | htop
  · rw [htop]
    decide
  · rw [htop]
    decide

lemma addedA_readsAs : addedA.files.ReadsAs (.host "/a") [1] := by
  obtain ⟨hg, -⟩ := gains_addedA
  refine (FileSystem.readsAs_iff hg.sound).2 ⟨?_, (by decide : FileSystem.pathLength "/a" ≤ _), ?_⟩
  · change ¬ FileSystem.kindOf _ _ = _
    rw [FileSystem.kindOf, hg.registered]
    decide
  · rw [hg.lookup]
    exact Function.update_self ..

/-- A file is read as it was behind the addition of another. -/
theorem names_apart_second :
    (Op.after (FileCall.addFile "/b" [2]).run addedA).files.ReadsAs (.host "/a") [1] :=
  ((names_apart {} [.addFile "/a" [1]] rfl).2.1 (.addFile "/b" [2]) (.host "/b") (.host "/a") [1] rfl
    (by decide)).2 addedA_readsAs

/-- The contents of a file are replaced by those added under a name that continues its own behind a NUL. -/
theorem exists_names_share_file : ¬ ∀ (h : Host) (calls : List FileCall) (path : String) (data : List UInt8)
    (fs : FileSystem) (q : HandedPath) (bytes : List UInt8), h.files = .empty →
    FileSystem.addFile path data (h.afterCalls calls).files = .ok ⟨⟩ fs →
    q.normalForm ≠ (HandedPath.host path).normalForm → (h.afterCalls calls).files.ReadsAs q bytes →
    fs.ReadsAs q bytes := by
  intro hall
  obtain ⟨hg, htop⟩ := gains_addedA
  have hkey : FileSystem.storedPath "/a\x00x" = FileSystem.storedPath "/a" := by decide
  obtain ⟨fs, hx, -⟩ : ∃ fs, FileSystem.addFile "/a\x00x" [2] addedA.files = .ok ⟨⟩ fs ∧ _ := by
    refine addedA.files.exists_gains_addFile "/a\x00x" [2] hg.sound ?_ (by decide) ?_ (by decide) ?_
    · rw [FileSystem.kindOf, hg.registered]
      decide
    · rw [hg.lookup, hkey, Function.update_self]
      decide
    · exact FileStore.room_of_top_le htop (by decide)
  have hr := hall {} [.addFile "/a" [1]] "/a\x00x" [2] fs (.host "/a") [1] rfl hx (by decide) addedA_readsAs
  have hone := FileSystem.eq_of_readsAs_added hg.sound hx ((HandedPath.key_host "/a").trans hkey.symm) hr
  exact absurd hone (by decide)

end ToolchainHost
