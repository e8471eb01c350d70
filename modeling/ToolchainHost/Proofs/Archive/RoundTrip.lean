import ToolchainHost.Proofs.Archive.Encoding
import ToolchainHost.Proofs.Files.Catalog

/-!
# Archives are loaded as they were written

* `Admits`: a file system takes entries: there is room for all files, and no path is used with both kinds.
* `Admits.adds`: adding them one by one succeeds, and each path names what was added last.
* `load_of_encodes`: loading an archive of entries adds them in order, counts them, and ends behind the last one.
-/

namespace ToolchainHost.Archive

/-! ### Lengths of normal paths -/

lemma length_encode_le {a b : List Char} (h : a <:+: b) :
    (a.flatMap String.utf8EncodeChar).length ≤ (b.flatMap String.utf8EncodeChar).length := by
  obtain ⟨s, t, rfl⟩ := h
  simp only [List.flatMap_append, List.length_append]
  omega

/-- Normalizing a path makes it longer by a slash at most. -/
lemma pathLength_le (path : String) : FileSystem.pathLength path ≤ (Utf8.encode path).length + 1 := by
  rw [FileSystem.pathLength, Utf8.encode, Path.normalize, String.toList_ofList, Path.normalizeChars_eq]
  split_ifs
  · exact Nat.le_add_left ..
  · have hinfix := (Path.dropEndWhile_isPrefix (· == '/') (Path.dropDotSlashes path.toList)).isInfix.trans
      (Path.dropDotSlashes_suffix path.toList).isInfix
    exact Nat.le_succ_of_le (length_encode_le hinfix)

/-! ### Room for files -/

/-- Where the heap ends when every file of some entries has got a place of its own. -/
def heapEnd (top : Nat) : List Entry → Nat
  | [] => top
  | .file _ contents :: es => heapEnd ((top + 7) / 8 * 8 + contents.length) es
  | .directory _ :: es => heapEnd top es

lemma le_heapEnd (top : Nat) (es : List Entry) : top ≤ heapEnd top es := by
  induction es generalizing top with
  | nil => exact Nat.le_refl _
  | cons e es ih =>
    cases e with
    | file path contents => exact Nat.le_trans (by omega) (ih _)
    | directory path => exact ih _

lemma heapEnd_mono {top top' : Nat} (h : top ≤ top') (es : List Entry) : heapEnd top es ≤ heapEnd top' es := by
  induction es generalizing top top' with
  | nil => exact h
  | cons e es ih =>
    cases e with
    | file path contents =>
      rw [heapEnd, heapEnd]
      exact ih (by omega)
    | directory path => exact ih h

/-! ### Adding entries -/

/-- What the path of an entry names when it was added. -/
def Entry.node : Entry → ToolchainHost.Entry
  | file _ contents => .file contents
  | directory _ => .directory

lemma Entry.kind_node (e : Entry) : e.node.kind = e.kind := by
  cases e <;> rfl

/-- Adds entries one by one. -/
def addAll : List Entry → Op FileSystem Unit
  | [] => pure ()
  | e :: es => do
    e.add
    addAll es

/-- A catalog with entries added in order. -/
def withEntries (c : Catalog) (es : List Entry) : Catalog :=
  es.foldl (fun c e => Function.update c (Path.normalize e.path) (some e.node)) c

lemma withEntries_of_forall_ne {es : List Entry} {path : String} (h : ∀ e ∈ es, Path.normalize e.path ≠ path)
    (c : Catalog) : withEntries c es path = c path := by
  induction es generalizing c with
  | nil => rfl
  | cons e es ih =>
    obtain ⟨he, hes⟩ := List.forall_mem_cons.1 h
    rw [withEntries, List.foldl_cons]
    exact (ih hes _).trans (Function.update_of_ne he.symm ..)

/-- **A file system takes entries.** -/
structure Admits (fs : FileSystem) (es : List Entry) : Prop where
  inStep : fs.InStep
  short : ∀ e ∈ es, '\x00' ∉ e.path.toList ∧ FileSystem.pathLength e.path ≤ Interface.pathLimit
  alike : ∀ e ∈ es, ∀ d ∈ es, Path.normalize e.path = Path.normalize d.path → e.kind = d.kind
  free : ∀ e ∈ es, ∀ x, fs.store.lookup (Path.normalize e.path) = some x → x.kind = e.kind
  room : heapEnd fs.store.top es < Word.count

namespace Admits

variable {fs fs' : FileSystem} {e : Entry} {es : List Entry} {path : String} {contents : List UInt8}

/-- A file is added where there is room for it. -/
lemma addFile (h : Admits fs (.file path contents :: es)) :
    ∃ fs', FileSystem.addFile path contents fs = .ok ⟨⟩ fs' ∧ fs'.InStep ∧
      fs'.store.lookup = Function.update fs.store.lookup (Path.normalize path) (some (.file contents)) ∧
      fs'.store.top ≤ (fs.store.top + 7) / 8 * 8 + contents.length := by
  obtain ⟨hfree, hshort⟩ : '\x00' ∉ path.toList ∧ FileSystem.pathLength path ≤ Interface.pathLimit :=
    h.short _ List.mem_cons_self
  have hroom := (le_heapEnd _ es).trans_lt h.room
  have hd : fs.store.lookup (Path.normalize path) ≠ some .directory := by
    intro hd
    cases h.free _ List.mem_cons_self _ hd
  have hlen : contents.length < Word.count := by omega
  have htop : fs.store.top + 7 < Word.count := by
    unfold Word.count at hroom ⊢
    omega
  obtain ⟨r, fs', hx, hadd⟩ := FileSystem.addFile_cases h.inStep.store path contents
  obtain ⟨hi, -, hcat⟩ := h.inStep.addFile hfree htop hx
  have hadds : Catalog.addFile fs.store.lookup path contents =
      .ok (Function.update fs.store.lookup (Path.normalize path) (some (.file contents))) := by
    rw [Catalog.addFile, if_neg hd, if_neg (Nat.not_lt.2 hshort)]
  generalize hl : fs'.store.lookup = c at hcat
  cases hcat with
  | added _ hc =>
    have hrun := Op.eq_ok_of_attempt hx
    refine ⟨fs', hrun, hi, hl.trans (Except.ok.inj (hc.symm.trans hadds)), ?_⟩
    rcases FileSystem.addFile_top h.inStep.store hrun with heq | heq
    · omega
    · rw [heq, Nat.mod_eq_of_lt hlen]
      exact Nat.le_refl _
  | refused hc => cases hc.symm.trans hadds
  | full reason _ =>
    refine absurd ⟨htop, ?_⟩ (FileSystem.not_room_of_aborted h.inStep.store hx)
    rw [Nat.mod_eq_of_lt hlen]
    exact hroom
  | cut address size hc => omega

/-- A directory is added. -/
lemma addDirectory (h : Admits fs (.directory path :: es)) :
    ∃ fs', FileSystem.addDirectory path fs = .ok ⟨⟩ fs' ∧ fs'.InStep ∧
      fs'.store.lookup = Function.update fs.store.lookup (Path.normalize path) (some .directory) ∧
      fs'.store.top = fs.store.top := by
  obtain ⟨hfree, hshort⟩ : '\x00' ∉ path.toList ∧ FileSystem.pathLength path ≤ Interface.pathLimit :=
    h.short _ List.mem_cons_self
  have hadds : Catalog.addDirectory fs.store.lookup path =
      .ok (Function.update fs.store.lookup (Path.normalize path) (some .directory)) := by
    rw [Catalog.addDirectory]
    cases hl : fs.store.lookup (Path.normalize path) with
    | none => rw [if_neg (by simp), if_neg (Nat.not_lt.2 hshort), if_neg (by simp)]
    | some x =>
      cases x with
      | directory => rw [if_pos rfl, Function.update_eq_self_iff.2 hl.symm]
      | file bytes => cases h.free _ List.mem_cons_self _ hl
  obtain ⟨r, fs', hx, hadd⟩ := FileSystem.addDirectory_cases h.inStep.store path
  obtain ⟨hi, -, hcat⟩ := h.inStep.addDirectory hfree hx
  generalize hl : fs'.store.lookup = c at hcat
  cases hcat with
  | added hc =>
    have hrun := Op.eq_ok_of_attempt hx
    exact ⟨fs', hrun, hi, hl.trans (Except.ok.inj (hc.symm.trans hadds)),
      FileSystem.addDirectory_top h.inStep.store hrun⟩
  | refused hc => cases hc.symm.trans hadds

/-- One entry is added, and the others are still taken. -/
lemma add (h : Admits fs (e :: es)) :
    ∃ fs', e.add fs = .ok ⟨⟩ fs' ∧ Admits fs' es ∧
      fs'.store.lookup = Function.update fs.store.lookup (Path.normalize e.path) (some e.node) := by
  have hadd : ∃ fs', e.add fs = .ok ⟨⟩ fs' ∧ fs'.InStep ∧
      fs'.store.lookup = Function.update fs.store.lookup (Path.normalize e.path) (some e.node) ∧
      heapEnd fs'.store.top es ≤ heapEnd fs.store.top (e :: es) := by
    cases e with
    | file path contents =>
      obtain ⟨fs', hrun, hi, hl, htop⟩ := h.addFile
      exact ⟨fs', hrun, hi, hl, heapEnd_mono htop es⟩
    | directory path =>
      obtain ⟨fs', hrun, hi, hl, htop⟩ := h.addDirectory
      exact ⟨fs', hrun, hi, hl, heapEnd_mono htop.le es⟩
  obtain ⟨fs', hrun, hi, hl, hend⟩ := hadd
  refine ⟨fs', hrun, ?_, hl⟩
  constructor
  case inStep => exact hi
  case short => exact fun d hd => h.short d (List.mem_cons_of_mem _ hd)
  case alike => exact fun d hd d' hd' => h.alike d (List.mem_cons_of_mem _ hd) d' (List.mem_cons_of_mem _ hd')
  case free =>
    intro d hd x hx
    rw [hl] at hx
    by_cases hp : Path.normalize d.path = Path.normalize e.path
    · rw [hp, Function.update_self] at hx
      obtain rfl := Option.some.inj hx
      rw [Entry.kind_node]
      exact h.alike e List.mem_cons_self d (List.mem_cons_of_mem _ hd) hp.symm
    · rw [Function.update_of_ne hp] at hx
      exact h.free d (List.mem_cons_of_mem _ hd) x hx
  case room => exact hend.trans_lt h.room

/-- **Entries are added one by one**, and each path names what was added last. -/
theorem adds (h : Admits fs es) :
    ∃ fs', addAll es fs = .ok ⟨⟩ fs' ∧ fs'.InStep ∧
      fs'.store.lookup = withEntries fs.store.lookup es := by
  induction es generalizing fs with
  | nil => exact ⟨fs, rfl, h.inStep, rfl⟩
  | cons e es ih =>
    obtain ⟨fs₁, hrun, hadmits, hl⟩ := h.add
    obtain ⟨fs', hrest, hi, hl'⟩ := ih hadmits
    refine ⟨fs', ?_, hi, ?_⟩
    · rw [addAll, Op.bind_of_ok hrun, hrest]
    · rw [hl', hl]
      rfl

end Admits

/-! ### Loading what was written -/

variable {data : List UInt8} {es : List Entry} {fs fs' : FileSystem}

/-- A load passes the entries of an archive, wherever it lies, and ends behind them. -/
lemma arrives_of_encodes (h : Encodes es data) (hadd : addAll es fs = .ok ⟨⟩ fs') (pre : List UInt8) :
    Arrives (pre ++ data) ⟨pre.length, fs⟩ es ⟨pre.length + (es.map Entry.extent).sum, fs'⟩ ∧
      entryAt (pre ++ data) (pre.length + (es.map Entry.extent).sum) = .ok none := by
  induction h generalizing fs pre with
  | ended hends =>
    cases hadd
    exact ⟨.here _, entryAt_of_endsHere hends pre⟩
  | @entry block padding rest e es hb hp hr ih =>
    rw [addAll] at hadd
    obtain ⟨u, fs₁, hone, hrest⟩ := Op.bind_eq_ok.1 hadd
    have hlen : (pre ++ (block ++ (e.contents ++ padding))).length = pre.length + e.extent := by
      simp only [List.length_append, hb.length_eq]
      omega
    have hdata : pre ++ (block ++ (e.contents ++ (padding ++ rest))) =
        pre ++ (block ++ (e.contents ++ padding)) ++ rest := by simp only [List.append_assoc]
    obtain ⟨harr, hend⟩ := ih hrest (pre ++ (block ++ (e.contents ++ padding)))
    rw [hlen, ← hdata] at harr hend
    rw [List.map_cons, List.sum_cons, ← Nat.add_assoc]
    exact ⟨.past (entryAt_of_heads hb pre _) hone harr, hend⟩
  | @unpadded block padding e hb hp =>
    rw [addAll] at hadd
    obtain ⟨u, fs₁, hone, hrest⟩ := Op.bind_eq_ok.1 hadd
    cases hrest
    rw [List.map_singleton, List.sum_singleton]
    refine ⟨.past (entryAt_of_heads hb pre padding) hone (.here _), entryAt_of_lt ?_⟩
    simp only [List.length_append, hb.length_eq]
    omega

/-- **Archives are loaded as they were written.** Where no path is used with both kinds and the heap has room for all
files, loading an archive of entries leaves the file system that adding the entries in order leaves. It counts files,
directories and bytes, and ends behind the last entry; and each file reads as it was added last. -/
theorem load_of_encodes (hdata : Encodes es data) (hfs : fs.InStep)
    (halike : ∀ e ∈ es, ∀ d ∈ es, Path.normalize e.path = Path.normalize d.path → e.kind = d.kind)
    (hfree : ∀ e ∈ es, ∀ x, fs.store.lookup (Path.normalize e.path) = some x → x.kind = e.kind)
    (hroom : heapEnd fs.store.top es < Word.count) :
    ∃ fs', addAll es fs = .ok ⟨⟩ fs' ∧
      load data ⟨0, fs⟩ = .ok (Summary.of es) ⟨(es.map Entry.extent).sum, fs'⟩ ∧
      ∀ before path contents after, es = before ++ .file path contents :: after →
        (∀ e ∈ after, Path.normalize e.path ≠ Path.normalize path) →
          ∃ fs'', FileSystem.contents path fs' = .ok contents fs'' := by
  have hshort : ∀ e ∈ es, '\x00' ∉ e.path.toList ∧ FileSystem.pathLength e.path ≤ Interface.pathLimit := by
    intro e he
    obtain ⟨hfree, hlen⟩ := hdata.path e he
    have hle := pathLength_le e.path
    refine ⟨hfree, ?_⟩
    unfold Interface.pathLimit
    omega
  obtain ⟨fs', hadd, hi, hl⟩ := Admits.adds ⟨hfs, hshort, halike, hfree, hroom⟩
  obtain ⟨harr, hend⟩ := arrives_of_encodes hdata hadd []
  rw [List.nil_append, List.length_nil, Nat.zero_add] at harr hend
  refine ⟨fs', hadd, Op.eq_ok_of_attempt (attempt_load harr (.ended hend)), ?_⟩
  rintro before path contents after rfl hafter
  obtain ⟨hnul, hlen⟩ : '\x00' ∉ path.toList ∧ FileSystem.pathLength path ≤ Interface.pathLimit :=
    hshort (.file path contents) (by simp)
  obtain ⟨-, hread⟩ := hi.contents hnul (Op.attempt_eq_outcome (FileSystem.contents path) fs')
  have hlast : fs'.store.lookup (Path.normalize path) = some (.file contents) := by
    rw [hl, withEntries, List.foldl_append, List.foldl_cons]
    exact (withEntries_of_forall_ne hafter _).trans (Function.update_self ..)
  have hcontents : Catalog.contents fs'.store.lookup path = .ok contents := by
    rw [Catalog.contents, hlast, if_neg (by simp), if_neg (Nat.not_lt.2 hlen)]
  have hok := (Op.attempt_eq_outcome (FileSystem.contents path) fs').trans (by rw [hread, hcontents])
  exact ⟨_, Op.eq_ok_of_attempt hok⟩

/-- A directory and a file whose last block is not filled up. -/
theorem load_of_encodes_unpadded :
    let directory := [0x64, 0x2F] ++ List.replicate 122 0 ++ [0x30] ++ List.replicate 31 0 ++ [0x35] ++
      List.replicate 100 0 ++ magic ++ List.replicate 247 0
    let file := [0x61] ++ List.replicate 123 0 ++ [0x32] ++ List.replicate 132 0 ++ magic ++ List.replicate 247 0
    ∃ fs, addAll [.directory "d/", .file "a" [1, 2]] .empty = .ok ⟨⟩ fs ∧
      load (directory ++ (file ++ [1, 2])) ⟨0, .empty⟩ = .ok ⟨1, 1, 2⟩ ⟨1536, fs⟩ := by
  intro directory file
  have hd : Heads directory (.directory "d/") := by
    refine ⟨by decide +kernel, by decide +kernel, ⟨by decide, List.replicate 98 0, by decide +kernel, rfl⟩, ?_⟩
    exact ⟨by decide +kernel, 0, by decide +kernel⟩
  have hf : Heads file (.file "a" [1, 2]) := by
    refine ⟨by decide +kernel, by decide +kernel, ⟨by decide, List.replicate 99 0, by decide +kernel, rfl⟩, ?_⟩
    refine ⟨by decide +kernel, "2", ⟨by decide, List.replicate 11 0, by decide +kernel, rfl⟩, ?_⟩
    exact ⟨0, [2], 0, by decide, by decide, by decide, by decide⟩
  have hfile : Encodes [.file "a" [1, 2]] (file ++ ([1, 2] ++ [])) := .unpadded hf (by decide +kernel)
  have hdata : Encodes [.directory "d/", .file "a" [1, 2]] (directory ++ ([] ++ ([] ++ (file ++ ([1, 2] ++ []))))) :=
    .entry hd (by decide +kernel) hfile
  rw [List.nil_append, List.nil_append, List.append_nil] at hdata
  obtain ⟨fs, hadd, hload, -⟩ := load_of_encodes hdata FileSystem.inStep_empty (by decide +kernel)
    (fun _ _ _ hx => by cases hx) (by decide +kernel)
  exact ⟨fs, hadd, hload⟩

end ToolchainHost.Archive
