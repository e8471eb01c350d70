import ToolchainHost.Files.Runs
import ToolchainHost.Proofs.Files.Catalog
import ToolchainHost.Proofs.Host.Names

/-!
# Adding a file, whole or not at all

* `FileSystem.reading`, `existing`: what the host is told about a path, as a function of what is there.
* `FileSystem.answer_congr`: file systems that hold the same give the same answers.
* `addFile_whole`: a file is added as it is, or nothing has changed, as long as its length is a word. A longer one is
  refused, but a file with the rest of the length may be left.
* `exists_addFile_cut`: the contents of a file are gone behind an addition that was refused.
* `FileSystem.addRuns_eq`: contents given as runs are added as their bytes are.
-/

namespace ToolchainHost

open Path (normalize)

namespace FileSystem

variable {fs fs' : FileSystem} {path : String} {data : List UInt8} {f : Failure}

/-! ### What the host is told -/

/-- What reading a path answers. -/
def reading (fs : FileSystem) (path : String) : Except Failure (List UInt8) :=
  if fs.kindOf path = some .directory then .error (.notFound (normalize path))
  else if Interface.pathLimit < pathLength path then .error (tooLong path)
  else
    match fs.store.lookup (storedPath path), fs.store.indexOf? (storedPath path) with
    | some (.file bytes), _ => .ok bytes
    | some .directory, some index => .error (.notFound s!"inode {index + 1} is a directory")
    | _, _ => .error (.notFound (normalize path))

/-- What asking for a path answers. -/
def existing (fs : FileSystem) (path : String) : Except Failure Bool :=
  if (fs.kindOf path).isSome then .ok true
  else if Interface.pathLimit < pathLength path then .error (tooLong path)
  else .ok (fs.store.lookup (storedPath path)).isSome

lemma staged_nodes (fs : FileSystem) (path : String) : (fs.staged path).store.nodes = fs.store.nodes := by
  rw [staged_store, FileStore.poke_nodes]

lemma outcome_contents (hs : fs.store.Sound) (path : String) : ((contents path).outcome fs).1 = fs.reading path := by
  obtain ⟨r, fs', hx, hy⟩ := contents_cases hs path
  rw [Op.outcome_of_attempt hx]
  unfold reading
  cases hy with
  | registered h => rw [if_pos h]
  | tooLong h hl => rw [if_neg h, if_pos hl]
  | absent h hl hn => rw [if_neg h, if_neg (Nat.not_lt.2 hl), hn]
  | file bytes h hl hn => rw [if_neg h, if_neg (Nat.not_lt.2 hl), hn]
  | directory number h hl hn =>
    have hk := keeps_staged hs hl
    obtain ⟨i, n, hi, hi', -, hd⟩ := hk.sound.directory_of_lookup (by rw [hk.lookup, hn])
    have hrun : contents path fs = .error (.notFound s!"inode {i + 1} is a directory") (fs.staged path) := by
      rw [contents_staged hs h hl, hi]
      dsimp only
      rw [FileStore.fileAddress_of_directory hi' hd, Op.lift_error_bind]
    have hindex : fs.store.indexOf? (storedPath path) = some i := by
      rw [← hi, FileStore.indexOf?, FileStore.indexOf?, staged_nodes]
    have hresult := (EStateM.Result.ok.inj ((Op.attempt_of_error hrun).symm.trans hx)).1
    rw [if_neg h, if_neg (Nat.not_lt.2 hl), hn, hindex]
    exact hresult.symm

lemma outcome_fileExists (hs : fs.store.Sound) (path : String) :
    ((fileExists path).outcome fs).1 = fs.existing path := by
  obtain ⟨r, fs', hx, hy⟩ := fileExists_cases hs path
  rw [Op.outcome_of_attempt hx]
  unfold existing
  cases hy with
  | registered h => rw [if_pos h]
  | tooLong h hl => rw [h, if_neg (by simp), if_pos hl]
  | asked h hl => rw [h, if_neg (by simp), if_neg (Nat.not_lt.2 hl)]

/-- File systems with the same nodes answer alike. -/
theorem answer_congr (hk : fs.Keeps fs') (hs : fs.store.Sound) (hn : fs'.store.nodes = fs.store.nodes)
    {q : FileRequest} (hq : q.IsQuery) : (q.answer fs').1 = (q.answer fs).1 := by
  have hindex (p : String) : fs'.store.indexOf? p = fs.store.indexOf? p := by
    rw [FileStore.indexOf?, hn, FileStore.indexOf?]
  cases q with
  | addFile | addDirectory => cases hq
  | contents path =>
    change FileReply.contents ((contents path).outcome fs').1 = .contents ((contents path).outcome fs).1
    rw [outcome_contents hk.sound, outcome_contents hs, reading, reading, kindOf_congr hk.registered, hk.lookup,
      hindex]
  | fileExists path =>
    change FileReply.found ((fileExists path).outcome fs').1 = .found ((fileExists path).outcome fs).1
    rw [outcome_fileExists hk.sound, outcome_fileExists hs, existing, existing, kindOf_congr hk.registered, hk.lookup]
  | kindOf path =>
    change FileReply.kind (fs'.kindOf path) = .kind (fs.kindOf path)
    rw [kindOf_congr hk.registered]
  | entries =>
    change FileReply.entries fs'.registered = .entries fs.registered
    rw [hk.registered]

/-- A file that is there is read as it is, unless a directory is registered under the path. -/
lemma answer_contents_of_lookup (hs : fs.store.Sound) (hk : fs.kindOf path ≠ some .directory)
    (hl : pathLength path ≤ Interface.pathLimit) (h : fs.store.lookup (storedPath path) = some (.file data)) :
    ((FileRequest.contents path).answer fs).1 = .contents (.ok data) := by
  change FileReply.contents ((contents path).outcome fs).1 = _
  rw [outcome_contents hs, reading, if_neg hk, if_neg (Nat.not_lt.2 hl), h]

lemma find?_insertSorted_self (path : String) (k : NodeKind) (l : List (String × NodeKind)) :
    (insertSorted path k l).find? (·.1 == path) = some (path, k) := by
  induction l with
  | nil => simp [insertSorted]
  | cons a l ih =>
    rw [insertSorted]
    split_ifs with h1 h2
    · simp
    · simp
    · rw [List.find?_cons_of_neg (by simpa using Ne.symm h2), ih]

lemma Gains.kindOf_eq {e : Entry} (hg : fs.Gains path e fs') : fs'.kindOf path = some e.kind := by
  rw [kindOf, hg.registered, find?_insertSorted_self, Option.map_some]

/-! ### How an addition ends -/

/-- How adding a file ends, as the host sees it. -/
inductive Added (fs : FileSystem) (path : String) (data : List UInt8) : Except Failure Unit → FileSystem → Prop
  /-- The file is there, as it was given. -/
  | whole {fs' : FileSystem} (hd : data.length < Word.count)
      (hc : ((FileRequest.contents path).answer fs').1 = .contents (.ok data)) : Added fs path data (.ok ()) fs'
  /-- Nothing has changed. -/
  | nothing {f : Failure} {fs' : FileSystem} (hf : f = .crash → Word.count ≤ fs.store.top + 7)
      (hq : ∀ q : FileRequest, q.IsQuery → (q.answer fs').1 = (q.answer fs).1) : Added fs path data (.error f) fs'
  /-- The length was cut to a word, and there is a file of that length. -/
  | cut {fs' : FileSystem} (address size : Nat) (hd : Word.count ≤ data.length)
      (hl : fs'.store.lookup = Function.update fs.store.lookup (storedPath path)
        (some (.file (fs.store.recycled (storedPath path) (data.length % Word.count)))))
      (hr : fs'.registered = fs.registered)
      (hc : ((FileRequest.contents path).answer fs').1 =
        .contents (.ok (fs.store.recycled (storedPath path) (data.length % Word.count)))) :
      Added fs path data (.error (.outOfBounds address data.length size)) fs'

theorem added_addFile (hs : fs.store.Sound) (path : String) (data : List UInt8) :
    ∃ r fs', (addFile path data).outcome fs = (r, fs') ∧ fs.Added path data r fs' := by
  obtain ⟨r, fs', hx, hadd⟩ := addFile_cases hs path data
  refine ⟨r, fs', Op.outcome_of_attempt hx, ?_⟩
  have hsame (q : FileRequest) (hq : q.IsQuery) : (q.answer fs).1 = (q.answer fs).1 := answer_congr (.refl hs) hs rfl hq
  have hstaged (hl : pathLength path ≤ Interface.pathLimit) (q : FileRequest) (hq : q.IsQuery) :
      (q.answer (fs.staged path)).1 = (q.answer fs).1 := 
    answer_congr (keeps_staged hs hl) hs (staged_nodes fs path) hq
  cases hadd with
  | registered => exact .nothing (by simp) hsame
  | tooLong => exact .nothing (by simp [FileSystem.tooLong]) hsame
  | directory h hl => exact .nothing (by simp) (hstaged hl)
  | full h hl hn hr =>
    refine .nothing (fun hcrash => ?_) (hstaged hl)
    unfold FileStore.denial at hcrash
    split_ifs at hcrash with htop
    exact Nat.not_lt.1 htop
  | cut address size h hl hn hd hsound hf hh hr =>
    refine .cut address size hd hf hr (answer_contents_of_lookup hsound ?_ hl ?_)
    · rwa [kindOf_congr hr]
    · rw [hf, Function.update_self]
  | added h hl hn hd hg =>
    refine .whole hd (answer_contents_of_lookup hg.sound ?_ hl ?_)
    · rw [hg.kindOf_eq]
      rintro ⟨⟩
    · rw [hg.lookup, Function.update_self]

end FileSystem

/-- **A file is added whole or not at all** as long as its length is a word. Whatever was done before, an addition that
succeeds leaves the file as it was given, and one that fails changes no answer. Contents of 2³² bytes and more are
refused, too, but a file may be left whose length is the rest: with the bytes that its place held, or with zeros. -/
theorem addFile_whole (h : Host) (calls : List FileCall) (hf : h.files = .empty) (path : String)
    (data : List UInt8) :
    ∃ r fs, (FileSystem.addFile path data).outcome (h.afterCalls calls).files = (r, fs) ∧
      (h.afterCalls calls).files.Added path data r fs :=
  FileSystem.added_addFile (Host.covers_log hf calls).1 path data

/-- A file is replaced by another. -/
theorem addFile_whole_replaced : ({} : Host).files = .empty ∧
    ∃ r fs, (FileSystem.addFile "/a" [2]).outcome addedA.files = (r, fs) ∧ addedA.files.Added "/a" [2] r fs :=
  ⟨rfl, addFile_whole {} [.addFile "/a" [1]] rfl "/a" [2]⟩

/-- A file is empty behind the addition of 2³² bytes under its path, which was refused. -/
theorem exists_addFile_cut : ¬ ∀ (h : Host) (calls : List FileCall) (path : String) (data : List UInt8),
    h.files = .empty →
    (∃ fs, FileSystem.addFile path data (h.afterCalls calls).files = .ok ⟨⟩ fs ∧ fs.ReadsAs (.host path) data) ∨
      ∃ f fs, FileSystem.addFile path data (h.afterCalls calls).files = .error f fs ∧
        ∀ (q : String) (bytes : List UInt8),
          fs.ReadsAs (.host q) bytes ↔ (h.afterCalls calls).files.ReadsAs (.host q) bytes := by
  intro hall
  obtain ⟨data, hdata⟩ : ∃ data : List UInt8, data.length = Word.count :=
    ⟨List.replicate Word.count 0, List.length_replicate⟩
  obtain ⟨hg, htop⟩ := gains_addedA
  have hrest : data.length % Word.count = 0 := by rw [hdata, Nat.mod_self]
  have hlookup : addedA.files.store.lookup (FileSystem.storedPath "/a") = some (.file [1]) := by
    rw [hg.lookup, Function.update_self]
  obtain ⟨r, fs, hx, hadd⟩ := FileSystem.addFile_cases hg.sound "/a" data
  cases hadd with
  | registered h =>
    rw [hg.kindOf_eq] at h
    cases h
  | tooLong _ h => exact absurd h (by decide)
  | directory _ _ h => cases hlookup.symm.trans h
  | full _ _ _ h =>
    rw [hrest] at h
    exact h (FileStore.room_of_top_le htop (by decide))
  | added _ _ _ h => exact absurd hdata (Nat.ne_of_lt h)
  | cut address size _ _ _ _ hs hl =>
    rw [hrest, hg.lookup] at hl
    rcases hall {} [.addFile "/a" [1]] "/a" data rfl with ⟨fs', hrun, -⟩ | ⟨f, fs', hrun, hsame⟩
    · cases (Op.attempt_of_ok hrun).symm.trans hx
    · obtain ⟨-, rfl⟩ := EStateM.Result.ok.inj ((Op.attempt_of_error hrun).symm.trans hx)
      obtain ⟨-, -, hread⟩ := (FileSystem.readsAs_iff hs).1 ((hsame "/a" [1]).2 addedA_readsAs)
      rw [HandedPath.key_host, hl, Function.update_self] at hread
      have hlen := congrArg List.length (Entry.file.inj (Option.some.inj hread))
      rw [FileStore.length_recycled] at hlen
      cases hlen

/-! ### Contents given as runs -/

lemma Run.total_eq (runs : List Run) : total runs = (expand runs).length := by
  induction runs with
  | nil => rfl
  | cons r runs ih =>
    rw [expand, List.flatMap_cons, List.length_append, List.length_replicate]
    exact congrArg (r.count + ·) ih

lemma FileStore.writeRuns_eq (address : Nat) (runs : List Run) : writeRuns address runs = write address (Run.expand runs) := by
  funext s
  by_cases h : s.memory.InRange address (Run.total runs)
  · unfold writeRuns
    rw [Op.get_bind_apply, if_pos h]
  · have hlt : s.memory.size < address + (Run.expand runs).length := by
      rw [← Run.total_eq]
      exact Nat.not_le.1 h
    unfold writeRuns
    rw [Op.get_bind_apply, if_neg h, write_of_lt hlt, Run.total_eq]
    rfl

/-- **Contents given as runs** are added as their bytes are. -/
theorem FileSystem.addRuns_eq (path : String) (runs : List Run) :
    addRuns path runs = addFile path (Run.expand runs) := by
  unfold addRuns addFile
  rw [Run.total_eq]
  simp only [FileStore.writeRuns_eq]

end ToolchainHost
