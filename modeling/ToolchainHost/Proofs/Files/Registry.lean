import ToolchainHost.Proofs.Files.System

/-!
# The host's registry

The host keeps a list of the nodes it added beside the store's own. `InStep` says that the two agree, which is what
makes the answers of the host's calls those of one map from normal paths to entries.

* `Catalog`: such a map, with what adding and reading do to it.
* `FileSystem.InStep.addFile`, `addDirectory`, `contents`: each call answers as the catalog does.
-/

namespace ToolchainHost

open Path (normalize)
open FileSystem (pathLength tooLong)

/-! ### Catalogs -/

/-- What each normal path names. -/
abbrev Catalog := String → Option Entry

namespace Catalog

/-- A path in the catalog whose spelling is too long is refused, unless it names a directory. -/
def addDirectory (c : Catalog) (path : String) : Except Failure Catalog :=
  if c (normalize path) = some .directory then .ok c
  else if Interface.pathLimit < pathLength path then .error (tooLong path)
  else if (c (normalize path)).isSome then .error (.pathConflict (normalize path) .file)
  else .ok (Function.update c (normalize path) (some .directory))

/-- A file is added or replaced; a directory stays. -/
def addFile (c : Catalog) (path : String) (contents : List UInt8) : Except Failure Catalog :=
  if c (normalize path) = some .directory then .error (.pathConflict (normalize path) .directory)
  else if Interface.pathLimit < pathLength path then .error (tooLong path)
  else .ok (Function.update c (normalize path) (some (.file contents)))

/-- The contents of a file. -/
def contents (c : Catalog) (path : String) : Except Failure (List UInt8) :=
  if c (normalize path) = some .directory then .error (.notFound (normalize path))
  else if Interface.pathLimit < pathLength path then .error (tooLong path)
  else match c (normalize path) with
    | some (.file bytes) => .ok bytes
    | _ => .error (.notFound (normalize path))

/-- Whether a path names anything. -/
def exists? (c : Catalog) (path : String) : Except Failure Bool :=
  if (c (normalize path)).isSome then .ok true
  else if Interface.pathLimit < pathLength path then .error (tooLong path)
  else .ok false

/-- How adding a file to a catalog ends on a machine with a heap that can be full and with lengths of 32 bits. -/
inductive AddsFile (c : Catalog) (path : String) (contents : List UInt8) : Except Failure Unit → Catalog → Prop
  | added {c' : Catalog} (hc : contents.length < Word.count) (h : c.addFile path contents = .ok c') :
      AddsFile c path contents (.ok ()) c'
  | refused {e : Failure} (h : c.addFile path contents = .error e) : AddsFile c path contents (.error e) c
  | full {c' : Catalog} (reason : String) (h : c.addFile path contents = .ok c') :
      AddsFile c path contents (.error (.aborted reason)) c
  | cut {c' : Catalog} {bytes : List UInt8} (address size : Nat) (hc : Word.count ≤ contents.length)
      (hb : bytes.length = contents.length % Word.count) (h : c.addFile path bytes = .ok c') :
      AddsFile c path contents (.error (.outOfBounds address contents.length size)) c'

/-- How adding a directory to a catalog ends. -/
inductive AddsDirectory (c : Catalog) (path : String) : Except Failure Unit → Catalog → Prop
  | added {c' : Catalog} (h : c.addDirectory path = .ok c') : AddsDirectory c path (.ok ()) c'
  | refused {e : Failure} (h : c.addDirectory path = .error e) : AddsDirectory c path (.error e) c

end Catalog

namespace FileSystem

variable {fs fs' : FileSystem} {path q : String} {data : List UInt8} {k : NodeKind}

/-! ### The registered nodes -/

lemma mem_insertSorted {x : String × NodeKind} {l : List (String × NodeKind)}
    (h : x ∈ insertSorted path k l) : x = (path, k) ∨ x ∈ l := by
  induction l with
  | nil => exact Or.inl (List.mem_singleton.1 h)
  | cons a l ih =>
    rw [insertSorted] at h
    split_ifs at h
    · simpa using h
    · rcases List.mem_cons.1 h with h | h
      · exact Or.inl h
      · exact Or.inr (List.mem_cons_of_mem _ h)
    · rcases List.mem_cons.1 h with h | h
      · exact Or.inr (h ▸ List.mem_cons_self)
      · exact (ih h).imp_right (List.mem_cons_of_mem _)

lemma mem_insertSorted_self (path : String) (k : NodeKind) (l : List (String × NodeKind)) :
    (path, k) ∈ insertSorted path k l := by
  induction l with
  | nil => exact List.mem_singleton.2 rfl
  | cons a l ih =>
    rw [insertSorted]
    split_ifs
    · exact List.mem_cons_self
    · exact List.mem_cons_self
    · exact List.mem_cons_of_mem _ ih

lemma mem_insertSorted_of_ne {x : String × NodeKind} {l : List (String × NodeKind)} (h : x ∈ l)
    (hx : x.1 ≠ path) : x ∈ insertSorted path k l := by
  induction l with
  | nil => cases h
  | cons a l ih =>
    rw [insertSorted]
    split_ifs with h1 h2
    · exact List.mem_cons_of_mem _ h
    · rcases List.mem_cons.1 h with rfl | h
      · exact absurd h2.symm hx
      · exact List.mem_cons_of_mem _ h
    · rcases List.mem_cons.1 h with rfl | h
      · exact List.mem_cons_self
      · exact List.mem_cons_of_mem _ (ih h)

/-- **The registry agrees with the store.** What is registered is there, with the registered kind, under a path that
fits the path buffer, and every directory is registered. -/
structure InStep (fs : FileSystem) : Prop where
  store : fs.store.Sound
  known : ∀ {q k}, (q, k) ∈ fs.registered → ∃ e, fs.store.lookup q = some e ∧ e.kind = k
  short : ∀ {q k}, (q, k) ∈ fs.registered → (Utf8.encode q).length ≤ Interface.pathLimit
  directories : ∀ {q}, fs.store.lookup q = some .directory → (q, .directory) ∈ fs.registered

theorem inStep_empty : empty.InStep where
  store := FileStore.sound_empty
  known h := by cases h
  short h := by cases h
  directories h := by cases h

lemma mem_registered_of_kindOf (h : fs.kindOf path = some k) : (normalize path, k) ∈ fs.registered := by
  obtain ⟨⟨q, k'⟩, hq, rfl⟩ := Option.map_eq_some_iff.1 h
  have hb := List.find?_some hq
  obtain rfl : q = normalize path := eq_of_beq hb
  exact List.mem_of_find?_eq_some hq

namespace InStep

lemma lookup_of_kindOf (hi : fs.InStep) (h : fs.kindOf path = some k) :
    ∃ e, fs.store.lookup (normalize path) = some e ∧ e.kind = k := hi.known (mem_registered_of_kindOf h)

lemma kindOf_of_mem (hi : fs.InStep) (h : (normalize path, k) ∈ fs.registered) : fs.kindOf path = some k := by
  have hsome : (fs.kindOf path).isSome := by
    rw [kindOf, Option.isSome_map, List.find?_isSome]
    exact ⟨_, h, beq_self_eq_true _⟩
  obtain ⟨k', hk⟩ := Option.isSome_iff_exists.1 hsome
  obtain ⟨e, he, rfl⟩ := hi.known h
  obtain ⟨e', he', rfl⟩ := hi.lookup_of_kindOf hk
  rw [hk, Option.some.inj (he'.symm.trans he)]

lemma kindOf_directory (hi : fs.InStep) :
    fs.kindOf path = some .directory ↔ fs.store.lookup (normalize path) = some .directory := by
  constructor
  · intro h
    obtain ⟨e, he, hk⟩ := hi.lookup_of_kindOf h
    cases e with
    | directory => exact he
    | file bytes => cases hk
  · exact fun h => hi.kindOf_of_mem (hi.directories h)

lemma pathLength_le (hi : fs.InStep) (h : fs.kindOf path = some k) : pathLength path ≤ Interface.pathLimit :=
  hi.short (mem_registered_of_kindOf h)

lemma of_lookup (hi : fs.InStep) (hs : fs'.store.Sound) (hl : fs'.store.lookup = fs.store.lookup)
    (hr : fs'.registered = fs.registered) : fs'.InStep where
  store := hs
  known hq := by
    rw [hr] at hq
    rw [hl]
    exact hi.known hq
  short hq := hi.short (hr ▸ hq)
  directories hq := by
    rw [hl] at hq
    rw [hr]
    exact hi.directories hq

lemma of_keeps (hi : fs.InStep) (h : fs.Keeps fs') : fs'.InStep := hi.of_lookup h.sound h.lookup h.registered

/-- A file that is changed or made behind the host's back. -/
lemma of_update (hi : fs.InStep) (hs : fs'.store.Sound) (hr : fs'.registered = fs.registered)
    (hd : fs.store.lookup q ≠ some .directory) {bytes : List UInt8}
    (hl : fs'.store.lookup = Function.update fs.store.lookup q (some (.file bytes))) : fs'.InStep where
  store := hs
  known {p k} hp := by
    rw [hr] at hp
    obtain ⟨e, he, hk⟩ := hi.known hp
    rw [hl]
    by_cases hpq : p = q
    · subst hpq
      refine ⟨.file bytes, Function.update_self .., ?_⟩
      cases e with
      | directory => exact absurd he hd
      | file b => exact hk
    · exact ⟨e, by rw [Function.update_of_ne hpq, he], hk⟩
  short hp := hi.short (hr ▸ hp)
  directories {p} hp := by
    rw [hl] at hp
    rw [hr]
    by_cases hpq : p = q
    · subst hpq
      rw [Function.update_self] at hp
      cases hp
    · rw [Function.update_of_ne hpq] at hp
      exact hi.directories hp

/-- An entry that the host adds and registers. -/
lemma of_gains (hi : fs.InStep) {e : Entry} (hn : storedPath path = normalize path)
    (hg : fs.Gains path e fs') (hl : pathLength path ≤ Interface.pathLimit)
    (hk : ∀ e', fs.store.lookup (normalize path) = some e' → e'.kind = e.kind) : fs'.InStep where
  store := hg.sound
  known {p k} hp := by
    rw [hg.registered] at hp
    rw [hg.lookup, hn]
    rcases mem_insertSorted hp with hp | hp
    · obtain ⟨rfl, rfl⟩ := Prod.mk.inj hp
      exact ⟨e, Function.update_self .., rfl⟩
    · obtain ⟨e', he, rfl⟩ := hi.known hp
      by_cases hpq : p = normalize path
      · subst hpq
        exact ⟨e, Function.update_self .., (hk e' he).symm⟩
      · exact ⟨e', by rw [Function.update_of_ne hpq, he], rfl⟩
  short {p k} hp := by
    rw [hg.registered] at hp
    rcases mem_insertSorted hp with hp | hp
    · obtain ⟨rfl, rfl⟩ := Prod.mk.inj hp
      exact hl
    · exact hi.short hp
  directories {p} hp := by
    rw [hg.lookup, hn] at hp
    rw [hg.registered]
    by_cases hpq : p = normalize path
    · subst hpq
      rw [Function.update_self] at hp
      obtain rfl := Option.some.inj hp
      exact mem_insertSorted_self ..
    · rw [Function.update_of_ne hpq] at hp
      exact mem_insertSorted_of_ne (hi.directories hp) hpq

/-! ### The calls of the host -/

lemma addFile (hi : fs.InStep) (hn : '\x00' ∉ path.toList) (htop : fs.store.top + 7 < Word.count)
    {r : Except Failure Unit} (hx : Op.attempt (FileSystem.addFile path data) fs = .ok r fs') :
    fs'.InStep ∧ fs'.store.handle = fs.store.handle ∧
      Catalog.AddsFile fs.store.lookup path data r fs'.store.lookup := by
  have hst := storedPath_eq hn
  obtain ⟨r', fs'', hx', hadd⟩ := addFile_cases hi.store path data
  obtain ⟨rfl, rfl⟩ := EStateM.Result.ok.inj (hx.symm.trans hx')
  have hlookup (bytes : List UInt8) (h : fs.kindOf path ≠ some .directory)
      (hl : pathLength path ≤ Interface.pathLimit) : Catalog.addFile fs.store.lookup path bytes =
        .ok (Function.update fs.store.lookup (normalize path) (some (.file bytes))) := by
    rw [Catalog.addFile, if_neg (mt hi.kindOf_directory.2 h), if_neg (Nat.not_lt.2 hl)]
  cases hadd with
  | registered h =>
    refine ⟨hi, rfl, .refused ?_⟩
    rw [Catalog.addFile, if_pos (hi.kindOf_directory.1 h)]
  | tooLong h hl =>
    refine ⟨hi, rfl, .refused ?_⟩
    rw [Catalog.addFile, if_neg (mt hi.kindOf_directory.2 h), if_pos hl]
  | directory h hl hd =>
    rw [hst] at hd
    exact absurd (hi.kindOf_directory.2 hd) h
  | full h hl hd hr =>
    have hk := keeps_staged hi.store hl
    refine ⟨hi.of_keeps hk, hk.handle, ?_⟩
    rw [hk.lookup, FileStore.denial, if_pos htop]
    exact .full _ (hlookup data h hl)
  | cut address size h hl hd hc hs hf hh hr =>
    rw [hst] at hf hd
    refine ⟨hi.of_update hs hr hd hf, hh, ?_⟩
    rw [hf]
    exact .cut address size hc (FileStore.length_recycled ..) (hlookup _ h hl)
  | added h hl hd hc hg =>
    have hg' := hg.lookup
    rw [hst] at hd hg'
    refine ⟨hi.of_gains hst hg hl fun e he => ?_, hg.handle, ?_⟩
    · cases e with
      | directory => exact absurd he hd
      | file bytes => rfl
    · rw [hg']
      exact .added hc (hlookup data h hl)

lemma addDirectory (hi : fs.InStep) (hn : '\x00' ∉ path.toList)
    {r : Except Failure Unit} (hx : Op.attempt (FileSystem.addDirectory path) fs = .ok r fs') :
    fs'.InStep ∧ fs'.store.handle = fs.store.handle ∧
      Catalog.AddsDirectory fs.store.lookup path r fs'.store.lookup := by
  have hst := storedPath_eq hn
  obtain ⟨r', fs'', hx', hadd⟩ := addDirectory_cases hi.store path
  obtain ⟨rfl, rfl⟩ := EStateM.Result.ok.inj (hx.symm.trans hx')
  have hnot (h : fs.kindOf path = none) : fs.store.lookup (normalize path) ≠ some .directory :=
    fun hd => by rw [hi.kindOf_directory.2 hd] at h; cases h
  cases hadd with
  | kept h =>
    refine ⟨hi, rfl, .added ?_⟩
    rw [Catalog.addDirectory, if_pos (hi.kindOf_directory.1 h)]
  | registered h =>
    obtain ⟨e, he, hk⟩ := hi.lookup_of_kindOf h
    refine ⟨hi, rfl, .refused ?_⟩
    rw [Catalog.addDirectory, he, if_neg, if_neg (Nat.not_lt.2 (hi.pathLength_le h))]
    · rfl
    · rintro ⟨⟩
      cases hk
  | tooLong h hl =>
    refine ⟨hi, rfl, .refused ?_⟩
    rw [Catalog.addDirectory, if_neg (hnot h), if_pos hl]
  | file bytes h hl hf =>
    have hk := keeps_staged hi.store hl
    rw [hst] at hf ⊢
    refine ⟨hi.of_keeps hk, hk.handle, ?_⟩
    rw [hk.lookup]
    refine .refused ?_
    rw [Catalog.addDirectory, if_neg (hnot h), if_neg (Nat.not_lt.2 hl), hf]
    rfl
  | added h hl hf hg =>
    have hg' := hg.lookup
    rw [hst] at hf hg'
    have hnone : fs.store.lookup (normalize path) = none := by
      cases he : fs.store.lookup (normalize path) with
      | none => rfl
      | some e =>
        cases e with
        | directory => exact absurd he (hnot h)
        | file bytes => exact absurd he (hf bytes)
    refine ⟨hi.of_gains hst hg hl fun e he => ?_, hg.handle, ?_⟩
    · rw [hnone] at he
      cases he
    · rw [hg']
      refine .added ?_
      rw [Catalog.addDirectory, if_neg (hnot h), if_neg (Nat.not_lt.2 hl), hnone]
      rfl

lemma contents (hi : fs.InStep) (hn : '\x00' ∉ path.toList)
    {r : Except Failure (List UInt8)} (hx : Op.attempt (FileSystem.contents path) fs = .ok r fs') :
    fs.Keeps fs' ∧ r = Catalog.contents fs.store.lookup path := by
  have hst := storedPath_eq hn
  obtain ⟨r', fs'', hx', hy⟩ := contents_cases hi.store path
  obtain ⟨rfl, rfl⟩ := EStateM.Result.ok.inj (hx.symm.trans hx')
  unfold Catalog.contents
  cases hy with
  | registered h => exact ⟨.refl hi.store, by rw [if_pos (hi.kindOf_directory.1 h)]⟩
  | tooLong h hl => exact ⟨.refl hi.store, by rw [if_neg (mt hi.kindOf_directory.2 h), if_pos hl]⟩
  | absent h hl ha =>
    rw [hst] at ha
    exact ⟨keeps_staged hi.store hl, by rw [if_neg (mt hi.kindOf_directory.2 h), if_neg (Nat.not_lt.2 hl), ha]⟩
  | directory number h hl hd =>
    rw [hst] at hd
    exact absurd (hi.kindOf_directory.2 hd) h
  | file bytes h hl hf =>
    rw [hst] at hf
    exact ⟨keeps_staged hi.store hl, by rw [if_neg (mt hi.kindOf_directory.2 h), if_neg (Nat.not_lt.2 hl), hf]⟩

/-- Asking for a node answers as the catalog does where the store holds nothing but what is registered. -/
lemma fileExists (hi : fs.InStep) (hn : '\x00' ∉ path.toList)
    (hc : fs.kindOf path = none → fs.store.lookup (normalize path) = none)
    {r : Except Failure Bool} (hx : Op.attempt (FileSystem.fileExists path) fs = .ok r fs') :
    fs.Keeps fs' ∧ r = Catalog.exists? fs.store.lookup path := by
  have hst := storedPath_eq hn
  obtain ⟨r', fs'', hx', hy⟩ := fileExists_cases hi.store path
  obtain ⟨rfl, rfl⟩ := EStateM.Result.ok.inj (hx.symm.trans hx')
  unfold Catalog.exists?
  cases hy with
  | registered h =>
    obtain ⟨k, hk⟩ := Option.isSome_iff_exists.1 h
    obtain ⟨e, he, -⟩ := hi.lookup_of_kindOf hk
    exact ⟨.refl hi.store, by rw [he]; rfl⟩
  | tooLong h hl => exact ⟨.refl hi.store, by rw [hc h, if_neg (by simp), if_pos hl]⟩
  | asked h hl =>
    rw [hst, hc h]
    exact ⟨keeps_staged hi.store hl, by rw [if_neg (by simp), if_neg (Nat.not_lt.2 hl)]; rfl⟩

end InStep

end FileSystem

end ToolchainHost
