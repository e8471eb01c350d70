import ToolchainHost.Proofs.Host.Names

/-!
# The spellings of a path

A path may be spelled with `./` before it and with slashes behind it, as often as one likes. Normalizing takes both
away, and what is left has neither: so it may be done again and by whom one likes.

* `Path.spelling`: a path with `./` before it and slashes behind it.
* `Path.exists_spelling`: every path is a spelling of its normal form.
* `Path.IsName`, `Path.normalizeChars_spelling`: the names that are found again in all of their spellings.
* `HandedPath.Spells`: such a name as the host or a guest hands it over.
* `normalization_projects`: normalizing is a projection, the store agrees with the host, and spellings of one name
  lead to one node.
-/

namespace ToolchainHost

open FileSystem (pathLength stage storedPath tooLong)

namespace Path

variable {cs name : List Char} {path : String} {i j : Nat}

/-- The characters of a path with `./` before it and slashes behind it. -/
def spelling (i : Nat) (name : List Char) (j : Nat) : List Char :=
  (List.replicate i ['.', '/']).flatten ++ name ++ List.replicate j '/'

/-! ### What is taken away -/

lemma dropEndWhile_eq (p : Char → Bool) (cs : List Char) : Text.dropEndWhile p cs = cs.rdropWhile p := rfl

lemma dropDotSlashes_dots (i : Nat) (cs : List Char) :
    dropDotSlashes ((List.replicate i ['.', '/']).flatten ++ cs) = dropDotSlashes cs := by
  induction i with
  | zero => rfl
  | succ i ih =>
    rw [List.replicate_succ, List.flatten_cons, List.append_assoc]
    exact ih

lemma exists_dots (cs : List Char) : ∃ i, cs = (List.replicate i ['.', '/']).flatten ++ dropDotSlashes cs := by
  fun_induction dropDotSlashes cs with
  | case1 cs ih =>
    obtain ⟨i, hi⟩ := ih
    refine ⟨i + 1, ?_⟩
    rw [List.replicate_succ, List.flatten_cons, List.append_assoc, ← hi]
    rfl
  | case2 cs h => exact ⟨0, rfl⟩

lemma rdropWhile_slashes (cs : List Char) (j : Nat) :
    (cs ++ List.replicate j '/').rdropWhile (· == '/') = cs.rdropWhile (· == '/') := by
  induction j with
  | zero => rw [List.replicate_zero, List.append_nil]
  | succ j ih => rw [List.replicate_succ', ← List.append_assoc, List.rdropWhile_concat_pos _ _ _ rfl, ih]

lemma exists_slashes (cs : List Char) : ∃ j, cs = cs.rdropWhile (· == '/') ++ List.replicate j '/' := by
  induction cs using List.reverseRecOn with
  | nil => exact ⟨0, rfl⟩
  | append_singleton cs c ih =>
    by_cases hc : c = '/'
    · subst hc
      obtain ⟨j, hj⟩ := ih
      refine ⟨j + 1, ?_⟩
      rw [List.rdropWhile_concat_pos _ _ _ rfl, List.replicate_succ', ← List.append_assoc, ← hj]
    · refine ⟨0, ?_⟩
      rw [List.rdropWhile_concat_neg _ _ _ (by simpa using hc), List.replicate_zero, List.append_nil]

/-- **Every path is a spelling of its normal form.** -/
theorem exists_spelling (cs : List Char) : ∃ i j, cs = spelling i (normalizeChars cs) j := by
  obtain ⟨i, hi⟩ := exists_dots cs
  obtain ⟨j, hj⟩ := exists_slashes (dropDotSlashes cs)
  rw [normalizeChars_eq, dropEndWhile_eq]
  split_ifs with h
  · -- only slashes are left, and the normal form is one of them
    obtain ⟨hnil, hne⟩ := h
    rw [hnil, List.nil_append] at hj
    obtain ⟨k, rfl⟩ : ∃ k, j = k + 1 := Nat.exists_eq_succ_of_ne_zero fun h0 => hne (by rw [hj, h0]; rfl)
    refine ⟨i, k, ?_⟩
    rw [spelling, List.append_assoc, List.singleton_append, ← List.replicate_succ, ← hj, ← hi]
  · exact ⟨i, j, by rw [spelling, List.append_assoc, ← hj, ← hi]⟩

/-! ### What is left -/

lemma not_dotSlash_prefix_normalizeChars (cs : List Char) : ¬ ['.', '/'] <+: normalizeChars cs := by
  rw [normalizeChars_eq]
  split_ifs
  · decide
  · exact fun hp => not_prefix_dropDotSlashes cs (hp.trans (dropEndWhile_isPrefix _ _))

lemma eq_slash_of_suffix (h : ['/'] <:+ normalizeChars cs) : normalizeChars cs = ['/'] := by
  rw [normalizeChars_eq, dropEndWhile_eq] at h ⊢
  split_ifs at h ⊢ with hroot
  · rfl
  · obtain ⟨rest, hrest⟩ := h
    have hlast := List.rdropWhile_last_not (· == '/') (dropDotSlashes cs) (by simp [← hrest])
    simp [← hrest] at hlast

lemma normalizeChars_dots (i : Nat) (cs : List Char) :
    normalizeChars ((List.replicate i ['.', '/']).flatten ++ cs) = normalizeChars cs := by
  rw [normalizeChars_eq, normalizeChars_eq, dropDotSlashes_dots]

/-- The normal form is a slash iff nothing but slashes is left behind the leading `./`. -/
lemma normalizeChars_eq_slash : normalizeChars cs = ['/'] ↔ ∃ i j, cs = spelling i [] (j + 1) := by
  constructor
  · intro h
    obtain ⟨i, j, hcs⟩ := exists_spelling cs
    refine ⟨i, j, hcs.trans ?_⟩
    rw [h, spelling, spelling, List.append_nil, List.append_assoc, List.singleton_append, List.replicate_succ]
  · rintro ⟨i, j, rfl⟩
    have hslashes : (List.replicate (j + 1) '/').rdropWhile (· == '/') = [] := rdropWhile_slashes [] (j + 1)
    rw [spelling, List.append_nil, normalizeChars_dots, normalizeChars_eq,
      dropDotSlashes_of_not (by simp [List.replicate_succ]), dropEndWhile_eq, hslashes]
    exact if_pos ⟨rfl, by simp⟩

/-! ### Names -/

/-- A name that its spellings leave alone: there is more of it than a dot, it begins with no `./` and ends in no
slash. -/
structure IsName (name : List Char) : Prop where
  ne_nil : name ≠ []
  ne_dot : name ≠ ['.']
  not_prefix : ¬ ['.', '/'] <+: name
  not_suffix : ¬ ['/'] <:+ name

/-- Slashes behind a name complete no `./`. -/
lemma IsName.dropDotSlashes_append (h : IsName name) (j : Nat) :
    dropDotSlashes (name ++ List.replicate j '/') = name ++ List.replicate j '/' := by
  refine dropDotSlashes_of_not fun hp => ?_
  rcases name with _ | ⟨c, _ | ⟨d, rest⟩⟩
  · exact h.ne_nil rfl
  · have hc := (List.cons_prefix_cons.1 hp).1
    exact h.ne_dot (by rw [← hc])
  · obtain ⟨rfl, hrest⟩ := List.cons_prefix_cons.1 hp
    obtain ⟨rfl, -⟩ := List.cons_prefix_cons.1 hrest
    exact h.not_prefix ⟨rest, rfl⟩

lemma IsName.rdropWhile_eq (h : IsName name) : name.rdropWhile (· == '/') = name := by
  refine List.rdropWhile_eq_self_iff.2 fun hne hlast => h.not_suffix ?_
  obtain hlast := eq_of_beq hlast
  exact ⟨name.dropLast, by rw [← hlast, List.dropLast_append_getLast hne]⟩

/-- **A name is the normal form of all of its spellings.** -/
theorem normalizeChars_spelling (h : IsName name) (i j : Nat) : normalizeChars (spelling i name j) = name := by
  rw [spelling, List.append_assoc, normalizeChars_dots, normalizeChars_eq, h.dropDotSlashes_append, dropEndWhile_eq,
    rdropWhile_slashes, h.rdropWhile_eq]
  exact if_neg fun hroot => h.ne_nil hroot.1

end Path

open ToolchainHost.Path (IsName spelling)

/-! ### What is read from the path buffer -/

lemma Text.takeWhile_bne_append {α : Type} [DecidableEq α] {a : List α} {stop : α} (h : stop ∉ a) (b : List α) :
    (a ++ stop :: b).takeWhile (· != stop) = a := by
  rw [List.takeWhile_append_of_pos, List.takeWhile_cons_of_neg (by simp), List.append_nil]
  intro x hx
  have hne : x ≠ stop := fun e => h (e ▸ hx)
  simp [hne]

/-- Of a text that is encoded, the characters before its first NUL are read. -/
lemma Utf8.textOf_encode_eq (s : String) :
    Memory.textOf (encode s) = String.ofList (s.toList.takeWhile (· != '\x00')) := by
  by_cases hnul : '\x00' ∈ s.toList
  · obtain ⟨a, b, hs, ha⟩ := List.eq_append_cons_of_mem hnul
    have hzero : 0 ∉ encode (String.ofList a) := zero_notMem_encode (by rwa [String.toList_ofList])
    have hbytes : encode s = encode (String.ofList a) ++ 0 :: b.flatMap String.utf8EncodeChar := by
      rw [encode, encode, hs, String.toList_ofList, List.flatMap_append, List.flatMap_cons]
      rfl
    rw [Memory.textOf, hbytes, Text.takeWhile_bne_append hzero, decode_encode, hs, Text.takeWhile_bne_append ha]
  · rw [textOf_encode hnul, List.takeWhile_eq_self_iff.2, String.ofList_toList]
    exact fun c hc => bne_iff_ne.2 fun e => hnul (e ▸ hc)

lemma nodePath_encode (cs : List Char) :
    nodePath (Utf8.encode (String.ofList cs)) =
      String.ofList (Path.normalizeChars (cs.takeWhile (· != '\x00'))) := by
  rw [nodePath, Utf8.textOf_encode_eq, Path.normalize, String.toList_ofList, String.toList_ofList]

namespace HandedPath

variable {name : List Char} {p q : HandedPath}

/-- A spelling of a name that the host or a guest hands over. -/
inductive Spells (name : List Char) : HandedPath → Prop
  | host (i j : Nat) : Spells name (.host (String.ofList (spelling i name j)))
  | guest (i j : Nat) : Spells name (.guest (Utf8.encode (String.ofList (spelling i name j))))

/-- A name is found in what is read of each of its spellings, also if there is a NUL in it. -/
lemma nodePath_spelling (hn : IsName name) (i j : Nat) :
    nodePath (Utf8.encode (String.ofList (spelling i name j))) = nodePath (Utf8.encode (String.ofList name)) := by
  have hdots : ∀ c ∈ (List.replicate i ['.', '/']).flatten, (c != '\x00') = true := by
    intro c hc
    obtain ⟨dots, hdots, hc⟩ := List.mem_flatten.1 hc
    rw [List.eq_of_mem_replicate hdots] at hc
    rcases List.mem_pair.1 hc with rfl | rfl
    · rfl
    · rfl
  rw [nodePath_encode, nodePath_encode]
  by_cases hnul : '\x00' ∈ name
  · -- neither the slashes nor the rest of the name are read
    obtain ⟨a, b, rfl, ha⟩ := List.eq_append_cons_of_mem hnul
    rw [spelling, List.append_assoc, List.takeWhile_append_of_pos hdots, List.append_assoc, List.cons_append,
      Text.takeWhile_bne_append ha, Text.takeWhile_bne_append ha, Path.normalizeChars_dots]
  · have hname : ∀ c ∈ name, (c != '\x00') = true := fun c hc => bne_iff_ne.2 fun e => hnul (e ▸ hc)
    have hslashes : ∀ c ∈ List.replicate j '/', (c != '\x00') = true := fun c hc => by
      rw [List.eq_of_mem_replicate hc]
      rfl
    have hall : ∀ c ∈ spelling i name j, (c != '\x00') = true := by
      rw [spelling]
      exact List.forall_mem_append.2 ⟨List.forall_mem_append.2 ⟨hdots, hname⟩, hslashes⟩
    have hself : Path.normalizeChars name = name := by
      simpa [spelling] using Path.normalizeChars_spelling hn 0 0
    rw [List.takeWhile_eq_self_iff.2 hall, List.takeWhile_eq_self_iff.2 hname, Path.normalizeChars_spelling hn, hself]

/-- All spellings of a name have one key. -/
theorem Spells.key_eq (hn : IsName name) (h : p.Spells name) :
    p.key = nodePath (Utf8.encode (String.ofList name)) := by
  cases h with
  | host i j =>
    rw [key_host, storedPath, Path.normalize, String.toList_ofList, Path.normalizeChars_spelling hn]
  | guest i j => exact nodePath_spelling hn i j

end HandedPath

/-- **Normalizing a path is a projection.** What it gives begins with no `./`, ends in no slash unless it is one, and is
a part of the path; it is a slash iff nothing but slashes is left behind the leading `./`. The host puts it into the
path buffer, and the store, which normalizes what it finds there once more, has the same path. Whatever is spelled in
front of a name and behind it, and whoever hands it over, leads to one node. -/
theorem normalization_projects :
    (∀ path : String, Path.normalize (Path.normalize path) = Path.normalize path ∧
      ¬ ['.', '/'] <+: (Path.normalize path).toList ∧
      (['/'] <:+ (Path.normalize path).toList → Path.normalize path = "/") ∧
      (Path.normalize path).toList <:+: path.toList ∧
      (Path.normalize path = "/" ↔ ∃ i j, path.toList = spelling i [] (j + 1))) ∧
    (∀ (fs : FileSystem) (path : String), fs.store.Sound → '\x00' ∉ path.toList →
      (pathLength path ≤ Interface.pathLimit ∧ ∃ fs', stage (Path.normalize path) fs = .ok (pathLength path) fs' ∧
        fs'.store.stagedPath (pathLength path) = .ok (Path.normalize path)) ∨
      (Interface.pathLimit < pathLength path ∧ stage (Path.normalize path) fs = .error (tooLong path) fs)) ∧
    ∀ name : List Char, IsName name →
      (∀ i j, Path.normalize (String.ofList (spelling i name j)) = String.ofList name) ∧
      ∀ p q : HandedPath, p.Spells name → q.Spells name → p.key = q.key ∧
        ∀ s : FileStore, s.Sound → p.Fits → q.Fits → ∀ index, s.Reaches p index ↔ s.Reaches q index := by
  refine ⟨fun path => ⟨Path.normalize_normalize path, ?_⟩, fun fs path hs hnul => ?_, fun name hn => ⟨?_, ?_⟩⟩
  · have hroot : Path.normalize path = "/" ↔ Path.normalizeChars path.toList = ['/'] := by
      rw [← String.ofList_inj]
      rfl
    rw [hroot, Path.normalize, String.toList_ofList]
    refine ⟨Path.not_dotSlash_prefix_normalizeChars _, Path.eq_slash_of_suffix, ?_, Path.normalizeChars_eq_slash⟩
    obtain ⟨i, j, hpath⟩ := Path.exists_spelling path.toList
    exact ⟨_, _, hpath.symm⟩
  · rcases Nat.lt_or_ge Interface.pathLimit (pathLength path) with hlong | hfits
    · exact Or.inr ⟨hlong, FileSystem.stage_of_lt hlong⟩
    · refine Or.inl ⟨hfits, _, FileSystem.stage_of_le hs hfits, ?_⟩
      rw [FileSystem.stagedPath_staged hs hfits, FileSystem.storedPath_eq hnul]
  · intro i j
    rw [Path.normalize, String.toList_ofList, Path.normalizeChars_spelling hn]
  · intro p q hp hq
    have hkey : p.key = q.key := (hp.key_eq hn).trans (hq.key_eq hn).symm
    refine ⟨hkey, fun s hs hpfits hqfits index => ?_⟩
    rw [hs.reaches_iff, hs.reaches_iff, hkey, and_iff_right hpfits, and_iff_right hqfits]

/-- A path that is put into the path buffer, and a name as the host and a guest spell it. -/
theorem normalization_projects_spelled :
    (∃ fs', stage (Path.normalize "./a/") .empty = .ok 1 fs' ∧ fs'.store.stagedPath 1 = .ok (Path.normalize "./a/")) ∧
      ∀ s : FileStore, s.Sound → ∀ index,
        s.Reaches (.host (String.ofList (spelling 2 ['a'] 0))) index ↔
          s.Reaches (.guest (Utf8.encode (String.ofList (spelling 0 ['a'] 3)))) index := by
  have hname : IsName ['a'] := ⟨by decide, by decide, by decide, by decide⟩
  have hspelled := (normalization_projects.2.2 ['a'] hname).2 _ _ (.host 2 0) (.guest 0 3)
  refine ⟨?_, fun s hs => hspelled.2 s hs (by unfold HandedPath.Fits; decide) (by unfold HandedPath.Fits; decide)⟩
  rcases normalization_projects.2.1 .empty "./a/" FileStore.sound_empty (by decide) with ⟨-, h⟩ | ⟨hlong, -⟩
  · exact h
  · exact absurd hlong (by decide)

end ToolchainHost
