import Mathlib.Data.List.DropRight
import Mathlib.Tactic.Common
import ToolchainHost.Path

/-!
# Artifacts and their sources

An artifact is named after its source: what follows the last dot is replaced. The dot is looked for in the whole path,
although an extension belongs to the base name.

* `Path.stem`: a source without what is replaced.
* `Path.directory`: a path without its base name.
* `Path.Strays`: the dot that is found is not that of an extension.
* `artifacts_beside_iff`: the artifacts of a source lie next to it exactly if it does not stray.
-/

namespace ToolchainHost

namespace Text

variable {c : Char} {cs a b : List Char}

lemma splitLast_of_notMem (h : c ∉ cs) : splitLast c cs = none := if_neg h

/-- The cut is at the last `c`. -/
lemma splitLast_append (h : c ∉ b) (a : List Char) : splitLast c (a ++ c :: b) = some (a, b) := by
  have hafter : (a ++ c :: b).reverse.takeWhile (· != c) = b.reverse := by
    rw [List.reverse_append, List.reverse_cons, List.append_assoc, List.takeWhile_append_of_pos]
    · simp
    · intro d hd
      have hne : d ≠ c := fun he => h (he ▸ List.mem_reverse.1 hd)
      simp [hne]
  rw [splitLast, if_pos (by simp)]
  dsimp only
  rw [hafter, List.reverse_reverse, List.length_append, List.length_cons]
  have hlen : a.length + (b.length + 1) - b.length - 1 = a.length := by omega
  rw [hlen, List.take_left]

/-- A list with a `c` has a last one. -/
lemma exists_last (h : c ∈ cs) : ∃ a b, cs = a ++ c :: b ∧ c ∉ b := by
  obtain ⟨a, b, hcs, ha⟩ := List.eq_append_cons_of_mem (List.mem_reverse.2 h)
  refine ⟨b.reverse, a.reverse, ?_, fun hc => ha (List.mem_reverse.1 hc)⟩
  rw [← List.reverse_reverse cs, hcs]
  simp

end Text

namespace Path

variable {source path name x : String} {cs : List Char}

/-! ### Stems -/

/-- The characters of a source without its last extension. -/
def stem (source : String) : List Char :=
  match Text.splitLast '.' source.toList with
  | some (stem, _) => if stem = [] then source.toList else stem
  | none => source.toList

/-- An artifact is the stem with another extension. -/
lemma withExtension_eq (source x : String) :
    withExtension source x = String.ofList (stem source ++ '.' :: x.toList) := by
  have happend (s : String) : s ++ "." ++ x = String.ofList (s.toList ++ '.' :: x.toList) := by
    rw [← List.singleton_append, String.ofList_append, String.ofList_append, String.ofList_toList,
      String.ofList_toList, String.append_assoc]
  unfold withExtension stem
  cases Text.splitLast '.' source.toList with
  | none => exact happend source
  | some parts =>
    dsimp only
    split_ifs
    · exact happend source
    · rw [happend, String.toList_ofList]

lemma stem_of_cut {a b : List Char} (h : source.toList = a ++ '.' :: b) (ha : a ≠ []) (hb : '.' ∉ b) :
    stem source = a := by
  rw [stem, h, Text.splitLast_append hb]
  exact if_neg ha

/-- Nothing is cut off where the only dot comes first. -/
lemma stem_of_notMem_tail (h : '.' ∉ source.toList.tail) : stem source = source.toList := by
  unfold stem
  by_cases hm : '.' ∈ source.toList
  · obtain ⟨a, b, hcs, hb⟩ := Text.exists_last hm
    obtain rfl : a = [] := by
      rcases a with _ | ⟨d, a⟩
      · rfl
      · rw [hcs] at h
        simp at h
    rw [hcs, Text.splitLast_append hb]
    exact if_pos rfl
  · rw [Text.splitLast_of_notMem hm]

/-- A dot behind the first character has a name in front of it. -/
lemma exists_cut (h : '.' ∈ source.toList.tail) :
    ∃ a b, source.toList = a ++ '.' :: b ∧ a ≠ [] ∧ '.' ∉ b := by
  obtain ⟨a, b, hcs, hb⟩ := Text.exists_last (List.mem_of_mem_tail h)
  refine ⟨a, b, hcs, ?_, hb⟩
  rintro rfl
  rw [hcs] at h
  exact hb h

lemma stem_isPrefix (source : String) : stem source <+: source.toList := by
  by_cases h : '.' ∈ source.toList.tail
  · obtain ⟨a, b, hcs, ha, hdot⟩ := exists_cut h
    rw [stem_of_cut hcs ha hdot]
    exact ⟨_, hcs.symm⟩
  · exact ⟨[], by rw [stem_of_notMem_tail h, List.append_nil]⟩

/-! ### Directories -/

/-- What stands before the base name, the last slash included. -/
def directory (path : String) : String := String.ofList (path.toList.rdropWhile (· != '/'))

lemma toList_directory (path : String) : (directory path).toList = path.toList.rdropWhile (· != '/') :=
  String.toList_ofList

lemma toList_baseName (path : String) : (baseName path).toList = path.toList.rtakeWhile (· != '/') :=
  String.toList_ofList

lemma slash_notMem_baseName (path : String) : '/' ∉ (baseName path).toList := by
  rw [toList_baseName]
  intro h
  have := List.mem_rtakeWhile_imp h
  simp at this

lemma directory_append_baseName (path : String) : directory path ++ baseName path = path := by
  have h : path.toList.rdropWhile (· != '/') ++ path.toList.rtakeWhile (· != '/') = path.toList := by
    rw [List.rdropWhile, List.rtakeWhile, ← List.reverse_append, List.takeWhile_append_dropWhile, List.reverse_reverse]
  exact String.toList_injective (by rw [String.toList_append, toList_directory, toList_baseName, h])

/-- The directory stays where the base name is replaced. -/
lemma directory_append (h : '/' ∉ name.toList) (path : String) :
    directory (directory path ++ name) = directory path := by
  refine String.toList_injective ?_
  rw [toList_directory, String.toList_append, toList_directory, List.rdropWhile, List.rdropWhile, List.reverse_append,
    List.reverse_reverse, List.dropWhile_append_of_pos, List.dropWhile_idempotent]
  intro d hd
  have hne : d ≠ '/' := fun he => h (he ▸ List.mem_reverse.1 hd)
  simp [hne]

lemma slash_notMem_withExtension (hx : '/' ∉ x.toList) : '/' ∉ (withExtension (baseName source) x).toList := by
  rw [withExtension_eq, String.toList_ofList, List.mem_append, List.mem_cons, not_or, not_or]
  exact ⟨fun h => slash_notMem_baseName source ((stem_isPrefix _).subset h), by decide, hx⟩

/-! ### The dot of a path -/

/-- The dot at which the path is cut is not that of an extension: the path has one behind its first character, its base
name has none there. -/
def Strays (path : String) : Prop := '.' ∈ path.toList.tail ∧ '.' ∉ (baseName path).toList.tail

instance : DecidablePred Strays := fun _ => inferInstanceAs (Decidable (_ ∧ _))

lemma toList_eq (path : String) : path.toList = (directory path).toList ++ (baseName path).toList := by
  rw [← String.toList_append, directory_append_baseName]

/-- The cut is in the base name, or nowhere. -/
lemma stem_of_not_strays (h : ¬ Strays source) :
    stem source = (directory source).toList ++ stem (baseName source) := by
  by_cases hb : '.' ∈ (baseName source).toList.tail
  · obtain ⟨a, b, hcs, ha, hdot⟩ := exists_cut hb
    rw [stem_of_cut hcs ha hdot]
    refine stem_of_cut (b := b) ?_ (List.append_ne_nil_of_right_ne_nil _ ha) hdot
    rw [toList_eq source, hcs, List.append_assoc]
  · have hs : '.' ∉ source.toList.tail := fun hs => h ⟨hs, hb⟩
    rw [stem_of_notMem_tail hb, stem_of_notMem_tail hs, ← toList_eq]

/-- A path that strays loses a part of its directory, or its base name. -/
lemma length_stem_of_strays (h : Strays source) : (stem source).length < source.toList.length := by
  obtain ⟨a, b, hcs, ha, hdot⟩ := exists_cut h.1
  rw [stem_of_cut hcs ha hdot, hcs, List.length_append, List.length_cons]
  omega

/-- **Where an artifact lies.** -/
theorem withExtension_iff (source x : String) :
    withExtension source x = directory source ++ withExtension (baseName source) x ↔ ¬ Strays source := by
  have hright : directory source ++ withExtension (baseName source) x =
      String.ofList ((directory source).toList ++ stem (baseName source) ++ '.' :: x.toList) := by
    rw [withExtension_eq, List.append_assoc, @String.ofList_append (directory source).toList, String.ofList_toList]
  rw [hright, withExtension_eq, String.ofList_inj, List.append_left_inj]
  refine ⟨fun heq hs => ?_, stem_of_not_strays⟩
  have hlen := length_stem_of_strays hs
  rw [heq, stem_of_notMem_tail hs.2, ← toList_eq] at hlen
  exact Nat.lt_irrefl _ hlen

/-! ### Sources that meet -/

/-- The stem of a source as a directory with an extension, and a file in it. -/
def detour (source : String) (c : Char) : String := String.ofList (stem source ++ ['.', c, '/', 'f'])

lemma directory_detour (source : String) (c : Char) :
    directory (detour source c) = String.ofList (stem source ++ ['.', c, '/']) := by
  refine String.toList_injective ?_
  rw [toList_directory, detour, String.toList_ofList, String.toList_ofList, List.rdropWhile]
  simp

lemma withExtension_detour (h : stem source ≠ []) {c : Char} (hc : c ≠ '.') (x : String) :
    withExtension (detour source c) x = withExtension source x := by
  have hdot : '.' ∉ [c, '/', 'f'] := by simpa using hc.symm
  have hstem : stem (detour source c) = stem source := stem_of_cut String.toList_ofList h hdot
  rw [withExtension_eq, withExtension_eq, hstem]

/-- A source that strays meets one of another directory. -/
theorem exists_withExtension_eq (h : Strays source) (x : String) :
    ∃ other, directory other ≠ directory source ∧ withExtension other x = withExtension source x := by
  have hne : stem source ≠ [] := by
    obtain ⟨a, b, hcs, ha, hdot⟩ := exists_cut h.1
    rwa [stem_of_cut hcs ha hdot]
  have hapart : directory (detour source 'd') ≠ directory (detour source 'e') := by
    rw [directory_detour, directory_detour, Ne, String.ofList_inj, List.append_right_inj]
    decide
  by_cases hd : directory (detour source 'd') = directory source
  · exact ⟨_, fun he => hapart (hd.trans he.symm), withExtension_detour hne (by decide) x⟩
  · exact ⟨_, hd, withExtension_detour hne (by decide) x⟩

/-! ### The extension of a base name -/

lemma splitLast_baseName (path : String) :
    Text.splitLast '.' (baseNameChars path.toList) = Text.splitLast '.' (baseName path).toList := by
  rw [baseName, String.toList_ofList]

/-- Without an extension the base name is kept. -/
lemma withExtension_baseName_of_none (h : extension? source = none) (x : String) :
    withExtension (baseName source) x = baseName source ++ "." ++ x := by
  rw [extension?, Option.map_eq_none_iff, splitLast_baseName] at h
  rw [withExtension, h]

/-- An extension is replaced where a name stands in front of it. -/
lemma withExtension_baseName_of_some {old : String} (h : extension? source = some old) (x : String) :
    ∃ name, baseName source = name ++ "." ++ old ∧
      withExtension (baseName source) x = (if name = "" then baseName source else name) ++ "." ++ x := by
  rw [extension?, Option.map_eq_some_iff, splitLast_baseName] at h
  obtain ⟨⟨name, ext⟩, hcut, rfl⟩ := h
  have hmem : '.' ∈ (baseName source).toList := by
    by_contra hn
    rw [Text.splitLast_of_notMem hn] at hcut
    cases hcut
  obtain ⟨a, b, hcs, hb⟩ := Text.exists_last hmem
  obtain ⟨rfl, rfl⟩ : a = name ∧ b = ext := by
    rw [hcs, Text.splitLast_append hb] at hcut
    simpa using hcut
  refine ⟨String.ofList a, String.toList_injective ?_, ?_⟩
  · rw [hcs]
    simp
  · rw [withExtension, hcut]
    dsimp only
    by_cases ha : a = []
    · rw [if_pos ha, if_pos (by rw [ha])]
    · rw [if_neg ha, if_neg fun he => ha (by rw [← String.toList_ofList (l := a), he, String.toList_empty])]

end Path

/-! ### Artifacts -/

open Path (withExtension Strays directory baseName extension?)

/-- **Artifacts lie next to their sources exactly if these do not stray.** The artifact of a source is the one of its
base name in its directory iff the path has no dot behind its first character, or its base name has one there. In the
base name the extension is replaced; a base name without an extension, or with nothing in front of it, is kept. Sources
that do not stray and are in different directories share no artifact, and one that strays shares its artifact with a
source in another directory. -/
theorem artifacts_beside_iff (make : String → String) (ending : String)
    (hm : (make, ending) ∈ [(Path.object, ".o"), (Path.binary, ".wasm")]) :
    (∀ source, make source = directory source ++ make (baseName source) ↔ ¬ Strays source) ∧
    (∀ source, extension? source = none → make (baseName source) = baseName source ++ ending) ∧
    (∀ source old, extension? source = some old → ∃ name, baseName source = name ++ "." ++ old ∧
      make (baseName source) = (if name = "" then baseName source else name) ++ ending) ∧
    (∀ source, ¬ Strays source → directory (make source) = directory source) ∧
    (∀ a b, ¬ Strays a → ¬ Strays b → directory a ≠ directory b → make a ≠ make b) ∧
    ∀ a, Strays a → ∃ b, directory b ≠ directory a ∧ make b = make a := by
  obtain ⟨x, hx, hmake, hending⟩ : ∃ x : String, '/' ∉ x.toList ∧ (∀ p, make p = withExtension p x) ∧
      ∀ s : String, s ++ "." ++ x = s ++ ending := by
    simp only [List.mem_cons, Prod.mk.injEq, List.not_mem_nil, or_false] at hm
    obtain ⟨rfl, rfl⟩ | ⟨rfl, rfl⟩ := hm
    · exact ⟨"o", by decide, fun _ => rfl, fun _ => String.append_assoc ..⟩
    · exact ⟨"wasm", by decide, fun _ => rfl, fun _ => String.append_assoc ..⟩
  have hplace (source : String) (h : ¬ Strays source) : directory (make source) = directory source := by
    have hslash : '/' ∉ (withExtension (baseName source) x).toList := Path.slash_notMem_withExtension hx
    rw [hmake, (Path.withExtension_iff source x).2 h, Path.directory_append hslash]
  refine ⟨fun source => ?_, fun source h => ?_, fun source old h => ?_, hplace, fun a b ha hb hne heq => ?_,
    fun a ha => ?_⟩
  · rw [hmake, hmake]
    exact Path.withExtension_iff source x
  · rw [hmake, Path.withExtension_baseName_of_none h, hending]
  · obtain ⟨name, hname, hwith⟩ := Path.withExtension_baseName_of_some h x
    exact ⟨name, hname, by rw [hmake, hwith, hending]⟩
  · rw [← hplace a ha, ← hplace b hb, heq] at hne
    exact hne rfl
  · obtain ⟨b, hdir, hwith⟩ := Path.exists_withExtension_eq ha x
    exact ⟨b, hdir, by rw [hmake, hmake, hwith]⟩

/-- A dot in the directory does no harm where the base name has an extension. -/
theorem artifacts_beside_iff_dotted :
    (Path.object, ".o") ∈ [(Path.object, ".o"), (Path.binary, ".wasm")] ∧
      ¬ Strays "a.b/c.cc" ∧ ¬ Strays "a.d/c.cc" ∧ Strays "a.b/c" ∧ extension? "a.b/c" = none ∧
      extension? "a.b/c.cc" = some "cc" ∧ directory "a.b/c.cc" ≠ directory "a.d/c.cc" ∧
      Path.object (baseName "a.b/c") = baseName "a.b/c" ++ ".o" ∧
      (∃ name, baseName "a.b/c.cc" = name ++ "." ++ "cc" ∧
        Path.object (baseName "a.b/c.cc") = (if name = "" then baseName "a.b/c.cc" else name) ++ ".o") ∧
      directory (Path.object "a.b/c.cc") = directory "a.b/c.cc" ∧
      Path.object "a.b/c.cc" ≠ Path.object "a.d/c.cc" ∧
      ∃ b, directory b ≠ directory "a.b/c" ∧ Path.object b = Path.object "a.b/c" := by
  have hm : (Path.object, ".o") ∈ [(Path.object, ".o"), (Path.binary, ".wasm")] := List.mem_cons_self
  have hb : ¬ Strays "a.b/c.cc" := by decide
  have hd : ¬ Strays "a.d/c.cc" := by decide
  have hs : Strays "a.b/c" := by decide
  have hnone : extension? "a.b/c" = none := by decide
  have hsome : extension? "a.b/c.cc" = some "cc" := by decide
  have hne : directory "a.b/c.cc" ≠ directory "a.d/c.cc" := by decide
  obtain ⟨-, h1, h2, h3, h4, h5⟩ := artifacts_beside_iff Path.object ".o" hm
  exact ⟨hm, hb, hd, hs, hnone, hsome, hne, h1 _ hnone, h2 _ _ hsome, h3 _ hb, h4 _ _ hb hd hne, h5 _ hs⟩

/-- A source without an extension in a directory with a dot: the directory is cut off, and the artifact is that of a
source in another directory. -/
theorem exists_artifact_astray :
    (¬ ∀ source, Path.object source = directory source ++ Path.object (baseName source)) ∧
      ¬ ∀ a b, directory a ≠ directory b → Path.object a ≠ Path.object b := by
  refine ⟨fun h => ?_, fun h => ?_⟩
  · have hbad : Path.object "a.b/c" ≠ directory "a.b/c" ++ Path.object (baseName "a.b/c") := by decide
    exact hbad (h "a.b/c")
  · have hbad : directory "a.b/c" ≠ directory "a.d/c" ∧ Path.object "a.b/c" = Path.object "a.d/c" := by decide
    exact h "a.b/c" "a.d/c" hbad.1 hbad.2

end ToolchainHost
