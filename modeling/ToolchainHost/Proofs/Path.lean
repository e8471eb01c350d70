import Mathlib.Data.List.DropRight
import Mathlib.Tactic.Common
import ToolchainHost.Path

/-!
# Normal paths

* `normalize_normalize`: a normal path is its own normal spelling.
* `nul_notMem_normalize`: normalizing adds no characters.
-/

namespace ToolchainHost.Path

/-! ### Leading dots -/

lemma dropDotSlashes_of_not {cs : List Char} (h : ¬ ['.', '/'] <+: cs) : dropDotSlashes cs = cs := by
  unfold dropDotSlashes
  split
  · exact absurd ⟨_, rfl⟩ h
  · rfl

lemma not_prefix_dropDotSlashes (cs : List Char) : ¬ ['.', '/'] <+: dropDotSlashes cs := by
  fun_induction dropDotSlashes cs with
  | case1 cs ih => exact ih
  | case2 cs h =>
    rintro ⟨rest, rfl⟩
    exact h rest rfl

lemma dropDotSlashes_suffix (cs : List Char) : dropDotSlashes cs <:+ cs := by
  fun_induction dropDotSlashes cs with
  | case1 cs ih => exact ih.trans ⟨['.', '/'], rfl⟩
  | case2 cs h => exact List.suffix_rfl

/-! ### Trailing slashes -/

lemma dropEndWhile_isPrefix (p : Char → Bool) (cs : List Char) : Text.dropEndWhile p cs <+: cs := by
  rw [← List.reverse_suffix, Text.dropEndWhile, List.reverse_reverse]
  exact List.dropWhile_suffix p

lemma dropEndWhile_dropEndWhile (p : Char → Bool) (cs : List Char) :
    Text.dropEndWhile p (Text.dropEndWhile p cs) = Text.dropEndWhile p cs := by
  simp only [Text.dropEndWhile, List.reverse_reverse, List.dropWhile_idempotent]

/-! ### Normal spellings -/

lemma normalizeChars_eq (cs : List Char) :
    normalizeChars cs =
      if Text.dropEndWhile (· == '/') (dropDotSlashes cs) = [] ∧ dropDotSlashes cs ≠ [] then ['/']
      else Text.dropEndWhile (· == '/') (dropDotSlashes cs) := rfl

lemma normalizeChars_normalizeChars (cs : List Char) : normalizeChars (normalizeChars cs) = normalizeChars cs := by
  rw [normalizeChars_eq cs]
  split_ifs with h
  · rfl
  · have hd : dropDotSlashes (Text.dropEndWhile (· == '/') (dropDotSlashes cs)) =
        Text.dropEndWhile (· == '/') (dropDotSlashes cs) :=
      dropDotSlashes_of_not fun hp => not_prefix_dropDotSlashes cs (hp.trans (dropEndWhile_isPrefix _ _))
    rw [normalizeChars_eq, hd, dropEndWhile_dropEndWhile]
    exact if_neg fun he => he.2 he.1

theorem normalize_normalize (path : String) : normalize (normalize path) = normalize path := by
  simp only [normalize, String.toList_ofList, normalizeChars_normalizeChars]

lemma mem_normalizeChars {c : Char} {cs : List Char} (h : c ∈ normalizeChars cs) : c ∈ cs ∨ c = '/' := by
  rw [normalizeChars_eq] at h
  split_ifs at h
  · exact Or.inr (List.mem_singleton.1 h)
  · exact Or.inl ((dropDotSlashes_suffix cs).subset ((dropEndWhile_isPrefix _ _).subset h))

lemma nul_notMem_normalize {path : String} (h : '\x00' ∉ path.toList) : '\x00' ∉ (normalize path).toList := by
  rw [normalize, String.toList_ofList]
  intro hm
  rcases mem_normalizeChars hm with hm | hm
  · exact h hm
  · exact absurd hm (by decide)

end ToolchainHost.Path
