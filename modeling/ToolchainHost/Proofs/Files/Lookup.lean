import Mathlib.Logic.Function.Basic
import ToolchainHost.Proofs.Files.Store

/-!
# Nodes by path

* `FileStore.lookup`: what a path names. A changed or a new node is seen under its path only.
* `FileStore.Sound.file_of_lookup`, `directory_of_lookup`: the store's index agrees with it.
-/

namespace ToolchainHost.FileStore

variable {s t : FileStore} {i : Nat} {n : Node} {path : String}

/-! ### What a path names -/

/-- What a path names. -/
def lookup (s : FileStore) (path : String) : Option Entry := s.listing.lookup path

lemma Sound.nodup_listing (hs : s.Sound) : (s.listing.map Prod.fst).Nodup := by
  simpa [listing, Function.comp_def] using hs.nodup

/-- In a listing without repeated paths every element is found. -/
lemma lookup_of_getElem? {l : List (String × Entry)} (hl : (l.map Prod.fst).Nodup) {e : Entry}
    (h : l[i]? = some (path, e)) : l.lookup path = some e := by
  induction l generalizing i with
  | nil => simp at h
  | cons a l ih =>
    have hn := List.nodup_cons.1 hl
    cases i with
    | zero =>
      simp only [List.getElem?_cons_zero, Option.some.injEq] at h
      simp [h]
    | succ i =>
      rw [List.getElem?_cons_succ] at h
      have hmem : path ∈ l.map Prod.fst := List.mem_map.2 ⟨_, List.mem_of_getElem? h, rfl⟩
      have hne : (path == a.1) = false := beq_false_of_ne fun e => hn.1 (e ▸ hmem)
      rw [List.lookup_cons, hne]
      exact ih hn.2 h

lemma getElem?_of_lookup {l : List (String × Entry)} {e : Entry} (h : l.lookup path = some e) :
    ∃ i : Nat, l[i]? = some (path, e) := by
  obtain ⟨l₁, l₂, rfl, -⟩ := List.lookup_eq_some_iff.1 h
  exact ⟨l₁.length, by simp⟩

lemma lookup_set {l : List (String × Entry)} (hl : (l.map Prod.fst).Nodup) {e₀ : Entry}
    (h : l[i]? = some (path, e₀)) (e : Entry) (q : String) :
    (l.set i (path, e)).lookup q = Function.update (l.lookup ·) path (some e) q := by
  induction l generalizing i with
  | nil => simp at h
  | cons a l ih =>
    have hn := List.nodup_cons.1 hl
    cases i with
    | zero =>
      simp only [List.getElem?_cons_zero, Option.some.injEq] at h
      subst h
      by_cases hq : q = path
      · simp [hq]
      · simp [List.lookup_cons, hq, beq_false_of_ne hq]
    | succ i =>
      rw [List.getElem?_cons_succ] at h
      have hmem : path ∈ l.map Prod.fst := List.mem_map.2 ⟨_, List.mem_of_getElem? h, rfl⟩
      have hne : path ≠ a.1 := fun e => hn.1 (e ▸ hmem)
      rw [List.set_cons_succ, List.lookup_cons]
      by_cases hq : q = path
      · subst hq
        rw [beq_false_of_ne hne]
        simpa using ih hn.2 h
      · have := ih hn.2 h
        rw [Function.update_of_ne hq] at this ⊢
        rw [List.lookup_cons, this]

lemma lookup_concat {l : List (String × Entry)} (h : l.lookup path = none) (e : Entry) (q : String) :
    (l ++ [(path, e)]).lookup q = Function.update (l.lookup ·) path (some e) q := by
  rw [List.lookup_append]
  by_cases hq : q = path
  · subst hq
    simp [h]
  · simp [List.lookup_cons, hq, beq_false_of_ne hq]

/-- A changed node is seen under its path only. -/
lemma Sound.lookup_of_set (hs : s.Sound) (hi : s.nodes[i]? = some n) {e : Entry}
    (ht : t.listing = s.listing.set i (n.path, e)) : t.lookup = Function.update s.lookup n.path (some e) := by
  have hl : s.listing[i]? = some (n.path, s.entry n) := by rw [getElem?_listing, hi, Option.map_some]
  funext q
  rw [lookup, ht, lookup_set hs.nodup_listing hl]
  rfl

/-- A new node is seen under its path only. -/
lemma lookup_of_concat (hn : s.lookup path = none) {e : Entry} (ht : t.listing = s.listing ++ [(path, e)]) :
    t.lookup = Function.update s.lookup path (some e) := by
  funext q
  rw [lookup, ht, lookup_concat hn]
  rfl

lemma lookup_congr (h : t.listing = s.listing) : t.lookup = s.lookup := by
  funext q
  rw [lookup, h, lookup]

lemma Sound.lookup_path (hs : s.Sound) (hi : s.nodes[i]? = some n) : s.lookup n.path = some (s.entry n) :=
  lookup_of_getElem? hs.nodup_listing (by rw [getElem?_listing, hi, Option.map_some])

section Index

variable {j : Nat} {b : Node}

lemma index_unique (h : (s.nodes.map (·.path)).Nodup) (hi : s.nodes[i]? = some n) (hj : s.nodes[j]? = some b)
    (hp : n.path = b.path) : i = j := by
  obtain ⟨h1, e1⟩ := List.getElem?_eq_some_iff.1 hi
  obtain ⟨h2, e2⟩ := List.getElem?_eq_some_iff.1 hj
  refine (List.nodup_iff_injective_getElem.1 h).eq_iff (a := ⟨i, ?_⟩) (b := ⟨j, ?_⟩) |>.1 ?_ |> Fin.mk.inj
  · simpa using h1
  · simpa using h2
  · simp [e1, e2, hp]

/-- The index finds a node by its path if no two nodes have one path. -/
lemma indexOf?_of_nodup (h : (s.nodes.map (·.path)).Nodup) (hi : s.nodes[i]? = some n) :
    s.indexOf? n.path = some i := by
  cases hx : s.indexOf? n.path with
  | none =>
    have h := List.findIdx?_eq_none_iff.1 hx n (List.mem_of_getElem? hi)
    simp at h
  | some j =>
    obtain ⟨hj, hp, -⟩ := List.findIdx?_eq_some_iff_getElem.1 hx
    have he : n.path = s.nodes[j].path := (eq_of_beq hp).symm
    rw [index_unique h hi (List.getElem?_eq_getElem hj) he]

/-- The index of the store finds a node by its path. -/
lemma Sound.indexOf?_path (hs : s.Sound) (hi : s.nodes[i]? = some n) : s.indexOf? n.path = some i :=
  indexOf?_of_nodup hs.nodup hi

end Index

lemma exists_node_of_indexOf? (h : s.indexOf? path = some i) : ∃ n, s.nodes[i]? = some n ∧ n.path = path := by
  obtain ⟨hi, hp, -⟩ := List.findIdx?_eq_some_iff_getElem.1 h
  exact ⟨s.nodes[i], List.getElem?_eq_getElem hi, eq_of_beq hp⟩

lemma indexOf?_of_lookup_none (h : s.lookup path = none) : s.indexOf? path = none := by
  refine List.findIdx?_eq_none_iff.2 fun n hn => ?_
  have h' := List.lookup_eq_none_iff.1 h (n.path, s.entry n) (List.mem_map.2 ⟨n, hn, rfl⟩)
  exact beq_false_of_ne fun e => bne_iff_ne.1 h' e.symm

lemma path_notMem_of_lookup_none (h : s.lookup path = none) : path ∉ s.nodes.map (·.path) := by
  intro hm
  obtain ⟨n, hn, rfl⟩ := List.mem_map.1 hm
  have h' := List.lookup_eq_none_iff.1 h (n.path, s.entry n) (List.mem_map.2 ⟨n, hn, rfl⟩)
  simp at h'

lemma exists_node_of_lookup {e : Entry} (h : s.lookup path = some e) :
    ∃ (i : Nat) (n : Node), s.nodes[i]? = some n ∧ n.path = path ∧ s.entry n = e := by
  obtain ⟨i, hi⟩ := getElem?_of_lookup h
  rw [getElem?_listing] at hi
  obtain ⟨n, hn, he⟩ := Option.map_eq_some_iff.1 hi
  exact ⟨i, n, hn, (Prod.mk.inj he).1, (Prod.mk.inj he).2⟩

/-- What the index finds for the path of a file if no two nodes have one path. -/
lemma file_of_lookup_of_nodup (hd : (s.nodes.map (·.path)).Nodup) {bytes : List UInt8}
    (h : s.lookup path = some (.file bytes)) :
    ∃ (i : Nat) (n : Node), s.indexOf? path = some i ∧ s.FileAt i n ∧ n.path = path ∧
      s.memory.span n.address n.size = bytes := by
  obtain ⟨i, n, hn, rfl, he⟩ := exists_node_of_lookup h
  have hk : n.kind = .file := by rw [← kind_entry s n, he]; rfl
  rw [entry_of_file hk] at he
  exact ⟨i, n, indexOf?_of_nodup hd hn, ⟨hn, hk⟩, rfl, Entry.file.inj he⟩

/-- What the index finds for the path of a directory. -/
lemma directory_of_lookup_of_nodup (hd : (s.nodes.map (·.path)).Nodup) (h : s.lookup path = some .directory) :
    ∃ (i : Nat) (n : Node), s.indexOf? path = some i ∧ s.nodes[i]? = some n ∧ n.path = path ∧
      n.kind = .directory := by
  obtain ⟨i, n, hn, rfl, he⟩ := exists_node_of_lookup h
  have hk : n.kind = .directory := by rw [← kind_entry s n, he]; rfl
  exact ⟨i, n, indexOf?_of_nodup hd hn, hn, rfl, hk⟩

lemma Sound.file_of_lookup (hs : s.Sound) {bytes : List UInt8} (h : s.lookup path = some (.file bytes)) :
    ∃ (i : Nat) (n : Node), s.indexOf? path = some i ∧ s.FileAt i n ∧ n.path = path ∧
      s.memory.span n.address n.size = bytes := file_of_lookup_of_nodup hs.nodup h

lemma Sound.directory_of_lookup (hs : s.Sound) (h : s.lookup path = some .directory) :
    ∃ (i : Nat) (n : Node), s.indexOf? path = some i ∧ s.nodes[i]? = some n ∧ n.path = path ∧
      n.kind = .directory := directory_of_lookup_of_nodup hs.nodup h

lemma Sound.isSome_indexOf? (hs : s.Sound) (path : String) :
    (s.indexOf? path).isSome = (s.lookup path).isSome := by
  cases h : s.lookup path with
  | none => simp [indexOf?_of_lookup_none h]
  | some e =>
    obtain ⟨i, n, hn, rfl, -⟩ := exists_node_of_lookup h
    rw [hs.indexOf?_path hn]
    rfl

end ToolchainHost.FileStore
