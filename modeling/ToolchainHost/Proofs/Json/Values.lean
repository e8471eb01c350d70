import Mathlib.Data.List.Perm.Basic
import Mathlib.Data.List.Sort
import Mathlib.Data.String.Basic
import Mathlib.Tactic.Common
import ToolchainHost.Json.Value

/-!
# The same JSON value

The order of an object's members has no meaning. The canonical form of a value puts them in the order of their keys.

* `Json.Shaped`: which numbers a value has, what the keys of its objects are like, and how deep it nests.
* `Json.Shaped.canonical`, `canonical_of_inOrder`: the canonical form has its members in order, and values that have
  are their own canonical forms.
* `Json.Same`: two spellings of one value. For objects without repeated keys it is a permutation of the members.
-/

namespace ToolchainHost.Json

variable {N N' : Number → Prop} {K K' : List String → Prop} {d d' : Nat} {v w : Json} {k : String}
  {items : List Json} {done fields : List (String × Json)}

/-- The value nests at most so many containers, all its numbers are `N`, and the keys of each of its objects are
`K`. -/
inductive Shaped (N : Number → Prop) (K : List String → Prop) : Nat → Json → Prop
  | null {d : Nat} : Shaped N K d null
  | bool {d : Nat} (b : Bool) : Shaped N K d (bool b)
  | number {d : Nat} {n : Number} (h : N n) : Shaped N K d (number n)
  | string {d : Nat} (s : String) : Shaped N K d (string s)
  | array {d : Nat} {items : List Json} (h : ∀ v ∈ items, Shaped N K d v) : Shaped N K (d + 1) (array items)
  | object {d : Nat} {fields : List (String × Json)} (hk : K (fields.map (·.1)))
      (h : ∀ f ∈ fields, Shaped N K d f.2) : Shaped N K (d + 1) (object fields)

/-- A value of two shapes has what both say. -/
lemma Shaped.and (h : Shaped N K d v) (h' : Shaped N' K' d' v) :
    Shaped (fun n => N n ∧ N' n) (fun keys => K keys ∧ K' keys) d v := by
  induction h generalizing d' with
  | null => exact .null
  | bool b => exact .bool b
  | number hn =>
    cases h' with
    | number hn' => exact .number ⟨hn, hn'⟩
  | string s => exact .string s
  | array hall ih =>
    cases h' with
    | array hall' => exact .array fun v hv => ih v hv (hall' v hv)
  | object hk hall ih =>
    cases h' with
    | object hk' hall' => exact .object ⟨hk, hk'⟩ fun f hf => ih f hf (hall' f hf)

lemma Shaped.mono (h : Shaped N K d v) (hn : ∀ n, N n → N' n) (hk : ∀ keys, K keys → K' keys) (hd : d ≤ d') :
    Shaped N' K' d' v := by
  induction h generalizing d' with
  | null => exact .null
  | bool b => exact .bool b
  | number h => exact .number (hn _ h)
  | string s => exact .string s
  | array hall ih =>
    obtain ⟨e, rfl⟩ := Nat.exists_eq_add_of_le' (Nat.lt_of_lt_of_le (Nat.succ_pos _) hd)
    exact .array fun v hv => ih v hv (Nat.le_of_succ_le_succ hd)
  | object h hall ih =>
    obtain ⟨e, rfl⟩ := Nat.exists_eq_add_of_le' (Nat.lt_of_lt_of_le (Nat.succ_pos _) hd)
    exact .object (hk _ h) fun f hf => ih f hf (Nat.le_of_succ_le_succ hd)

/-! ### Members in order -/

/-- Keys in order, none of them twice. -/
def InOrder (keys : List String) : Prop := keys.Pairwise (· < ·)

lemma mem_insertField {f : String × Json} (h : f ∈ insertField k v done) : f = (k, v) ∨ f ∈ done := by
  induction done with
  | nil => exact Or.inl (List.mem_singleton.1 h)
  | cons g rest ih =>
    rw [insertField] at h
    split_ifs at h
    · exact List.mem_cons.1 h
    · exact (List.mem_cons.1 h).imp_right (List.mem_cons_of_mem _)
    · rcases List.mem_cons.1 h with h | h
      · exact Or.inr (h ▸ List.mem_cons_self)
      · exact (ih h).imp_right (List.mem_cons_of_mem _)

lemma inOrder_insertField (h : InOrder (done.map (·.1))) : InOrder ((insertField k v done).map (·.1)) := by
  unfold InOrder at *
  induction done with
  | nil => exact List.pairwise_singleton ..
  | cons g rest ih =>
    obtain ⟨hg, hrest⟩ := List.pairwise_cons.1 h
    rw [insertField]
    split_ifs with h1 h2
    · refine List.pairwise_cons.2 ⟨fun key hkey => ?_, h⟩
      rcases List.mem_cons.1 hkey with rfl | hkey
      · exact h1
      · exact lt_trans h1 (hg key hkey)
    · subst h2
      exact h
    · refine List.pairwise_cons.2 ⟨fun key hkey => ?_, ih hrest⟩
      obtain ⟨f, hf, rfl⟩ := List.mem_map.1 hkey
      rcases mem_insertField hf with rfl | hf
      · exact lt_of_le_of_ne (not_lt.1 h1) fun he => h2 he.symm
      · exact hg _ (List.mem_map_of_mem hf)

/-- A key that is new is put in somewhere. -/
lemma insertField_perm (h : ∀ f ∈ done, f.1 ≠ k) : (insertField k v done).Perm ((k, v) :: done) := by
  induction done with
  | nil => exact .refl _
  | cons g rest ih =>
    rw [insertField]
    split_ifs with h1 h2
    · exact .refl _
    · exact absurd h2.symm (h g List.mem_cons_self)
    · exact ((ih fun f hf => h f (List.mem_cons_of_mem _ hf)).cons g).trans (.swap ..)

/-- A key that is greater than all others is put at the end. -/
lemma insertField_of_lt (h : ∀ f ∈ done, f.1 < k) : insertField k v done = done ++ [(k, v)] := by
  induction done with
  | nil => rfl
  | cons g rest ih =>
    have hg := h g List.mem_cons_self
    rw [insertField, if_neg (lt_asymm hg), if_neg (ne_of_gt hg), ih fun f hf => h f (List.mem_cons_of_mem _ hf)]
    rfl

/-! ### Canonical forms -/

lemma canonicalItems_eq (items : List Json) : canonicalItems items = items.map canonical := by
  induction items with
  | nil => rw [canonicalItems, List.map_nil]
  | cons v rest ih => rw [canonicalItems, ih, List.map_cons]

lemma canonical_array (items : List Json) : canonical (array items) = array (items.map canonical) := by
  rw [canonical, canonicalItems_eq]

lemma canonical_object (fields : List (String × Json)) :
    canonical (object fields) = object (canonicalFields [] fields) := by rw [canonical]

lemma mem_canonicalFields {f : String × Json} (h : f ∈ canonicalFields done fields) :
    f ∈ done ∨ ∃ g ∈ fields, f = (g.1, canonical g.2) := by
  induction fields generalizing done with
  | nil =>
    rw [canonicalFields] at h
    exact Or.inl h
  | cons g rest ih =>
    obtain ⟨key, value⟩ := g
    rw [canonicalFields] at h
    rcases ih h with h | ⟨g, hg, rfl⟩
    · rcases mem_insertField h with rfl | h
      · exact Or.inr ⟨_, List.mem_cons_self, rfl⟩
      · exact Or.inl h
    · exact Or.inr ⟨g, List.mem_cons_of_mem _ hg, rfl⟩

lemma inOrder_canonicalFields (h : InOrder (done.map (·.1))) :
    InOrder ((canonicalFields done fields).map (·.1)) := by
  induction fields generalizing done with
  | nil =>
    rw [canonicalFields]
    exact h
  | cons g rest ih =>
    rw [canonicalFields]
    exact ih (inOrder_insertField h)

/-- **The canonical form** has the numbers of the value, nests as deep, and has its members in order. -/
theorem Shaped.canonical (h : Shaped N K d v) : Shaped N InOrder d v.canonical := by
  induction h with
  | null => exact .null
  | bool b => exact .bool b
  | number hn => exact .number hn
  | string s => exact .string s
  | array hall ih =>
    rw [canonical_array]
    refine .array fun w hw => ?_
    obtain ⟨v, hv, rfl⟩ := List.mem_map.1 hw
    exact ih v hv
  | object hk hall ih =>
    rw [canonical_object]
    refine .object (inOrder_canonicalFields List.Pairwise.nil) fun f hf => ?_
    rcases mem_canonicalFields hf with hf | ⟨g, hg, rfl⟩
    · cases hf
    · exact ih g hg

/-- Members in order stay where they are. -/
lemma canonicalFields_of_inOrder (h : InOrder ((done ++ fields).map (·.1))) :
    canonicalFields done fields = done ++ fields.map fun f => (f.1, f.2.canonical) := by
  induction fields generalizing done with
  | nil => rw [canonicalFields, List.map_nil, List.append_nil]
  | cons g rest ih =>
    have hlt : ∀ f ∈ done, f.1 < g.1 := by
      rw [InOrder, List.map_append] at h
      intro f hf
      exact (List.pairwise_append.1 h).2.2 _ (List.mem_map_of_mem hf) _ List.mem_cons_self
    have hsplit : (done ++ [(g.1, g.2.canonical)] ++ rest).map (·.1) = (done ++ g :: rest).map (·.1) := by simp
    rw [canonicalFields, insertField_of_lt hlt, ih (hsplit ▸ h), List.append_assoc, List.map_cons]
    rfl

/-- **A value with its members in order** is its own canonical form. -/
theorem canonical_of_inOrder (h : Shaped N InOrder d v) : v.canonical = v := by
  induction h with
  | null => rfl
  | bool b => rfl
  | number hn => rfl
  | string s => rfl
  | array hall ih => rw [canonical_array, List.map_congr_left ih, List.map_id']
  | @object d fields hk hall ih =>
    have hfields : fields.map (fun f => (f.1, f.2.canonical)) = fields := by
      rw [List.map_congr_left fun f hf => show (f.1, f.2.canonical) = f by rw [ih f hf], List.map_id']
    rw [canonical_object, canonicalFields_of_inOrder (by rwa [List.nil_append]), List.nil_append, hfields]

/-! ### Values that are the same -/

/-- The values differ in the order of members at most. -/
def Same (v w : Json) : Prop := v.canonical = w.canonical

lemma Shaped.canonical_same (h : Shaped N K d v) : Same v.canonical v := canonical_of_inOrder h.canonical

/-- Members without repeated keys are put in order. -/
lemma canonicalFields_perm (h : ((done ++ fields).map (·.1)).Nodup) :
    (canonicalFields done fields).Perm (done ++ fields.map fun f => (f.1, f.2.canonical)) := by
  induction fields generalizing done with
  | nil =>
    rw [canonicalFields, List.map_nil, List.append_nil]
  | cons g rest ih =>
    have hne : ∀ f ∈ done, f.1 ≠ g.1 := by
      rw [List.map_append] at h
      intro f hf
      exact (List.nodup_append.1 h).2.2 _ (List.mem_map_of_mem hf) _ List.mem_cons_self
    have hperm : (insertField g.1 g.2.canonical done).Perm ((g.1, g.2.canonical) :: done) := insertField_perm hne
    have hkeys : ((insertField g.1 g.2.canonical done ++ rest).map (·.1)).Perm ((done ++ g :: rest).map (·.1)) := by
      refine ((hperm.append_right rest).map _).trans ?_
      rw [List.cons_append, List.map_cons, List.map_append, List.map_append, List.map_cons]
      exact List.perm_middle.symm
    rw [canonicalFields, List.map_cons]
    refine (ih (hkeys.nodup_iff.2 h)).trans ((hperm.append_right _).trans ?_)
    exact List.perm_middle.symm

/-- **Objects without repeated keys are the same** iff their members are, up to their order. -/
theorem same_object_iff {fields' : List (String × Json)} (h : (fields.map (·.1)).Nodup)
    (h' : (fields'.map (·.1)).Nodup) : Same (object fields) (object fields') ↔
      (fields.map fun f => (f.1, f.2.canonical)).Perm (fields'.map fun f => (f.1, f.2.canonical)) := by
  have hp : (canonicalFields [] fields).Perm (fields.map fun f => (f.1, f.2.canonical)) := canonicalFields_perm h
  have hp' : (canonicalFields [] fields').Perm (fields'.map fun f => (f.1, f.2.canonical)) :=
    canonicalFields_perm h'
  rw [Same, canonical_object, canonical_object, object.injEq]
  constructor
  · intro he
    exact hp.symm.trans (he ▸ hp')
  · intro hperm
    have hsorted (l : List (String × Json)) : (canonicalFields [] l).Pairwise fun f g => f.1 < g.1 :=
      List.pairwise_map.1 (@inOrder_canonicalFields [] l List.Pairwise.nil)
    exact ((hp.trans hperm).trans hp'.symm).eq_of_pairwise (fun f g _ _ h1 h2 => absurd h1 (lt_asymm h2))
      (hsorted fields) (hsorted fields')

end ToolchainHost.Json
