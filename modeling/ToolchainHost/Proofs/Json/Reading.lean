import ToolchainHost.Proofs.Json.RoundTrip

/-!
# What the reader accepts

A value that was read nests no deeper than the reader allows, and its integers fit 64 bits.

* `Json.Limits.Bounds`: the values within a reader's limits.
* `Json.readsBounded`: by induction on the steps, one lemma for each reader.
* `Json.bounds_of_parse?`: a whole text.
-/

namespace ToolchainHost

/-- A number that can be read: an integer that fits 64 bits, or a double. -/
def Number.Fits (n : Number) : Prop := n.Exact ∨ ∃ bits, n = .double bits

lemma Number.exact_of_fits {n : Number} (h : n.Fits) (hi : ∃ i, n = .int i) : n.Exact := by
  obtain h | ⟨bits, rfl⟩ := h
  · exact h
  · obtain ⟨i, hi⟩ := hi
    cases hi

/-- A numeral stands for a number that fits. -/
lemma Numeral.fits_number? {n : Numeral} {m : Number} (h : n.number? = some m) : m.Fits := by
  have hdouble {x : Option UInt64} (h : x.map Number.double = some m) : m.Fits := by
    obtain ⟨bits, -, rfl⟩ := Option.map_eq_some_iff.1 h
    exact Or.inr ⟨bits, rfl⟩
  unfold number? at h
  dsimp only at h
  split_ifs at h with _ h1 h2
  · exact hdouble h
  · cases h
    simp only [Bool.and_eq_true, decide_eq_true_eq] at h1
    exact Or.inl ⟨_, rfl, by omega, by omega⟩
  · cases h
    simp only [Bool.and_eq_true, decide_eq_true_eq] at h2
    exact Or.inl ⟨_, rfl, by omega, by omega⟩
  · exact hdouble h

namespace Json

variable {limits inner : Limits} {limitsOf : String → Limits} {lax : Bool} {fuel : Nat} {cs rest : List Char} {v : Json}
  {items : List Json} {fields : List (String × Json)}

/-- The value is within the limits of a reader. -/
def Limits.Bounds (limits : Limits) (v : Json) : Prop := Shaped Number.Fits (fun _ => True) limits.depth v

lemma depth_of_inner? (h : limits.inner? = some inner) : limits.depth = inner.depth + 1 := by
  obtain ⟨depth, lax⟩ := limits
  cases depth with
  | zero => cases h
  | succ depth =>
    cases h
    rfl

lemma bounds_array (hi : limits.inner? = some inner) (h : ∀ v ∈ items, inner.Bounds v) :
    limits.Bounds (array items) := by
  rw [Limits.Bounds, depth_of_inner? hi]
  exact .array h

lemma bounds_object (hi : limits.inner? = some inner) (h : ∀ f ∈ fields, inner.Bounds f.2) :
    limits.Bounds (object fields) := by
  rw [Limits.Bounds, depth_of_inner? hi]
  exact .object trivial h

lemma bounds_of_readNumber (h : readNumber lax cs = some (v, rest)) : limits.Bounds v := by
  unfold readNumber at h
  split at h
  · cases h
  · split at h
    · rename_i hn
      cases h
      exact .number (Numeral.fits_number? hn)
    · split_ifs at h
      cases h
      exact .null

/-- With so many steps the readers give values within their limits. -/
structure ReadsBounded (fuel : Nat) : Prop where
  value {limits : Limits} {cs rest : List Char} {v : Json} (h : readValue limits fuel cs = some (v, rest)) :
    limits.Bounds v
  items {limits : Limits} {cs rest : List Char} {items : List Json}
    (h : readItems limits fuel cs = some (items, rest)) : ∀ v ∈ items, limits.Bounds v
  fields {lax : Bool} {limitsOf : String → Limits} {cs rest : List Char} {fields : List (String × Json)}
    (h : readFields lax limitsOf fuel cs = some (fields, rest)) : ∀ f ∈ fields, (limitsOf f.1).Bounds f.2

lemma bounds_of_readValue (ih : ReadsBounded fuel) (h : readValue limits (fuel + 1) cs = some (v, rest)) :
    limits.Bounds v := by
  rw [readValue] at h
  split at h
  · cases h
    exact .null
  · cases h
    exact .bool true
  · cases h
    exact .bool false
  · obtain ⟨⟨s, tail⟩, -, he⟩ := Option.map_eq_some_iff.1 h
    cases he
    exact .string s
  · split at h
    · cases h
    · rename_i hi
      split at h
      · cases h
        exact bounds_array hi (List.forall_mem_nil _)
      · obtain ⟨⟨items, tail⟩, hitems, he⟩ := Option.map_eq_some_iff.1 h
        cases he
        exact bounds_array hi (ih.items hitems)
  · split at h
    · cases h
    · rename_i hi
      split at h
      · cases h
        exact bounds_object hi (List.forall_mem_nil _)
      · obtain ⟨⟨fields, tail⟩, hfields, he⟩ := Option.map_eq_some_iff.1 h
        cases he
        exact bounds_object hi (ih.fields hfields)
  · exact bounds_of_readNumber h

lemma bounds_of_readItems (ih : ReadsBounded fuel) (h : readItems limits (fuel + 1) cs = some (items, rest)) :
    ∀ v ∈ items, limits.Bounds v := by
  rw [readItems] at h
  split at h
  · cases h
  · rename_i hv
    split at h
    · obtain ⟨⟨items, tail⟩, hitems, he⟩ := Option.map_eq_some_iff.1 h
      cases he
      exact List.forall_mem_cons.2 ⟨ih.value hv, ih.items hitems⟩
    · cases h
      exact List.forall_mem_singleton.2 (ih.value hv)
    · cases h

lemma bounds_of_readFields (ih : ReadsBounded fuel) (h : readFields lax limitsOf (fuel + 1) cs = some (fields, rest)) :
    ∀ f ∈ fields, (limitsOf f.1).Bounds f.2 := by
  rw [readFields] at h
  split at h
  swap
  · cases h
  split at h
  · cases h
  split at h
  swap
  · cases h
  split at h
  · cases h
  · rename_i hv
    split at h
    · obtain ⟨⟨fields, tail⟩, hfields, he⟩ := Option.map_eq_some_iff.1 h
      cases he
      exact List.forall_mem_cons.2 ⟨ih.value hv, ih.fields hfields⟩
    · cases h
      exact List.forall_mem_singleton.2 (ih.value hv)
    · cases h

/-- **What is read is within the limits**, whatever the text. -/
theorem readsBounded (fuel : Nat) : ReadsBounded fuel := by
  induction fuel with
  | zero =>
    refine ⟨fun h => ?_, fun h => ?_, fun h => ?_⟩
    · cases h
    · cases h
    · cases h
  | succ fuel ih => exact ⟨bounds_of_readValue ih, bounds_of_readItems ih, bounds_of_readFields ih⟩

/-- A whole text. -/
theorem bounds_of_parse? {text : String} (h : parse? limits text = some v) : limits.Bounds v := by
  unfold parse? at h
  cases hr : readValue limits (fuelFor text.toList) text.toList with
  | none =>
    rw [hr] at h
    cases h
  | some p =>
    obtain ⟨w, rest⟩ := p
    rw [hr, atEnd] at h
    split_ifs at h
    cases h
    exact (readsBounded _).value hr

end Json

end ToolchainHost
