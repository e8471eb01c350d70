import ToolchainHost.Proofs.Json.Texts
import ToolchainHost.Proofs.Json.Values

/-!
# Writing and reading JSON

A value whose numbers are integers that fit 64 bits is read back from its text, members and all in their order, as long
as it nests no deeper than the reader allows.

* `Json.ReadsBack`: a value is read back in front of whatever cannot go on with a number.
* `Json.readsBack_of_shaped`: by induction on the value.
* `Json.parse?_render`: the whole text.
-/

namespace ToolchainHost

/-- An integer that fits 64 bits, with or without a sign. -/
def Number.Exact (n : Number) : Prop :=
  ∃ i : Int, n = .int i ∧ -(Numeral.limit / 2 : Nat) ≤ i ∧ i < (Numeral.limit : Nat)

namespace Json

variable {K : List String → Prop} {d fuel : Nat} {v : Json} {limits : Limits} {c : Char} {cs rest : List Char}
  {items : List Json} {fields : List (String × Json)}

/-- A value is read back in front of whatever cannot go on with a number. The text bounds the steps. -/
def ReadsBack (limits : Limits) (v : Json) : Prop :=
  ∀ (fuel : Nat) (rest : List Char), Delimits rest → v.chars.length ≤ fuel →
    readValue limits fuel (v.chars ++ rest) = some (v, rest)

lemma delimits_cons (h : Numeral.isDigit c = false ∧ c ≠ '.' ∧ c ≠ 'e' ∧ c ≠ 'E') (rest : List Char) :
    Delimits (c :: rest) := by
  intro c' hc
  cases hc
  exact h

lemma skipBlanks_cons (h : isBlank c = false) (cs : List Char) : skipBlanks (c :: cs) = c :: cs := by
  rw [skipBlanks, List.dropWhile_cons_of_neg (by rw [h]; decide)]

lemma exists_fuel {n : Nat} (h : n + 1 ≤ fuel) : ∃ k, fuel = k + 1 ∧ n ≤ k := by
  cases fuel with
  | zero => exact absurd h (Nat.not_succ_le_zero n)
  | succ k => exact ⟨k, rfl, Nat.le_of_succ_le_succ h⟩

lemma chars_number (n : Number) : chars (number n) = n.chars := rfl
lemma chars_string (s : String) : chars (string s) = quoteChars s := rfl
lemma chars_array (items : List Json) : chars (array items) = '[' :: itemChars items ++ [']'] := rfl
lemma chars_object (fields : List (String × Json)) : chars (object fields) = '{' :: fieldChars fields ++ ['}'] := rfl

/-! ### Numbers -/

/-- The first character of a number. -/
def OpensNumber (c : Char) : Prop := c = '-' ∨ Numeral.isDigit c = true

lemma intChars_eq_cons (n : Int) : ∃ c cs, Number.intChars n = c :: cs ∧ OpensNumber c := by
  unfold Number.intChars
  split_ifs
  · exact ⟨_, _, rfl, Or.inl rfl⟩
  · have hne : Nat.toDigits 10 n.natAbs ≠ [] := Nat.toDigits_ne_nil
    obtain ⟨c, cs, h⟩ := List.exists_cons_of_ne_nil hne
    refine ⟨c, cs, h, Or.inr (Numeral.isDigit_of_mem_toDigits (n := n.natAbs) ?_)⟩
    rw [h]
    exact List.mem_cons_self

lemma OpensNumber.toNat (h : OpensNumber c) : c.toNat = 45 ∨ 48 ≤ c.toNat ∧ c.toNat ≤ 57 := by
  rcases h with rfl | h
  · exact Or.inl rfl
  · simp only [Numeral.isDigit, Bool.and_eq_true, decide_eq_true_eq] at h
    exact Or.inr ⟨h.1, h.2⟩

lemma OpensNumber.ne (h : OpensNumber c) {b : Char} (hb : b.toNat ≠ 45 ∧ (b.toNat < 48 ∨ 57 < b.toNat)) :
    c ≠ b := by
  rintro rfl
  have := h.toNat
  omega

lemma OpensNumber.isBlank (h : OpensNumber c) : isBlank c = false := by
  simp [Json.isBlank, h.ne (b := ' ') (by decide), h.ne (b := '\t') (by decide), h.ne (b := '\n') (by decide),
    h.ne (b := '\r') (by decide)]

/-- What begins like a number is read as one. -/
lemma readValue_of_opensNumber (h : OpensNumber c) :
    readValue limits (fuel + 1) (c :: cs) = readNumber limits.lax (c :: cs) := by
  rw [readValue, skipBlanks_cons h.isBlank]
  split
  · rename_i he
    exact absurd (List.cons.inj he).1 (h.ne (by decide))
  · rename_i he
    exact absurd (List.cons.inj he).1 (h.ne (by decide))
  · rename_i he
    exact absurd (List.cons.inj he).1 (h.ne (by decide))
  · rename_i he
    exact absurd (List.cons.inj he).1 (h.ne (by decide))
  · rename_i he
    exact absurd (List.cons.inj he).1 (h.ne (by decide))
  · rename_i he
    exact absurd (List.cons.inj he).1 (h.ne (by decide))
  · rfl

lemma readsBack_number {n : Number} (hn : n.Exact) (limits : Limits) : ReadsBack limits (number n) := by
  obtain ⟨i, rfl, h1, h2⟩ := hn
  intro fuel rest hr hf
  obtain ⟨c, cs, hcs, hc⟩ := intChars_eq_cons i
  have hread := Numeral.read_intChars i hr
  have hnumber := Numeral.number?_ofInt h1 h2
  rw [chars_number, Number.chars, hcs, List.length_cons] at hf
  obtain ⟨fuel, rfl, -⟩ := exists_fuel hf
  rw [chars_number, Number.chars, hcs, List.cons_append, readValue_of_opensNumber hc, ← List.cons_append, ← hcs,
    readNumber, hread]
  dsimp only
  rw [hnumber]

/-! ### Containers -/

/-- The first character of a value. -/
lemma chars_eq_cons (h : Shaped Number.Exact K d v) : ∃ c cs, v.chars = c :: cs ∧ isBlank c = false ∧ c ≠ ']' := by
  cases h with
  | null => exact ⟨_, _, rfl, rfl, by decide⟩
  | bool b =>
    cases b with
    | true => exact ⟨_, _, rfl, rfl, by decide⟩
    | false => exact ⟨_, _, rfl, rfl, by decide⟩
  | number hn =>
    obtain ⟨i, rfl, -, -⟩ := hn
    obtain ⟨c, cs, hcs, hc⟩ := intChars_eq_cons i
    exact ⟨c, cs, hcs, hc.isBlank, hc.ne (by decide)⟩
  | string s => exact ⟨'"', s.toList.flatMap escape ++ ['"'], rfl, rfl, by decide⟩
  | array hall => exact ⟨'[', _, chars_array _, rfl, by decide⟩
  | object hk hall => exact ⟨'{', _, chars_object _, rfl, by decide⟩

/-! How a reader goes on behind a character that opens or separates. -/

section Steps

lemma readValue_quote (limits : Limits) (fuel : Nat) (cs : List Char) : readValue limits (fuel + 1) ('"' :: cs) =
    (readString limits.lax [] cs).map fun (s, rest) => (string s, rest) := rfl

lemma eq_of_inner? {inner : Limits} (hl : limits.inner? = some inner) : limits = ⟨inner.depth + 1, inner.lax⟩ := by
  obtain ⟨depth, lax⟩ := limits
  cases depth with
  | zero => cases hl
  | succ depth =>
    cases hl
    rfl

lemma readValue_array_nil {inner : Limits} (hl : limits.inner? = some inner) (fuel : Nat) (rest : List Char) :
    readValue limits (fuel + 1) ('[' :: ']' :: rest) = some (array [], rest) := by
  rw [eq_of_inner? hl]
  rfl

lemma readValue_array {inner : Limits} (hl : limits.inner? = some inner) (hb : isBlank c = false) (hc : c ≠ ']') :
    readValue limits (fuel + 1) ('[' :: c :: cs) =
      (readItems inner fuel (c :: cs)).map fun (items, rest) => (array items, rest) := by
  rw [eq_of_inner? hl]
  rw [readValue, skipBlanks_cons (by decide)]
  simp only [Limits.inner?, skipBlanks_cons hb]
  split
  · rename_i he
    exact absurd (List.cons.inj he).1 hc
  · rfl

lemma readValue_object_nil {inner : Limits} (hl : limits.inner? = some inner) (fuel : Nat) (rest : List Char) :
    readValue limits (fuel + 1) ('{' :: '}' :: rest) = some (object [], rest) := by
  rw [eq_of_inner? hl]
  rfl

lemma readValue_object {inner : Limits} (hl : limits.inner? = some inner) (fuel : Nat) (cs : List Char) :
    readValue limits (fuel + 1) ('{' :: '"' :: cs) = (readFields inner.lax (fun _ => inner) fuel ('"' :: cs)).map
      fun (fields, rest) => (object fields, rest) := by
  rw [eq_of_inner? hl]
  rfl

lemma readItems_comma (h : readValue limits fuel cs = some (v, ',' :: rest)) : readItems limits (fuel + 1) cs =
    (readItems limits fuel rest).map fun (items, rest) => (v :: items, rest) := by
  rw [readItems, h]
  rfl

lemma readItems_end (h : readValue limits fuel cs = some (v, ']' :: rest)) :
    readItems limits (fuel + 1) cs = some ([v], rest) := by
  rw [readItems, h]
  rfl

variable {k : String} {limitsOf : String → Limits}

/-- The key of a member is read back. -/
lemma readFields_key (k : String) (cs : List Char) : readFields false limitsOf (fuel + 1) (quoteChars k ++ ':' :: cs) =
    match readValue (limitsOf k) fuel cs with
    | none => none
    | some (v, rest) =>
      match skipBlanks rest with
      | ',' :: rest => (readFields false limitsOf fuel rest).map fun (fields, rest) => ((k, v) :: fields, rest)
      | '}' :: rest => some ([(k, v)], rest)
      | _ => none := by
  rw [quoteChars_append, readFields, skipBlanks_cons (by decide)]
  simp only [readString_toList]
  rfl

lemma readFields_comma (h : readValue (limitsOf k) fuel cs = some (v, ',' :: rest)) :
    readFields false limitsOf (fuel + 1) (quoteChars k ++ ':' :: cs) =
      (readFields false limitsOf fuel rest).map fun (fields, rest) => ((k, v) :: fields, rest) := by
  rw [readFields_key, h]
  rfl

lemma readFields_end (h : readValue (limitsOf k) fuel cs = some (v, '}' :: rest)) :
    readFields false limitsOf (fuel + 1) (quoteChars k ++ ':' :: cs) = some ([(k, v)], rest) := by
  rw [readFields_key, h]
  rfl

end Steps

/-- Items are read back up to the end of their array. -/
lemma readItems_itemChars (hall : ∀ v ∈ items, ReadsBack limits v) (hne : items ≠ [])
    (hf : (itemChars items).length < fuel) (rest : List Char) :
    readItems limits fuel (itemChars items ++ ']' :: rest) = some (items, rest) := by
  induction items generalizing fuel with
  | nil => exact absurd rfl hne
  | cons v items ih =>
    obtain ⟨fuel, rfl, -⟩ := exists_fuel (Nat.succ_le_of_lt hf)
    have hv := hall v List.mem_cons_self
    cases items with
    | nil =>
      rw [itemChars] at hf ⊢
      exact readItems_end (hv fuel _ (delimits_cons (by decide) _) (by omega))
    | cons w items =>
      rw [itemChars, List.length_append, List.length_cons] at hf
      have hrest : readItems limits fuel (itemChars (w :: items) ++ ']' :: rest) = some (w :: items, rest) :=
        ih (fun u hu => hall u (List.mem_cons_of_mem _ hu)) (List.cons_ne_nil _ _) (by omega)
      rw [itemChars, List.append_assoc, List.cons_append,
        readItems_comma (hv fuel _ (delimits_cons (by decide) _) (by omega)), hrest]
      rfl

/-- Members are read back up to the end of their object. -/
lemma readFields_fieldChars (hall : ∀ f ∈ fields, ReadsBack limits f.2) (hne : fields ≠ [])
    (hf : (fieldChars fields).length < fuel) (rest : List Char) :
    readFields false (fun _ => limits) fuel (fieldChars fields ++ '}' :: rest) = some (fields, rest) := by
  induction fields generalizing fuel with
  | nil => exact absurd rfl hne
  | cons f fields ih =>
    obtain ⟨k, v⟩ := f
    obtain ⟨fuel, rfl, -⟩ := exists_fuel (Nat.succ_le_of_lt hf)
    have hv : ReadsBack limits v := hall (k, v) List.mem_cons_self
    cases fields with
    | nil =>
      rw [fieldChars, List.length_append, List.length_cons] at hf
      rw [fieldChars, List.append_assoc, List.cons_append]
      exact readFields_end (hv fuel _ (delimits_cons (by decide) _) (by omega))
    | cons g fields =>
      rw [fieldChars, List.length_append, List.length_append, List.length_cons, List.length_cons] at hf
      have hrest : readFields false (fun _ => limits) fuel (fieldChars (g :: fields) ++ '}' :: rest) =
          some (g :: fields, rest) :=
        ih (fun g hg => hall g (List.mem_cons_of_mem _ hg)) (List.cons_ne_nil _ _) (by omega)
      rw [fieldChars, List.append_assoc, List.append_assoc, List.cons_append, List.cons_append,
        readFields_comma (hv fuel _ (delimits_cons (by decide) _) (by omega)), hrest]
      rfl

lemma itemChars_eq_cons (h : Shaped Number.Exact K d v) (items : List Json) :
    ∃ c cs, itemChars (v :: items) = c :: cs ∧ isBlank c = false ∧ c ≠ ']' := by
  obtain ⟨c, cs, hcs, hb, hc⟩ := chars_eq_cons h
  cases items with
  | nil => exact ⟨c, cs, by rw [itemChars, hcs], hb, hc⟩
  | cons w items => exact ⟨c, _, by rw [itemChars, hcs, List.cons_append], hb, hc⟩

lemma fieldChars_eq_cons (f : String × Json) (fields : List (String × Json)) :
    ∃ cs, fieldChars (f :: fields) = '"' :: cs := by
  obtain ⟨k, v⟩ := f
  cases fields with
  | nil => exact ⟨_, by rw [fieldChars, quoteChars_append]⟩
  | cons g fields => exact ⟨_, by rw [fieldChars, List.append_assoc, quoteChars_append]⟩

lemma exists_inner (hd : d + 1 ≤ limits.depth) :
    ∃ inner, limits.inner? = some inner ∧ inner.lax = limits.lax ∧ d ≤ inner.depth := by
  obtain ⟨depth, lax⟩ := limits
  cases depth with
  | zero => exact absurd hd (Nat.not_succ_le_zero d)
  | succ depth => exact ⟨⟨depth, lax⟩, rfl, rfl, Nat.le_of_succ_le_succ hd⟩

lemma readsBack_string (hl : limits.lax = false) (s : String) : ReadsBack limits (string s) := by
  intro fuel rest _ hf
  rw [chars_string, quoteChars, List.cons_append, List.length_cons] at hf
  obtain ⟨fuel, rfl, -⟩ := exists_fuel hf
  rw [chars_string, quoteChars_append, readValue_quote, hl, readString_toList]
  rfl

variable {inner : Limits}

lemma readsBack_array (hi : limits.inner? = some inner) (hall : ∀ v ∈ items, Shaped Number.Exact K d v)
    (hback : ∀ v ∈ items, ReadsBack inner v) : ReadsBack limits (array items) := by
  intro fuel rest _ hf
  rw [chars_array, List.cons_append, List.length_cons, List.length_append] at hf
  obtain ⟨fuel, rfl, hlt⟩ := exists_fuel hf
  rw [chars_array, List.cons_append, List.cons_append, List.append_assoc]
  cases items with
  | nil => exact readValue_array_nil hi fuel rest
  | cons v items =>
    obtain ⟨c, cs, hcs, hb, hc⟩ := itemChars_eq_cons (hall v List.mem_cons_self) items
    have hitems := readItems_itemChars hback (List.cons_ne_nil v items) (Nat.lt_of_succ_le hlt) rest
    rw [hcs, List.cons_append] at hitems ⊢
    rw [List.singleton_append, readValue_array hi hb hc, hitems]
    rfl

lemma readsBack_object (hi : limits.inner? = some inner) (hl : inner.lax = false)
    (hback : ∀ f ∈ fields, ReadsBack inner f.2) : ReadsBack limits (object fields) := by
  intro fuel rest _ hf
  rw [chars_object, List.cons_append, List.length_cons, List.length_append] at hf
  obtain ⟨fuel, rfl, hlt⟩ := exists_fuel hf
  rw [chars_object, List.cons_append, List.cons_append, List.append_assoc]
  cases fields with
  | nil => exact readValue_object_nil hi fuel rest
  | cons f fields =>
    obtain ⟨cs, hcs⟩ := fieldChars_eq_cons f fields
    have hfields := readFields_fieldChars hback (List.cons_ne_nil f fields) (Nat.lt_of_succ_le hlt) rest
    rw [hcs, List.cons_append] at hfields ⊢
    rw [List.singleton_append, readValue_object hi, hl, hfields]
    rfl

/-- **A value is read back** wherever it stands, by a reader that lets containers nest as deep. -/
theorem readsBack_of_shaped (h : Shaped Number.Exact K d v) (hl : limits.lax = false) (hd : d ≤ limits.depth) :
    ReadsBack limits v := by
  induction h generalizing limits with
  | null =>
    intro fuel rest _ hf
    obtain ⟨fuel, rfl, -⟩ := exists_fuel hf
    rfl
  | bool b =>
    intro fuel rest _ hf
    cases b with
    | true =>
      obtain ⟨fuel, rfl, -⟩ := exists_fuel hf
      rfl
    | false =>
      obtain ⟨fuel, rfl, -⟩ := exists_fuel hf
      rfl
  | number hn => exact readsBack_number hn limits
  | string s => exact readsBack_string hl s
  | array hall ih =>
    obtain ⟨inner, hi, hlax, hle⟩ := exists_inner hd
    exact readsBack_array hi hall fun v hv => ih v hv (hlax.trans hl) hle
  | object hk hall ih =>
    obtain ⟨inner, hi, hlax, hle⟩ := exists_inner hd
    exact readsBack_object hi (hlax.trans hl) fun f hf => ih f hf (hlax.trans hl) hle

/-- **The text of a value** is read as that value. -/
theorem parse?_render (h : Shaped Number.Exact K d v) (hl : limits.lax = false) (hd : d ≤ limits.depth) :
    parse? limits v.render = some v := by
  have hread := readsBack_of_shaped h hl hd (fuelFor v.chars) [] delimits_nil (by rw [fuelFor]; omega)
  rw [List.append_nil] at hread
  rw [parse?, render, String.toList_ofList, hread]
  rfl

end Json

end ToolchainHost
