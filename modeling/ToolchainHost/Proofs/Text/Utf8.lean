import Mathlib.Data.List.Basic
import Mathlib.Data.List.TakeWhile
import Mathlib.Tactic.Common
import ToolchainHost.Memory.Basic

/-!
# UTF-8: encoding and decoding

* `decode_encode`: decoding gives back a text that was encoded.
* `textOf_encode`: so does reading it up to its first NUL, if it has none.
* `encode_lt_encode`: the order of texts is that of their bytes.
-/

namespace ToolchainHost.Utf8

open String (utf8EncodeChar)

/-! ### The bytes of one character -/

lemma toNat_ofNat {n : Nat} (h : n < 256) : (UInt8.ofNat n).toNat = n := by
  simp [Nat.mod_eq_of_lt h]

/-- The numbers of characters: two intervals. -/
lemma toNat_cases (c : Char) : c.toNat < 0xD800 ∨ 0xDFFF < c.toNat ∧ c.toNat < 0x110000 := c.valid

section Forms

variable {c : Char}

lemma encodeChar_one (h : c.toNat < 0x80) : utf8EncodeChar c = [UInt8.ofNat c.toNat] :=
  if_pos (by change c.toNat ≤ 127; omega)

lemma encodeChar_two (h1 : 0x80 ≤ c.toNat) (h2 : c.toNat < 0x800) :
    utf8EncodeChar c = [UInt8.ofNat (c.toNat / 64 + 192), UInt8.ofNat (c.toNat % 64 + 128)] := by
  unfold utf8EncodeChar
  change (if c.toNat ≤ 127 then _ else if c.toNat ≤ 2047 then _ else _) = _
  rw [if_neg (by omega), if_pos (by omega)]
  change [UInt8.ofNat (c.toNat / 64 % 32 + 192), UInt8.ofNat (c.toNat % 64 + 128)] = _
  rw [Nat.mod_eq_of_lt (a := c.toNat / 64) (by omega)]

lemma encodeChar_three (h1 : 0x800 ≤ c.toNat) (h2 : c.toNat < 0x10000) :
    utf8EncodeChar c = [UInt8.ofNat (c.toNat / 4096 + 224), UInt8.ofNat (c.toNat / 64 % 64 + 128),
      UInt8.ofNat (c.toNat % 64 + 128)] := by
  unfold utf8EncodeChar
  change (if c.toNat ≤ 127 then _ else if c.toNat ≤ 2047 then _ else if c.toNat ≤ 65535 then _ else _) = _
  rw [if_neg (by omega), if_neg (by omega), if_pos (by omega)]
  change [UInt8.ofNat (c.toNat / 4096 % 16 + 224), _, _] = _
  rw [Nat.mod_eq_of_lt (a := c.toNat / 4096) (by omega)]
  rfl

lemma encodeChar_four (h1 : 0x10000 ≤ c.toNat) :
    utf8EncodeChar c = [UInt8.ofNat (c.toNat / 262144 + 240), UInt8.ofNat (c.toNat / 4096 % 64 + 128),
      UInt8.ofNat (c.toNat / 64 % 64 + 128), UInt8.ofNat (c.toNat % 64 + 128)] := by
  have := toNat_cases c
  unfold utf8EncodeChar
  change (if c.toNat ≤ 127 then _ else if c.toNat ≤ 2047 then _ else if c.toNat ≤ 65535 then _ else _) = _
  rw [if_neg (by omega), if_neg (by omega), if_neg (by omega)]
  change [UInt8.ofNat (c.toNat / 262144 % 8 + 240), _, _, _] = _
  rw [Nat.mod_eq_of_lt (a := c.toNat / 262144) (by omega)]
  rfl

end Forms

/-! ### The character that bytes begin with -/

section Lead

variable {v : Nat} {b c d e : UInt8}

/-- A range of bytes, on their numbers. -/
lemma within_eq (lo hi b : UInt8) : (lo ≤ b && b ≤ hi) = decide (lo.toNat ≤ b.toNat ∧ b.toNat ≤ hi.toNat) := by
  simp only [Bool.decide_and, UInt8.le_iff_toNat_le]

lemma isContinuation_of (h : c.toNat = v % 64 + 128) : isContinuation c = true := by
  rw [isContinuation, within_eq, h]
  exact decide_eq_true ⟨by change 128 ≤ _; omega, by change _ ≤ 191; omega⟩

lemma second3_of (h1 : 0x800 ≤ v) (h2 : v < 0xD800 ∨ 0xDFFF < v) (hb : b.toNat = v / 4096 + 224)
    (hc : c.toNat = v / 64 % 64 + 128) : second3 b c = true := by
  have n1 : (b == 0xE0) = decide (b.toNat = 224) := by simp [beq_eq_decide, ← UInt8.toNat_inj]
  have n2 : (b == 0xED) = decide (b.toNat = 237) := by simp [beq_eq_decide, ← UInt8.toNat_inj]
  rw [second3, n1, n2, within_eq, within_eq]
  change (if _ then decide (160 ≤ _ ∧ _ ≤ 191) else if _ then decide (128 ≤ _ ∧ _ ≤ 159) else _) = true
  simp only [decide_eq_true_eq, isContinuation_of hc, hb, hc]
  split_ifs <;> simp only [decide_eq_true_eq] <;> omega

lemma second4_of (h1 : 0x10000 ≤ v) (h2 : v < 0x110000) (hb : b.toNat = v / 262144 + 240)
    (hc : c.toNat = v / 4096 % 64 + 128) : second4 b c = true := by
  have n1 : (b == 0xF0) = decide (b.toNat = 240) := by simp [beq_eq_decide, ← UInt8.toNat_inj]
  have n2 : (b == 0xF4) = decide (b.toNat = 244) := by simp [beq_eq_decide, ← UInt8.toNat_inj]
  rw [second4, n1, n2, within_eq, within_eq]
  change (if _ then decide (144 ≤ _ ∧ _ ≤ 191) else if _ then decide (128 ≤ _ ∧ _ ≤ 143) else _) = true
  simp only [decide_eq_true_eq, isContinuation_of hc, hb, hc]
  split_ifs <;> simp only [decide_eq_true_eq] <;> omega

lemma lead_one (h : v < 0x80) (hb : b.toNat = v) (rest : List UInt8) : lead b rest = (Char.ofNat v, 0) := by
  have n1 : b < 0x80 := by rw [UInt8.lt_iff_toNat_lt, hb]; exact h
  rw [lead.eq_def, if_pos n1, hb]

lemma lead_two (h1 : 0x80 ≤ v) (h2 : v < 0x800) (hb : b.toNat = v / 64 + 192) (hc : c.toNat = v % 64 + 128)
    (rest : List UInt8) : lead b (c :: rest) = (Char.ofNat v, 1) := by
  have n1 : ¬ b < 0x80 := by rw [UInt8.lt_iff_toNat_lt, hb]; change ¬ _ < 128; omega
  have n2 : (0xC2 ≤ b && b ≤ 0xDF) = true := by
    rw [within_eq, hb]
    exact decide_eq_true ⟨by change 194 ≤ _; omega, by change _ ≤ 223; omega⟩
  have e : b.toNat % 32 * 64 + c.toNat % 64 = v := by omega
  rw [lead, if_neg n1, if_pos n2]
  simp only [isContinuation_of hc, payload, e, if_true]

lemma lead_three (h1 : 0x800 ≤ v) (h2 : v < 0x10000) (h3 : v < 0xD800 ∨ 0xDFFF < v)
    (hb : b.toNat = v / 4096 + 224) (hc : c.toNat = v / 64 % 64 + 128) (hd : d.toNat = v % 64 + 128)
    (rest : List UInt8) : lead b (c :: d :: rest) = (Char.ofNat v, 2) := by
  have n1 : ¬ b < 0x80 := by rw [UInt8.lt_iff_toNat_lt, hb]; change ¬ _ < 128; omega
  have n2 : (0xC2 ≤ b && b ≤ 0xDF) = false := by
    rw [within_eq, hb]
    exact decide_eq_false (by change ¬ (194 ≤ _ ∧ _ ≤ 223); omega)
  have n3 : (0xE0 ≤ b && b ≤ 0xEF) = true := by
    rw [within_eq, hb]
    exact decide_eq_true ⟨by change 224 ≤ _; omega, by change _ ≤ 239; omega⟩
  have e : b.toNat % 16 * 4096 + c.toNat % 64 * 64 + d.toNat % 64 = v := by omega
  rw [lead, if_neg n1, if_neg (by simp [n2]), if_pos n3]
  simp only [isContinuation_of hd, second3_of h1 h3 hb hc, payload, e, if_true]

lemma lead_four (h1 : 0x10000 ≤ v) (h2 : v < 0x110000) (hb : b.toNat = v / 262144 + 240)
    (hc : c.toNat = v / 4096 % 64 + 128) (hd : d.toNat = v / 64 % 64 + 128) (he : e.toNat = v % 64 + 128)
    (rest : List UInt8) : lead b (c :: d :: e :: rest) = (Char.ofNat v, 3) := by
  have n1 : ¬ b < 0x80 := by rw [UInt8.lt_iff_toNat_lt, hb]; change ¬ _ < 128; omega
  have n2 : (0xC2 ≤ b && b ≤ 0xDF) = false := by
    rw [within_eq, hb]
    exact decide_eq_false (by change ¬ (194 ≤ _ ∧ _ ≤ 223); omega)
  have n3 : (0xE0 ≤ b && b ≤ 0xEF) = false := by
    rw [within_eq, hb]
    exact decide_eq_false (by change ¬ (224 ≤ _ ∧ _ ≤ 239); omega)
  have n4 : (0xF0 ≤ b && b ≤ 0xF4) = true := by
    rw [within_eq, hb]
    exact decide_eq_true ⟨by change 240 ≤ _; omega, by change _ ≤ 244; omega⟩
  have e : b.toNat % 8 * 262144 + c.toNat % 64 * 4096 + d.toNat % 64 * 64 + e.toNat % 64 = v := by omega
  rw [lead, if_neg n1, if_neg (by simp [n2]), if_neg (by simp [n3]), if_pos n4]
  simp only [isContinuation_of hd, isContinuation_of he, second4_of h1 h2 hb hc, payload, e, if_true]

end Lead

/-! ### Decoding what was encoded -/

/-- The bytes of a character begin with that character, whatever follows. -/
lemma exists_lead (c : Char) :
    ∃ b bs, utf8EncodeChar c = b :: bs ∧ ∀ rest, lead b (bs ++ rest) = (c, bs.length) := by
  have hc : Char.ofNat c.toNat = c := Char.ofNat_toNat c
  have hv := toNat_cases c
  rcases Nat.lt_or_ge c.toNat 0x80 with h1 | h1
  · exact ⟨_, _, encodeChar_one h1, fun rest => by
      simpa [hc] using lead_one h1 (toNat_ofNat (by omega)) rest⟩
  rcases Nat.lt_or_ge c.toNat 0x800 with h2 | h2
  · exact ⟨_, _, encodeChar_two h1 h2, fun rest => by
      simpa [hc] using lead_two h1 h2 (toNat_ofNat (by omega)) (toNat_ofNat (by omega)) rest⟩
  rcases Nat.lt_or_ge c.toNat 0x10000 with h3 | h3
  · exact ⟨_, _, encodeChar_three h2 h3, fun rest => by
      simpa [hc] using lead_three h2 h3 (by omega) (toNat_ofNat (by omega)) (toNat_ofNat (by omega))
        (toNat_ofNat (by omega)) rest⟩
  · exact ⟨_, _, encodeChar_four h3, fun rest => by
      simpa [hc] using lead_four h3 (by omega) (toNat_ofNat (by omega)) (toNat_ofNat (by omega))
        (toNat_ofNat (by omega)) (toNat_ofNat (by omega)) rest⟩

lemma decodeOnto_skip (acc : List Char) (bs rest : List UInt8) :
    decodeOnto acc bs.length (bs ++ rest) = decodeOnto acc 0 rest := by
  induction bs with
  | nil => rfl
  | cons b bs ih => exact ih

lemma decodeOnto_encodeChar (c : Char) (rest : List UInt8) :
    decodeOnto [] 0 (utf8EncodeChar c ++ rest) = c :: decodeOnto [] 0 rest := by
  obtain ⟨b, bs, hb, hl⟩ := exists_lead c
  rw [hb, List.cons_append, decodeOnto, hl, decodeOnto_skip, decodeOnto_eq]
  rfl

theorem decode_encode (s : String) : decode (encode s) = s := by
  have h : ∀ cs : List Char, decodeOnto [] 0 (cs.flatMap utf8EncodeChar) = cs := by
    intro cs
    induction cs with
    | nil => rfl
    | cons c cs ih => rw [List.flatMap_cons, decodeOnto_encodeChar, ih]
  rw [decode, encode, h, String.ofList_toList]

/-- The bytes of a text of ASCII characters are their numbers. -/
lemma encode_of_ascii {s : String} (h : ∀ c ∈ s.toList, c.toNat < 0x80) :
    encode s = s.toList.map fun c => UInt8.ofNat c.toNat := by
  rw [encode, List.map_eq_flatMap]
  exact List.flatMap_congr fun c hc => encodeChar_one (h c hc)

/-! ### The character NUL -/

/-- The byte zero stands for the character NUL alone. -/
lemma zero_notMem_encodeChar {c : Char} (h : c ≠ '\x00') : 0 ∉ utf8EncodeChar c := by
  have h0 : c.toNat ≠ 0 := fun e => h (by rw [← Char.ofNat_toNat c, e])
  have hv := toNat_cases c
  have key : ∀ n, 0 < n → n < 256 → (0 : UInt8) ≠ UInt8.ofNat n := by
    intro n h1 h2 e
    have := congrArg UInt8.toNat e
    rw [toNat_ofNat h2] at this
    exact absurd this (by change 0 ≠ n; omega)
  rcases Nat.lt_or_ge c.toNat 0x80 with h1 | h1
  · simp only [encodeChar_one h1, List.mem_cons, List.not_mem_nil, or_false]
    exact key _ (by omega) (by omega)
  rcases Nat.lt_or_ge c.toNat 0x800 with h2 | h2
  · simp only [encodeChar_two h1 h2, List.mem_cons, List.not_mem_nil, or_false, not_or]
    exact ⟨key _ (by omega) (by omega), key _ (by omega) (by omega)⟩
  rcases Nat.lt_or_ge c.toNat 0x10000 with h3 | h3
  · simp only [encodeChar_three h2 h3, List.mem_cons, List.not_mem_nil, or_false, not_or]
    exact ⟨key _ (by omega) (by omega), key _ (by omega) (by omega), key _ (by omega) (by omega)⟩
  · simp only [encodeChar_four h3, List.mem_cons, List.not_mem_nil, or_false, not_or]
    exact ⟨key _ (by omega) (by omega), key _ (by omega) (by omega), key _ (by omega) (by omega),
      key _ (by omega) (by omega)⟩

lemma zero_notMem_encode {s : String} (h : '\x00' ∉ s.toList) : 0 ∉ encode s := by
  simp only [encode, List.mem_flatMap, not_exists, not_and]
  exact fun c hc => zero_notMem_encodeChar fun e => h (e ▸ hc)

theorem textOf_encode {s : String} (h : '\x00' ∉ s.toList) : Memory.textOf (encode s) = s := by
  have hz := zero_notMem_encode h
  have ht : (encode s).takeWhile (· != 0) = encode s :=
    List.takeWhile_eq_self_iff.2 fun b hb => bne_iff_ne.2 fun e => hz (e ▸ hb)
  rw [Memory.textOf, ht, decode_encode]

/-! ### The order of texts -/

lemma ofNat_cons_lt {m n : Nat} (hm : m < 256) (hn : n < 256) {x y : List UInt8} (h : m < n ∨ m = n ∧ x < y) :
    UInt8.ofNat m :: x < UInt8.ofNat n :: y := by
  rw [List.cons_lt_cons_iff, UInt8.lt_iff_toNat_lt, toNat_ofNat hm, toNat_ofNat hn]
  exact h.imp_right fun ⟨e, h⟩ => ⟨e ▸ rfl, h⟩

/-- The bytes of a smaller character come first, whatever follows. -/
lemma encodeChar_append_lt {c d : Char} (h : c < d) (x y : List UInt8) :
    utf8EncodeChar c ++ x < utf8EncodeChar d ++ y := by
  have hlt : c.toNat < d.toNat := h
  have hc := toNat_cases c
  have hd := toNat_cases d
  -- a longer encoding starts with a greater byte; encodings of one length are compared digit by digit
  rcases Nat.lt_or_ge c.toNat 0x80 with c1 | c1
  · rw [encodeChar_one c1]
    rcases Nat.lt_or_ge d.toNat 0x80 with d1 | d1
    · rw [encodeChar_one d1]
      exact ofNat_cons_lt (by omega) (by omega) (Or.inl hlt)
    rcases Nat.lt_or_ge d.toNat 0x800 with d2 | d2
    · rw [encodeChar_two d1 d2]
      exact ofNat_cons_lt (by omega) (by omega) (Or.inl (by omega))
    rcases Nat.lt_or_ge d.toNat 0x10000 with d3 | d3
    · rw [encodeChar_three d2 d3]
      exact ofNat_cons_lt (by omega) (by omega) (Or.inl (by omega))
    · rw [encodeChar_four d3]
      exact ofNat_cons_lt (by omega) (by omega) (Or.inl (by omega))
  rcases Nat.lt_or_ge c.toNat 0x800 with c2 | c2
  · rw [encodeChar_two c1 c2]
    rcases Nat.lt_or_ge d.toNat 0x800 with d2 | d2
    · rw [encodeChar_two (by omega) d2]
      refine ofNat_cons_lt (by omega) (by omega) ?_
      rcases Nat.lt_or_ge (c.toNat / 64) (d.toNat / 64) with l1 | l1
      · exact Or.inl (by omega)
      · exact Or.inr ⟨by omega, ofNat_cons_lt (by omega) (by omega) (Or.inl (by omega))⟩
    rcases Nat.lt_or_ge d.toNat 0x10000 with d3 | d3
    · rw [encodeChar_three d2 d3]
      exact ofNat_cons_lt (by omega) (by omega) (Or.inl (by omega))
    · rw [encodeChar_four d3]
      exact ofNat_cons_lt (by omega) (by omega) (Or.inl (by omega))
  rcases Nat.lt_or_ge c.toNat 0x10000 with c3 | c3
  · rw [encodeChar_three c2 c3]
    rcases Nat.lt_or_ge d.toNat 0x10000 with d3 | d3
    · rw [encodeChar_three (by omega) d3]
      refine ofNat_cons_lt (by omega) (by omega) ?_
      rcases Nat.lt_or_ge (c.toNat / 4096) (d.toNat / 4096) with l1 | l1
      · exact Or.inl (by omega)
      refine Or.inr ⟨by omega, ofNat_cons_lt (by omega) (by omega) ?_⟩
      rcases Nat.lt_or_ge (c.toNat / 64 % 64) (d.toNat / 64 % 64) with l2 | l2
      · exact Or.inl (by omega)
      · exact Or.inr ⟨by omega, ofNat_cons_lt (by omega) (by omega) (Or.inl (by omega))⟩
    · rw [encodeChar_four d3]
      exact ofNat_cons_lt (by omega) (by omega) (Or.inl (by omega))
  · rw [encodeChar_four c3, encodeChar_four (by omega)]
    refine ofNat_cons_lt (by omega) (by omega) ?_
    rcases Nat.lt_or_ge (c.toNat / 262144) (d.toNat / 262144) with l1 | l1
    · exact Or.inl (by omega)
    refine Or.inr ⟨by omega, ofNat_cons_lt (by omega) (by omega) ?_⟩
    rcases Nat.lt_or_ge (c.toNat / 4096 % 64) (d.toNat / 4096 % 64) with l2 | l2
    · exact Or.inl (by omega)
    refine Or.inr ⟨by omega, ofNat_cons_lt (by omega) (by omega) ?_⟩
    rcases Nat.lt_or_ge (c.toNat / 64 % 64) (d.toNat / 64 % 64) with l3 | l3
    · exact Or.inl (by omega)
    · exact Or.inr ⟨by omega, ofNat_cons_lt (by omega) (by omega) (Or.inl (by omega))⟩

theorem encode_lt_encode {s t : String} (h : s < t) : encode s < encode t := by
  have key : ∀ cs ds : List Char, cs < ds → cs.flatMap utf8EncodeChar < ds.flatMap utf8EncodeChar := by
    intro cs ds
    induction cs generalizing ds with
    | nil =>
      cases ds with
      | nil => exact fun h => absurd h (List.not_lt_nil _)
      | cons d ds =>
        obtain ⟨b, bs, hb, -⟩ := exists_lead d
        intro _
        rw [List.flatMap_cons, hb]
        exact List.nil_lt_cons _ _
    | cons c cs ih =>
      cases ds with
      | nil => exact fun h => absurd h (List.not_lt_nil _)
      | cons d ds =>
        intro h
        rw [List.flatMap_cons, List.flatMap_cons]
        rcases List.cons_lt_cons_iff.1 h with hc | ⟨rfl, hs⟩
        · exact encodeChar_append_lt hc _ _
        · exact List.append_left_lt (ih ds hs)
  exact key _ _ h

end ToolchainHost.Utf8
