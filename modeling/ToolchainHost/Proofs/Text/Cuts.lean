import Mathlib.Data.List.Induction
import ToolchainHost.Proofs.Text.Utf8
import ToolchainHost.Text.Replace

/-!
# Cutting text into pieces

When does it make no difference that a text is decoded, or searched for a token, piece by piece?

* `Uncut`: no cut between pieces falls where it matters.
* `Utf8.Tears`: a cut falls inside the bytes of a character.
* `Utf8.decode_flatten_iff`: decoding piece by piece gives the same text exactly where no cut does so.
* `Text.Straddles`: a token lies across a cut.
* `Text.replaceAll_flatten`: where none does, tokens can be replaced piece by piece.
-/

namespace ToolchainHost

/-- At no cut between two of the pieces, what is before and what is behind it are related. -/
def Uncut {α : Type} (torn : List α → List α → Prop) (pieces : List (List α)) : Prop :=
  ∀ before after, pieces = before ++ after → ¬ torn before.flatten after.flatten

section Uncut

variable {α : Type} {torn : List α → List α → Prop} {piece : List α} {rest : List (List α)}

lemma Uncut.head (h : Uncut torn (piece :: rest)) : ¬ torn piece rest.flatten := by
  have := h [piece] rest rfl
  rwa [List.flatten_singleton] at this

lemma Uncut.tail (h : Uncut torn (piece :: rest)) (hmono : ∀ p q, torn p q → torn (piece ++ p) q) :
    Uncut torn rest := by
  intro before after hsplit htorn
  exact h (piece :: before) after (congrArg (piece :: ·) hsplit) (hmono _ _ htorn)

end Uncut

namespace Utf8

open String (utf8EncodeChar)

/-- The bytes are the first of some character's. -/
def Begins (bs : List UInt8) : Prop := ∃ c, bs <+: utf8EncodeChar c

lemma Begins.of_append {p q : List UInt8} {x : UInt8} (h : Begins (p ++ x :: q)) : Begins (p ++ [x]) := by
  obtain ⟨c, hc⟩ := h
  refine ⟨c, List.IsPrefix.trans ?_ hc⟩
  rw [List.prefix_append_right_inj]
  exact ⟨q, rfl⟩

/-- A cut between `p` and `q` falls inside a character: bytes before it and the one behind it begin one. -/
def Tears (p q : List UInt8) : Prop := ∃ bs b, bs ≠ [] ∧ bs <:+ p ∧ q.head? = some b ∧ Begins (bs ++ [b])

/-! ### How far a character goes -/

variable {b : UInt8} {u v : List UInt8}

/-- One more byte changes nothing, or it is part of the character. -/
lemma lead_concat (b : UInt8) (u : List UInt8) (x : UInt8) :
    lead b (u ++ [x]) = lead b u ∨ (lead b u).2 = u.length ∧ (lead b (u ++ [x])).2 = u.length + 1 := by
  rcases u with _ | ⟨c, _ | ⟨d, _ | ⟨e, u⟩⟩⟩
  · simp only [lead, List.nil_append]
    split_ifs <;> simp
  · simp only [lead, List.nil_append, List.cons_append]
    split_ifs <;> simp
  · simp only [lead, List.nil_append, List.cons_append]
    split_ifs <;> simp
  · exact Or.inl (by simp [lead])

lemma lead_snd_le (b : UInt8) (u : List UInt8) : (lead b u).2 ≤ u.length := by
  induction u using List.reverseRecOn with
  | nil =>
    simp only [lead]
    split_ifs <;> simp
  | append_singleton u x ih =>
    rw [List.length_append, List.length_singleton]
    rcases lead_concat b u x with h | ⟨-, h⟩
    · rw [h]
      omega
    · omega

lemma lead_append (h : (lead b u).2 < u.length) (v : List UInt8) : lead b (u ++ v) = lead b u := by
  induction v using List.reverseRecOn with
  | nil => rw [List.append_nil]
  | append_singleton v x ih =>
    rw [← List.append_assoc]
    rcases lead_concat b (u ++ v) x with hx | ⟨hx, -⟩
    · exact hx.trans ih
    · rw [ih, List.length_append] at hx
      omega

lemma lead_snd_le_append (b : UInt8) (u v : List UInt8) : (lead b u).2 ≤ (lead b (u ++ v)).2 := by
  induction v using List.reverseRecOn with
  | nil => rw [List.append_nil]
  | append_singleton v x ih =>
    rw [← List.append_assoc]
    rcases lead_concat b (u ++ v) x with hx | ⟨hx, hx'⟩
    · rwa [hx]
    · omega

/-- A byte that is no part of the character ends it. -/
lemma lead_append_cons {x : UInt8} (h : (lead b (u ++ [x])).2 ≠ u.length + 1) (v : List UInt8) :
    lead b (u ++ x :: v) = lead b u := by
  have hx : lead b (u ++ [x]) = lead b u := (lead_concat b u x).resolve_right fun hx => h hx.2
  have hlt : (lead b (u ++ [x])).2 < (u ++ [x]).length := by
    have := lead_snd_le b u
    rw [hx, List.length_append, List.length_singleton]
    omega
  rw [← hx, ← lead_append hlt v, List.append_assoc, List.singleton_append]

/-- A character that goes up to some place goes up to every place before it. -/
lemma lead_snd_of_append (h : (lead b (u ++ v)).2 = (u ++ v).length) : (lead b u).2 = u.length := by
  by_contra hne
  have hlt : (lead b u).2 < u.length := lt_of_le_of_ne (lead_snd_le b u) hne
  rw [lead_append hlt, List.length_append] at h
  omega

/-! ### The bytes that characters begin with -/

lemma isContinuation_iff : isContinuation b = true ↔ 128 ≤ b.toNat ∧ b.toNat ≤ 191 := by
  rw [isContinuation, within_eq, decide_eq_true_eq]
  rfl

lemma second3_iff {c : UInt8} : second3 b c = true ↔ (128 ≤ c.toNat ∧ c.toNat ≤ 191) ∧
    (b.toNat = 224 → 160 ≤ c.toNat) ∧ (b.toNat = 237 → c.toNat ≤ 159) := by
  have n1 : (b == 0xE0) = decide (b.toNat = 224) := by simp [beq_eq_decide, ← UInt8.toNat_inj]
  have n2 : (b == 0xED) = decide (b.toNat = 237) := by simp [beq_eq_decide, ← UInt8.toNat_inj]
  rw [second3, n1, n2, within_eq, within_eq]
  change (if _ then decide (160 ≤ _ ∧ _ ≤ 191) else if _ then decide (128 ≤ _ ∧ _ ≤ 159) else _) = true ↔ _
  simp only [decide_eq_true_eq]
  split_ifs
  · rw [decide_eq_true_eq]
    omega
  · rw [decide_eq_true_eq]
    omega
  · rw [isContinuation_iff]
    omega

lemma second4_iff {c : UInt8} : second4 b c = true ↔ (128 ≤ c.toNat ∧ c.toNat ≤ 191) ∧
    (b.toNat = 240 → 144 ≤ c.toNat) ∧ (b.toNat = 244 → c.toNat ≤ 143) := by
  have n1 : (b == 0xF0) = decide (b.toNat = 240) := by simp [beq_eq_decide, ← UInt8.toNat_inj]
  have n2 : (b == 0xF4) = decide (b.toNat = 244) := by simp [beq_eq_decide, ← UInt8.toNat_inj]
  rw [second4, n1, n2, within_eq, within_eq]
  change (if _ then decide (144 ≤ _ ∧ _ ≤ 191) else if _ then decide (128 ≤ _ ∧ _ ≤ 143) else _) = true ↔ _
  simp only [decide_eq_true_eq]
  split_ifs
  · rw [decide_eq_true_eq]
    omega
  · rw [decide_eq_true_eq]
    omega
  · rw [isContinuation_iff]
    omega

section Characters

variable {c d e : UInt8}

lemma exists_toNat {v : Nat} (h : v < 0xD800 ∨ 0xDFFF < v ∧ v < 0x110000) : ∃ c : Char, c.toNat = v :=
  ⟨Char.ofNat v, by rw [Char.ofNat, dif_pos h]; rfl⟩

/-- A lead byte and what may follow it are the bytes of a character. -/
lemma exists_encodeChar_two (hb : (0xC2 ≤ b && b ≤ 0xDF) = true) (hc : isContinuation c = true) :
    ∃ x, utf8EncodeChar x = [b, c] := by
  rw [within_eq, decide_eq_true_eq] at hb
  change 194 ≤ _ ∧ _ ≤ 223 at hb
  rw [isContinuation_iff] at hc
  obtain ⟨x, hx⟩ := exists_toNat (v := (b.toNat - 192) * 64 + (c.toNat - 128)) (by omega)
  have e1 : x.toNat / 64 + 192 = b.toNat := by omega
  have e2 : x.toNat % 64 + 128 = c.toNat := by omega
  exact ⟨x, by rw [encodeChar_two (by omega) (by omega), e1, e2, UInt8.ofNat_toNat, UInt8.ofNat_toNat]⟩

lemma exists_encodeChar_three (hb : (0xE0 ≤ b && b ≤ 0xEF) = true) (hc : second3 b c = true)
    (hd : isContinuation d = true) : ∃ x, utf8EncodeChar x = [b, c, d] := by
  rw [within_eq, decide_eq_true_eq] at hb
  change 224 ≤ _ ∧ _ ≤ 239 at hb
  rw [second3_iff] at hc
  rw [isContinuation_iff] at hd
  obtain ⟨x, hx⟩ := exists_toNat
    (v := (b.toNat - 224) * 4096 + (c.toNat - 128) * 64 + (d.toNat - 128)) (by omega)
  have e1 : x.toNat / 4096 + 224 = b.toNat := by omega
  have e2 : x.toNat / 64 % 64 + 128 = c.toNat := by omega
  have e3 : x.toNat % 64 + 128 = d.toNat := by omega
  exact ⟨x, by rw [encodeChar_three (by omega) (by omega), e1, e2, e3, UInt8.ofNat_toNat, UInt8.ofNat_toNat,
    UInt8.ofNat_toNat]⟩

lemma exists_encodeChar_four (hb : (0xF0 ≤ b && b ≤ 0xF4) = true) (hc : second4 b c = true)
    (hd : isContinuation d = true) (he : isContinuation e = true) : ∃ x, utf8EncodeChar x = [b, c, d, e] := by
  rw [within_eq, decide_eq_true_eq] at hb
  change 240 ≤ _ ∧ _ ≤ 244 at hb
  rw [second4_iff] at hc
  rw [isContinuation_iff] at hd he
  obtain ⟨x, hx⟩ := exists_toNat (v := (b.toNat - 240) * 262144 + (c.toNat - 128) * 4096 + (d.toNat - 128) * 64 +
    (e.toNat - 128)) (by omega)
  have e1 : x.toNat / 262144 + 240 = b.toNat := by omega
  have e2 : x.toNat / 4096 % 64 + 128 = c.toNat := by omega
  have e3 : x.toNat / 64 % 64 + 128 = d.toNat := by omega
  have e4 : x.toNat % 64 + 128 = e.toNat := by omega
  exact ⟨x, by rw [encodeChar_four (by omega), e1, e2, e3, e4, UInt8.ofNat_toNat, UInt8.ofNat_toNat,
    UInt8.ofNat_toNat, UInt8.ofNat_toNat]⟩

lemma begins_of_one (h : (lead b [c]).2 = 1) : Begins [b, c] := by
  have hcont : isContinuation 0x80 = true := by decide
  simp only [lead] at h
  split_ifs at h with _ h2 hc h3 hc h4 hc
  · obtain ⟨x, hx⟩ := exists_encodeChar_two h2 hc
    exact ⟨x, [], hx.symm⟩
  · obtain ⟨x, hx⟩ := exists_encodeChar_three h3 hc hcont
    exact ⟨x, [0x80], hx.symm⟩
  · obtain ⟨x, hx⟩ := exists_encodeChar_four h4 hc hcont hcont
    exact ⟨x, [0x80, 0x80], hx.symm⟩

lemma begins_of_two (h : (lead b [c, d]).2 = 2) : Begins [b, c, d] := by
  have hcont : isContinuation 0x80 = true := by decide
  simp only [lead] at h
  split_ifs at h with _ _ _ h3 hc hd h4 hc hd
  any_goals simp at h
  · obtain ⟨x, hx⟩ := exists_encodeChar_three h3 hc hd
    exact ⟨x, [], hx.symm⟩
  · obtain ⟨x, hx⟩ := exists_encodeChar_four h4 hc hd hcont
    exact ⟨x, [0x80], hx.symm⟩

lemma begins_of_three (h : (lead b [c, d, e]).2 = 3) : Begins [b, c, d, e] := by
  simp only [lead] at h
  split_ifs at h with _ _ _ _ _ _ h4 hc hd he
  any_goals simp at h
  obtain ⟨x, hx⟩ := exists_encodeChar_four h4 hc hd he
  exact ⟨x, [], hx.symm⟩

lemma lead_snd_le_three (b : UInt8) (u : List UInt8) : (lead b u).2 ≤ 3 := by
  unfold lead
  split_ifs
  · simp
  · split <;> (try split_ifs) <;> simp
  · split <;> (try split_ifs) <;> simp
  · split <;> (try split_ifs) <;> simp
  · simp

end Characters

/-- All that is taken for one character after its first byte begins a character with it, and nothing else does. -/
theorem begins_iff (hu : u ≠ []) : Begins (b :: u) ↔ (lead b u).2 = u.length := by
  constructor
  · rintro ⟨c, rest, hc⟩
    obtain ⟨b', bs, hb, hl⟩ := exists_lead c
    obtain ⟨rfl, rfl⟩ := List.cons.inj (hc.trans hb)
    have h := hl []
    rw [List.append_nil] at h
    exact lead_snd_of_append (v := rest) (congrArg Prod.snd h)
  · intro h
    rcases u with _ | ⟨c, _ | ⟨d, _ | ⟨e, u⟩⟩⟩
    · exact absurd rfl hu
    · exact begins_of_one h
    · exact begins_of_two h
    · obtain rfl | hne := eq_or_ne u []
      · exact begins_of_three h
      · have hlen := List.length_pos_iff.2 hne
        have := lead_snd_le_three b (c :: d :: e :: u)
        simp only [List.length_cons] at h
        omega

/-! ### Continuation bytes -/

/-- The first byte of a character is no continuation byte, and the others are. -/
lemma isContinuation_encodeChar {c : Char} (h : utf8EncodeChar c = b :: u) :
    isContinuation b = false ∧ ∀ x ∈ u, isContinuation x = true := by
  have hv := toNat_cases c
  have hfirst {n : Nat} (h1 : n < 128 ∨ 191 < n) (h2 : n < 256) : isContinuation (UInt8.ofNat n) = false := by
    rw [Bool.eq_false_iff, ne_eq, isContinuation_iff, toNat_ofNat h2]
    omega
  have hother (n : Nat) : isContinuation (UInt8.ofNat (n % 64 + 128)) = true := by
    rw [isContinuation_iff, toNat_ofNat (by omega)]
    omega
  rcases Nat.lt_or_ge c.toNat 0x80 with h1 | h1
  · rw [encodeChar_one h1] at h
    cases h
    exact ⟨hfirst (by omega) (by omega), by simp⟩
  rcases Nat.lt_or_ge c.toNat 0x800 with h2 | h2
  · rw [encodeChar_two h1 h2] at h
    cases h
    exact ⟨hfirst (by omega) (by omega), by simp [-UInt8.ofNat_add, hother]⟩
  rcases Nat.lt_or_ge c.toNat 0x10000 with h3 | h3
  · rw [encodeChar_three h2 h3] at h
    cases h
    exact ⟨hfirst (by omega) (by omega), by simp [-UInt8.ofNat_add, hother]⟩
  · rw [encodeChar_four h3] at h
    cases h
    exact ⟨hfirst (by omega) (by omega), by simp [-UInt8.ofNat_add, hother]⟩

lemma Begins.isContinuation (h : Begins (b :: u)) :
    Utf8.isContinuation b = false ∧ ∀ x ∈ u, Utf8.isContinuation x = true := by
  obtain ⟨c, rest, hc⟩ := h
  obtain ⟨hb, hu⟩ := isContinuation_encodeChar (hc.symm.trans (List.cons_append ..))
  exact ⟨hb, fun x hx => hu x (List.mem_append_left _ hx)⟩

/-- Only continuation bytes are taken after the first. -/
lemma isContinuation_of_lead (b : UInt8) (u : List UInt8) :
    ∀ x ∈ u.take (lead b u).2, isContinuation x = true := by
  induction u using List.reverseRecOn with
  | nil => simp
  | append_singleton u x ih =>
    rcases lead_concat b u x with h | ⟨-, h⟩
    · rw [h, List.take_append_of_le_length (lead_snd_le b u)]
      exact ih
    · have hbegins : Begins (b :: (u ++ [x])) :=
        (begins_iff (by simp)).2 (by rw [h, List.length_append, List.length_singleton])
      exact fun y hy => hbegins.isContinuation.2 y (List.mem_of_mem_take hy)

lemma lead_of_isContinuation (h : isContinuation b = true) (u : List UInt8) : lead b u = (replacement, 0) := by
  rw [isContinuation_iff] at h
  have n1 : ¬ b < 0x80 := by rw [UInt8.lt_iff_toNat_lt]; change ¬ _ < 128; omega
  have n2 : (0xC2 ≤ b && b ≤ 0xDF) = false := by
    rw [within_eq]
    exact decide_eq_false (by change ¬ (194 ≤ _ ∧ _ ≤ 223); omega)
  have n3 : (0xE0 ≤ b && b ≤ 0xEF) = false := by
    rw [within_eq]
    exact decide_eq_false (by change ¬ (224 ≤ _ ∧ _ ≤ 239); omega)
  have n4 : (0xF0 ≤ b && b ≤ 0xF4) = false := by
    rw [within_eq]
    exact decide_eq_false (by change ¬ (240 ≤ _ ∧ _ ≤ 244); omega)
  rw [lead.eq_def, if_neg n1, if_neg (by simp [n2]), if_neg (by simp [n3]), if_neg (by simp [n4])]

/-! ### Decoding piece by piece -/

lemma decodeOnto_drop (acc : List Char) (n : Nat) (bs : List UInt8) :
    decodeOnto acc n bs = decodeOnto acc 0 (bs.drop n) := by
  induction bs generalizing n with
  | nil => rw [List.drop_nil, decodeOnto, decodeOnto]
  | cons b bs ih =>
    cases n with
    | zero => rfl
    | succ n => exact ih n

lemma toList_decode_cons (b : UInt8) (u : List UInt8) :
    (decode (b :: u)).toList = (lead b u).1 :: (decode (u.drop (lead b u).2)).toList := by
  simp only [decode, String.toList_ofList]
  rw [decodeOnto, decodeOnto_eq, decodeOnto_drop]
  rfl

/-- Continuation bytes without their first byte are one character each. -/
lemma length_decode_continuations {q : List UInt8} (h : ∀ x ∈ u, isContinuation x = true) :
    (decode (u ++ q)).length = u.length + (decode q).length := by
  simp only [← String.length_toList]
  induction u with
  | nil => simp
  | cons x u ih =>
    rw [List.cons_append, toList_decode_cons, lead_of_isContinuation (h x (List.mem_cons_self ..)), List.drop_zero,
      List.length_cons, List.length_cons, ih fun y hy => h y (List.mem_cons_of_mem _ hy)]
    omega

variable {p q : List UInt8}

lemma not_tears_nil (q : List UInt8) : ¬ Tears [] q := by
  rintro ⟨bs, x, hbs, hsuffix, -⟩
  exact hbs (List.suffix_nil.1 hsuffix)

/-- A cut tears the character that the bytes begin with, or one behind it. -/
lemma tears_cons_iff : Tears (b :: u) q ↔
    (∃ x, q.head? = some x ∧ Begins (b :: (u ++ [x]))) ∨ Tears (u.drop (lead b u).2) q := by
  constructor
  · rintro ⟨bs, x, hbs, hsuffix, hx, hbegins⟩
    rcases List.suffix_cons_iff.1 hsuffix with rfl | ⟨before, hu⟩
    · exact Or.inl ⟨x, hx, hbegins⟩
    · refine Or.inr ⟨bs, x, hbs, ?_, hx, hbegins⟩
      by_cases hk : (lead b u).2 ≤ before.length
      · rw [← hu, List.drop_append_of_le_length (by rwa [hu])]
        exact List.suffix_append ..
      -- otherwise the bytes start with one that the first character has taken
      · obtain ⟨y, bs, rfl⟩ := List.exists_cons_of_ne_nil hbs
        have hy : y ∈ u.take (lead b u).2 := by
          rw [← hu, List.take_append, hu]
          obtain ⟨n, hn⟩ := Nat.exists_eq_add_of_lt (Nat.lt_of_not_le hk)
          rw [show (lead b u).2 - before.length = n + 1 by omega]
          simp
        have h1 := isContinuation_of_lead b u y hy
        have h2 := (Begins.isContinuation hbegins).1
        rw [h1] at h2
        cases h2
  · rintro (⟨x, hx, hbegins⟩ | ⟨bs, x, hbs, hsuffix, hx, hbegins⟩)
    · exact ⟨b :: u, x, by simp, List.suffix_rfl, hx, hbegins⟩
    · exact ⟨bs, x, hbs, (hsuffix.trans (List.drop_suffix ..)).trans (List.suffix_cons ..), hx, hbegins⟩

/-- What does not tear the first character does not change it. -/
lemma lead_append_of_not_torn (h : ¬ ∃ x, q.head? = some x ∧ Begins (b :: (u ++ [x]))) :
    lead b (u ++ q) = lead b u := by
  cases q with
  | nil => rw [List.append_nil]
  | cons x q =>
    refine lead_append_cons (fun hx => h ⟨x, rfl, (begins_iff (by simp)).2 ?_⟩) q
    rw [hx, List.length_append, List.length_singleton]

/-- **A cut that tears no character** is none for the decoded text. -/
theorem decode_append : (p q : List UInt8) → ¬ Tears p q → decode (p ++ q) = decode p ++ decode q
  | [], q, _ => (String.empty_append ..).symm
  | b :: u, q, h => by
    obtain ⟨hfirst, hrest⟩ := not_or.1 (mt tears_cons_iff.2 h)
    have ih := congrArg String.toList (decode_append (u.drop (lead b u).2) q hrest)
    rw [String.toList_append] at ih
    refine String.toList_injective ?_
    rw [String.toList_append, List.cons_append, toList_decode_cons, toList_decode_cons,
      lead_append_of_not_torn hfirst, List.drop_append_of_le_length (lead_snd_le b u), ih, List.cons_append]
termination_by p => p.length
decreasing_by simp only [List.length_drop, List.length_cons]; omega

/-- **A cut that tears a character** leaves more characters than there were. -/
theorem length_decode_lt : (p q : List UInt8) → Tears p q →
    (decode (p ++ q)).length < (decode p).length + (decode q).length
  | [], q, h => absurd h (not_tears_nil q)
  | b :: u, q, h => by
    simp only [← String.length_toList]
    rw [List.cons_append, toList_decode_cons, toList_decode_cons, List.length_cons, List.length_cons]
    by_cases hfirst : ∃ x, q.head? = some x ∧ Begins (b :: (u ++ [x]))
    · obtain ⟨x, hx, hbegins⟩ := hfirst
      have hlead := (begins_iff (by simp)).1 hbegins
      have hmine : (lead b u).2 = u.length := lead_snd_of_append hlead
      obtain ⟨q', rfl⟩ := List.head?_eq_some_iff.1 hx
      have hmore := lead_snd_le_append b (u ++ [x]) q'
      have hall := lead_snd_le b (u ++ x :: q')
      have htaken := isContinuation_of_lead b (u ++ x :: q')
      rw [hlead, List.append_assoc, List.singleton_append, List.length_append, List.length_singleton] at hmore
      rw [List.length_append] at hall
      -- the bytes behind the cut that are taken with those before it would be characters of their own
      obtain ⟨j, hj⟩ := Nat.exists_eq_add_of_le (show u.length ≤ (lead b (u ++ x :: q')).2 by omega)
      rw [hj] at hall hmore htaken ⊢
      rw [List.take_length_add_append] at htaken
      have hlen := length_decode_continuations (q := (x :: q').drop j)
        fun y hy => htaken y (List.mem_append_right u hy)
      rw [List.take_append_drop, List.length_take] at hlen
      simp only [← String.length_toList] at hlen
      rw [List.drop_length_add_append, hmine, List.drop_length, hlen]
      simp only [decode, decodeOnto, String.toList_ofList, List.reverse_nil, List.length_nil]
      omega
    · have ih := length_decode_lt (u.drop (lead b u).2) q ((tears_cons_iff.1 h).resolve_left hfirst)
      simp only [← String.length_toList] at ih
      rw [lead_append_of_not_torn hfirst, List.drop_append_of_le_length (lead_snd_le b u)]
      omega
termination_by p => p.length
decreasing_by simp only [List.length_drop, List.length_cons]; omega

lemma Tears.append (h : Tears p q) (r : List UInt8) : Tears (r ++ p) q := by
  obtain ⟨bs, x, hbs, hsuffix, hx, hbegins⟩ := h
  exact ⟨bs, x, hbs, hsuffix.trans (List.suffix_append r p), hx, hbegins⟩

/-- What is torn at the end of two pieces is torn at the end of the second, or at the end of the first. -/
lemma Tears.of_append {r : List UInt8} (h : Tears (p ++ r) q) : Tears r q ∨ Tears p (r ++ q) := by
  obtain ⟨bs, x, hbs, hsuffix, hx, hbegins⟩ := h
  rcases List.suffix_or_suffix_of_suffix hsuffix (List.suffix_append p r) with hr | ⟨s, rfl⟩
  · exact Or.inl ⟨bs, x, hbs, hr, hx, hbegins⟩
  · have hs : s <:+ p := List.suffix_append_self_iff.1 hsuffix
    obtain rfl | hne := eq_or_ne s []
    · exact Or.inl ⟨r, x, hbs, List.suffix_rfl, hx, hbegins⟩
    · obtain ⟨y, rest, hy⟩ : ∃ y rest, r ++ [x] = y :: rest := List.exists_cons_of_ne_nil (by simp)
      rw [List.append_assoc, hy] at hbegins
      refine Or.inr ⟨s, y, hne, hs, ?_, hbegins.of_append⟩
      have hhead := congrArg List.head? hy
      cases r with
      | nil => exact hx.trans hhead
      | cons z r => exact hhead

lemma uncut_tears_nil : Uncut Tears [] := by
  intro before after hsplit
  obtain ⟨rfl, rfl⟩ := List.append_eq_nil_iff.1 hsplit.symm
  exact not_tears_nil _

lemma uncut_tears_cons {rest : List (List UInt8)} (h : ¬ Tears p rest.flatten) (hrest : Uncut Tears rest) :
    Uncut Tears (p :: rest) := by
  intro before after hsplit htears
  cases before with
  | nil => exact not_tears_nil _ htears
  | cons p' before =>
    obtain ⟨rfl, hafter⟩ := List.cons.inj hsplit
    have hafter : rest = before ++ after := hafter
    rw [hafter, List.flatten_append] at h
    rcases Tears.of_append htears with ht | ht
    · exact hrest before after hafter ht
    · exact h ht

lemma length_decode_append_le (p q : List UInt8) :
    (decode (p ++ q)).length ≤ (decode p).length + (decode q).length := by
  by_cases h : Tears p q
  · exact Nat.le_of_lt (length_decode_lt p q h)
  · rw [decode_append p q h, String.length_append]

lemma length_decode_flatten_le (pieces : List (List UInt8)) :
    (decode pieces.flatten).length ≤ (String.join (pieces.map decode)).length := by
  induction pieces with
  | nil => exact Nat.le_refl 0
  | cons p rest ih =>
    have := length_decode_append_le p rest.flatten
    rw [List.flatten_cons, List.map_cons, String.join_cons, String.length_append]
    omega

/-- **Decoding piece by piece** gives the same text exactly where no cut tears a character. -/
theorem decode_flatten_iff {pieces : List (List UInt8)} :
    decode pieces.flatten = String.join (pieces.map decode) ↔ Uncut Tears pieces := by
  induction pieces with
  | nil => exact iff_of_true rfl uncut_tears_nil
  | cons p rest ih =>
    rw [List.flatten_cons, List.map_cons, String.join_cons]
    constructor
    · intro h
      have hle := length_decode_flatten_le rest
      have hlen := congrArg String.length h
      rw [String.length_append] at hlen
      have hp : ¬ Tears p rest.flatten := by
        intro htears
        have := length_decode_lt p rest.flatten htears
        omega
      rw [decode_append p _ hp, String.append_right_inj] at h
      exact uncut_tears_cons hp (ih.1 h)
    · intro h
      rw [decode_append p _ h.head, ih.2 (h.tail fun q r hq => hq.append p)]

end Utf8

namespace Text

/-- A token lies across a cut between `s` and `t`. -/
def Straddles (token s t : List Char) : Prop := ∃ a b, a ≠ [] ∧ b ≠ [] ∧ a <:+ s ∧ b <+: t ∧ token = a ++ b

variable {token sub s t : List Char}

lemma Straddles.append (h : Straddles token s t) (r : List Char) : Straddles token (r ++ s) t := by
  obtain ⟨a, b, ha, hb, hs, ht, htoken⟩ := h
  exact ⟨a, b, ha, hb, hs.trans (List.suffix_append r s), ht, htoken⟩

lemma replaceOnto_eq (token sub acc : List Char) (skip : Nat) (cs : List Char) :
    replaceOnto token sub acc skip cs = acc.reverse ++ replaceOnto token sub [] skip cs := by
  induction cs generalizing acc skip with
  | nil => simp [replaceOnto]
  | cons c cs ih =>
    cases skip with
    | succ n => rw [replaceOnto, replaceOnto, ih]
    | zero =>
      rw [replaceOnto, replaceOnto]
      split_ifs
      · rw [ih, ih (sub.reverse ++ [])]
        simp
      · rw [ih, ih [c]]
        simp

lemma replaceOnto_drop (token sub acc : List Char) (n : Nat) (cs : List Char) :
    replaceOnto token sub acc n cs = replaceOnto token sub acc 0 (cs.drop n) := by
  induction cs generalizing n with
  | nil => rw [List.drop_nil, replaceOnto, replaceOnto]
  | cons c cs ih =>
    cases n with
    | zero => rfl
    | succ n => exact ih n

/-- A token that begins before a cut and straddles none ends before it. -/
lemma prefix_of_not_straddles (hs : s ≠ []) (h : ¬ Straddles token s t) (hp : token <+: s ++ t) : token <+: s := by
  by_contra hn
  obtain ⟨b, rfl⟩ := (List.prefix_or_prefix_of_prefix hp (List.prefix_append s t)).resolve_left hn
  have hb := (List.prefix_append_right_inj s).1 hp
  refine h ⟨s, b, hs, ?_, List.suffix_rfl, hb, rfl⟩
  rintro rfl
  rw [List.append_nil] at hn
  exact hn List.prefix_rfl

/-- **A cut that no token straddles** is none for the replacement. -/
theorem replaceOnto_append (htoken : token ≠ []) (sub : List Char) : (s t : List Char) → ¬ Straddles token s t →
    replaceOnto token sub [] 0 (s ++ t) = replaceOnto token sub [] 0 s ++ replaceOnto token sub [] 0 t
  | [], t, _ => by rw [List.nil_append, replaceOnto, List.reverse_nil, List.nil_append]
  | c :: s, t, h => by
    rw [List.cons_append, replaceOnto, replaceOnto]
    by_cases hp : token <+: c :: s
    · have hlen : token.length - 1 ≤ s.length := by
        have := hp.length_le
        rw [List.length_cons] at this
        omega
      have hrest : ¬ Straddles token (s.drop (token.length - 1)) t := by
        intro hr
        have := hr.append (c :: s.take (token.length - 1))
        rw [List.cons_append, List.take_append_drop] at this
        exact h this
      have hp' : token.isPrefixOf (c :: (s ++ t)) = true :=
        List.isPrefixOf_iff_prefix.2 (hp.trans (List.prefix_append (c :: s) t))
      rw [if_pos hp', if_pos (List.isPrefixOf_iff_prefix.2 hp), replaceOnto_eq, replaceOnto_drop,
        List.drop_append_of_le_length hlen, replaceOnto_append htoken sub _ _ hrest,
        replaceOnto_eq _ _ (sub.reverse ++ []), replaceOnto_drop _ _ _ _ s, List.append_assoc]
    · have hp' : ¬ token <+: c :: (s ++ t) := fun hw => hp (prefix_of_not_straddles (List.cons_ne_nil c s) h hw)
      rw [if_neg (mt List.isPrefixOf_iff_prefix.1 hp'), if_neg (mt List.isPrefixOf_iff_prefix.1 hp), replaceOnto_eq,
        replaceOnto_append htoken sub s t fun hr => h (hr.append [c]), replaceOnto_eq _ _ [c], List.append_assoc]
termination_by s => s.length
decreasing_by
  · simp only [List.length_drop, List.length_cons]; omega
  · simp only [List.length_cons]; omega

/-- **Replacing piece by piece** gives the same text where no token straddles a cut. -/
theorem replaceAll_join {token sub : String} {pieces : List String} (htoken : token ≠ "")
    (h : Uncut (Straddles token.toList) (pieces.map String.toList)) :
    replaceAll token sub (String.join pieces) = String.join (pieces.map (replaceAll token sub)) := by
  have htoken' : token.toList ≠ [] := mt String.toList_eq_nil_iff.1 htoken
  induction pieces with
  | nil => rfl
  | cons piece rest ih =>
    have hrest : (String.join rest).toList = (rest.map String.toList).flatten := by
      rw [String.toList_join, List.flatMap_def]
    have happend := replaceOnto_append htoken' sub.toList _ _ h.head
    rw [String.join_cons, List.map_cons, String.join_cons, ← ih (h.tail fun s t hs => hs.append _), replaceAll,
      String.toList_append, hrest, happend, String.ofList_append, replaceAll, replaceAll, hrest]

end Text

end ToolchainHost
