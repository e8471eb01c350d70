import ToolchainHost.Proofs.Text.Cuts

/-!
# Plain bytes

Bytes are plain if they are those of a text without the character NUL. Such bytes are read back from memory as they
are; of others a reader that stops at a NUL gets another text.

* `Utf8.shown`: the bytes of the text that a reader gets.
* `Utf8.shown_eq_iff`: they are the bytes themselves iff these are plain.
* `Utf8.encodeChar_cases`: a byte of the ASCII class is a character of its own.
-/

namespace ToolchainHost.Utf8

open String (utf8EncodeChar)

variable {b : UInt8} {bs u : List UInt8} {c : Char}

/-! ### Bytes of the ASCII class -/

/-- A character is one byte of the ASCII class, or bytes that are not of this class. -/
lemma encodeChar_cases (c : Char) :
    c.toNat < 0x80 ∧ utf8EncodeChar c = [UInt8.ofNat c.toNat] ∨
      ∃ b u, utf8EncodeChar c = b :: u ∧ ∀ x ∈ b :: u, 0x80 ≤ x.toNat := by
  by_cases h1 : c.toNat < 0x80
  · exact Or.inl ⟨h1, encodeChar_one h1⟩
  obtain ⟨b, u, hc, -⟩ := exists_lead c
  refine Or.inr ⟨b, u, hc, ?_⟩
  have hu := (isContinuation_encodeChar hc).2
  have hb : 0x80 ≤ b.toNat := by
    have hv := toNat_cases c
    rcases Nat.lt_or_ge c.toNat 0x800 with h2 | h2
    · rw [encodeChar_two (by omega) h2] at hc
      cases hc
      rw [toNat_ofNat (by omega)]
      omega
    rcases Nat.lt_or_ge c.toNat 0x10000 with h3 | h3
    · rw [encodeChar_three h2 h3] at hc
      cases hc
      rw [toNat_ofNat (by omega)]
      omega
    · rw [encodeChar_four h3] at hc
      cases hc
      rw [toNat_ofNat (by omega)]
      omega
  intro x hx
  rcases List.mem_cons.1 hx with rfl | hx
  · exact hb
  · exact (isContinuation_iff.1 (hu x hx)).1

/-- A byte of the ASCII class in the bytes of a character is all of them. -/
lemma encodeChar_of_mem (hm : b ∈ utf8EncodeChar c) (hb : b.toNat < 0x80) :
    utf8EncodeChar c = [b] ∧ c.toNat = b.toNat := by
  rcases encodeChar_cases c with ⟨h, hc⟩ | ⟨b', u, hc, hall⟩
  · rw [hc, List.mem_singleton] at hm
    subst hm
    exact ⟨hc, (toNat_ofNat (by omega)).symm⟩
  · have := hall b (hc ▸ hm)
    omega

/-! ### The text that is read -/

lemma prefix_lead {v : List UInt8} (hc : utf8EncodeChar c = b :: v) (rest : List UInt8) :
    utf8EncodeChar (lead b (v ++ rest)).1 <+: b :: (v ++ rest) := by
  obtain ⟨b', v', hc', hlead⟩ := exists_lead c
  obtain ⟨rfl, rfl⟩ := List.cons.inj (hc.symm.trans hc')
  rw [hlead rest]
  exact ⟨rest, by rw [hc]; rfl⟩

section Classes

variable (h1 : ¬ b < 0x80)

include h1

lemma lead_fst_two (h2 : (0xC2 ≤ b && b ≤ 0xDF) = true) (u : List UInt8) :
    (lead b u).1 = replacement ∨ utf8EncodeChar (lead b u).1 <+: b :: u := by
  cases u with
  | nil => exact Or.inl (by rw [lead, if_neg h1, if_pos h2])
  | cons c rest =>
    by_cases hc : isContinuation c = true
    · obtain ⟨x, hx⟩ := exists_encodeChar_two h2 hc
      exact Or.inr (prefix_lead hx rest)
    · refine Or.inl ?_
      rw [lead, if_neg h1, if_pos h2, if_neg hc]

variable (h2 : ¬ (0xC2 ≤ b && b ≤ 0xDF) = true)

include h2

lemma lead_fst_three (h3 : (0xE0 ≤ b && b ≤ 0xEF) = true) (u : List UInt8) :
    (lead b u).1 = replacement ∨ utf8EncodeChar (lead b u).1 <+: b :: u := by
  rcases u with _ | ⟨c, _ | ⟨d, rest⟩⟩
  · exact Or.inl (by rw [lead, if_neg h1, if_neg h2, if_pos h3])
  · exact Or.inl (by rw [lead, if_neg h1, if_neg h2, if_pos h3])
  by_cases hc : second3 b c = true ∧ isContinuation d = true
  · obtain ⟨x, hx⟩ := exists_encodeChar_three h3 hc.1 hc.2
    exact Or.inr (prefix_lead hx rest)
  · refine Or.inl ?_
    rw [lead, if_neg h1, if_neg h2, if_pos h3]
    dsimp only
    split_ifs with hs hd
    · exact absurd ⟨hs, hd⟩ hc
    · rfl
    · rfl

lemma lead_fst_four (h3 : ¬ (0xE0 ≤ b && b ≤ 0xEF) = true) (h4 : (0xF0 ≤ b && b ≤ 0xF4) = true) (u : List UInt8) :
    (lead b u).1 = replacement ∨ utf8EncodeChar (lead b u).1 <+: b :: u := by
  rcases u with _ | ⟨c, _ | ⟨d, _ | ⟨e, rest⟩⟩⟩
  · exact Or.inl (by rw [lead, if_neg h1, if_neg h2, if_neg h3, if_pos h4])
  · exact Or.inl (by rw [lead, if_neg h1, if_neg h2, if_neg h3, if_pos h4])
  · exact Or.inl (by rw [lead, if_neg h1, if_neg h2, if_neg h3, if_pos h4])
  by_cases hc : second4 b c = true ∧ isContinuation d = true ∧ isContinuation e = true
  · obtain ⟨x, hx⟩ := exists_encodeChar_four h4 hc.1 hc.2.1 hc.2.2
    exact Or.inr (prefix_lead hx rest)
  · refine Or.inl ?_
    rw [lead, if_neg h1, if_neg h2, if_neg h3, if_pos h4]
    dsimp only
    split_ifs with hs hd he
    · exact absurd ⟨hs, hd, he⟩ hc
    · rfl
    · rfl
    · rfl

end Classes

/-- What bytes begin with is a replacement, or a character that they begin with. -/
theorem lead_fst_cases (b : UInt8) (u : List UInt8) :
    (lead b u).1 = replacement ∨ utf8EncodeChar (lead b u).1 <+: b :: u := by
  by_cases h1 : b < 0x80
  · have hb : b.toNat < 0x80 := h1
    have hn : (Char.ofNat b.toNat).toNat = b.toNat := by
      obtain ⟨c, hc⟩ := exists_toNat (v := b.toNat) (by omega)
      rw [← hc, Char.ofNat_toNat]
    have hone : utf8EncodeChar (Char.ofNat b.toNat) = [b] := by
      rw [encodeChar_one (by omega), hn, UInt8.ofNat_toNat]
    exact Or.inr (prefix_lead hone u)
  by_cases h2 : (0xC2 ≤ b && b ≤ 0xDF) = true
  · exact lead_fst_two h1 h2 u
  by_cases h3 : (0xE0 ≤ b && b ≤ 0xEF) = true
  · exact lead_fst_three h1 h2 h3 u
  by_cases h4 : (0xF0 ≤ b && b ≤ 0xF4) = true
  · exact lead_fst_four h1 h2 h3 h4 u
  · exact Or.inl (by rw [lead.eq_def, if_neg h1, if_neg h2, if_neg h3, if_neg h4])

/-- The character NUL is read from the byte zero only. -/
lemma nul_notMem_decode (h : 0 ∉ bs) : '\x00' ∉ (decode bs).toList := by
  induction hn : bs.length using Nat.strong_induction_on generalizing bs with
  | _ n ih =>
    match bs with
    | [] => simp [decode, decodeOnto]
    | b :: u =>
      rw [toList_decode_cons]
      refine List.not_mem_cons_of_ne_of_not_mem (fun e => ?_) ?_
      · rcases lead_fst_cases b u with hr | ⟨rest, hp⟩
        · rw [← e] at hr
          exact absurd hr (by decide)
        · rw [← e] at hp
          obtain ⟨rfl, -⟩ := List.cons.inj (hp : (0 : UInt8) :: rest = b :: u)
          exact h List.mem_cons_self
      · refine ih (u.drop (lead b u).2).length ?_ (fun hm => h (List.mem_cons_of_mem _ (List.mem_of_mem_drop hm))) rfl
        rw [← hn, List.length_drop, List.length_cons]
        omega

lemma nul_notMem_textOf (bs : List UInt8) : '\x00' ∉ (Memory.textOf bs).toList := by
  refine nul_notMem_decode fun hm => ?_
  have h := List.mem_takeWhile_imp hm
  exact absurd h (by decide)

/-- The bytes of the text that a reader gets who stops at a NUL. -/
def shown (bs : List UInt8) : List UInt8 := encode (Memory.textOf bs)

/-- Bytes of a text without the character NUL. -/
def Plain (bs : List UInt8) : Prop := 0 ∉ bs ∧ isValid bs = true

instance (bs : List UInt8) : Decidable (Plain bs) := inferInstanceAs (Decidable (_ ∧ _))

/-- Bytes are read as they are iff they are plain. -/
theorem shown_eq_iff : shown bs = bs ↔ Plain bs := by
  constructor
  · intro h
    obtain ⟨t, ht, rfl⟩ : ∃ t, '\x00' ∉ String.toList t ∧ encode t = bs := ⟨_, nul_notMem_textOf bs, h⟩
    exact ⟨zero_notMem_encode ht, by rw [isValid, decode_encode, beq_self_eq_true]⟩
  · rintro ⟨hz, hv⟩
    have ht : bs.takeWhile (· != 0) = bs :=
      List.takeWhile_eq_self_iff.2 fun b hb => bne_iff_ne.2 fun e => hz (e ▸ hb)
    rw [shown, Memory.textOf, ht]
    exact eq_of_beq hv

lemma plain_encode {s : String} (h : '\x00' ∉ s.toList) : Plain (encode s) :=
  shown_eq_iff.1 (congrArg encode (textOf_encode h))

lemma encode_injective : Function.Injective encode := by
  intro s t h
  rw [← decode_encode s, h, decode_encode]

end ToolchainHost.Utf8
