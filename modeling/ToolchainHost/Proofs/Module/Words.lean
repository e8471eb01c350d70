import Mathlib.Data.Nat.Digits.Defs
import Mathlib.Tactic.Common
import ToolchainHost.Bytes
import ToolchainHost.Module.Leb128

/-!
# Words in a module

* `Reads`: a reader takes exactly what a grammar writes. `Strict`: what it refuses is no module.
* `WritesWord`: the bytes that write a word, and `reads_readWord`.
* `WritesSized`: bytes with their length before them, and `reads_readSized`.
-/

namespace ToolchainHost.Module

/-- A reader takes exactly the bytes that a grammar allows, whatever is behind them. -/
def Reads {α : Type} (read : List UInt8 → Read α) (writes : List UInt8 → α → Prop) : Prop :=
  ∀ bytes a rest, read bytes = .ok (a, rest) ↔ ∃ used, writes used a ∧ bytes = used ++ rest

/-- The failure says that the bytes are no module. -/
def Refuses (f : Failure) : Prop := ∃ reason, f = .invalidModule reason

/-- What is refused is no module. -/
def Strict {α : Type} (read : List UInt8 → Read α) : Prop := ∀ bytes f, read bytes = .error f → Refuses f

section Bind

variable {α β : Type} {x : Except Failure α} {g : α → Except Failure β} {f : Failure}

lemma bind_eq_ok {b : β} : (x >>= g) = .ok b ↔ ∃ a, x = .ok a ∧ g a = .ok b := by
  cases x <;> simp [bind, Except.bind]

lemma bind_eq_error : (x >>= g) = .error f ↔ x = .error f ∨ ∃ a, x = .ok a ∧ g a = .error f := by
  cases x <;> simp [bind, Except.bind]

end Bind

variable {bytes bs rest : List UInt8} {b : UInt8} {left n : Nat}

lemma reads_readByte : Reads readByte fun used b => used = [b] := by
  intro bytes b rest
  cases bytes <;> simp [readByte, invalid]

lemma strict_readByte : Strict readByte := by
  intro bytes f h
  cases bytes with
  | nil =>
    cases h
    exact ⟨_, rfl⟩
  | cons b bytes => cases h

/-! ### Groups -/

/-- The bytes that write a number in at most `left` groups of seven bits, the low group first. All but the last have
their high bit set, and the last of as many as there may be has room for four bits. -/
structure WritesGroups (left : Nat) (bytes : List UInt8) (n : Nat) : Prop where
  length_le : bytes.length ≤ left
  more : ∀ b ∈ bytes.dropLast, 128 ≤ b.toNat
  last : ∃ b, bytes.getLast? = some b ∧ b.toNat < 128
  value : Nat.ofDigits 128 (bytes.map (·.toNat % 128)) = n
  lt : n < 16 * 128 ^ (left - 1)

lemma WritesGroups.ne_nil (h : WritesGroups left bytes n) : bytes ≠ [] := by
  rintro rfl
  obtain ⟨b, hb, -⟩ := h.last
  cases hb

lemma writesGroups_singleton :
    WritesGroups (left + 1) [b] n ↔ b.toNat < 128 ∧ b.toNat = n ∧ (left = 0 → n < 16) := by
  constructor
  · intro h
    obtain ⟨c, hc, hlast⟩ := h.last
    obtain rfl : b = c := Option.some.inj hc
    have hvalue := h.value
    have hlt := h.lt
    rw [List.map_singleton, Nat.ofDigits_singleton, Nat.mod_eq_of_lt hlast] at hvalue
    refine ⟨hlast, hvalue, ?_⟩
    rintro rfl
    exact hlt
  · rintro ⟨hlast, rfl, hlt⟩
    refine ⟨by simp, by simp, ⟨b, rfl, hlast⟩, ?_, ?_⟩
    · rw [List.map_singleton, Nat.ofDigits_singleton, Nat.mod_eq_of_lt hlast]
    · rw [Nat.add_sub_cancel]
      cases left with
      | zero => exact hlt rfl
      | succ left =>
        have hpos : 0 < 128 ^ left := Nat.pow_pos (by decide)
        rw [Nat.pow_succ]
        omega

lemma writesGroups_cons (hne : bs ≠ []) :
    WritesGroups (left + 1) (b :: bs) n ↔
      128 ≤ b.toNat ∧ ∃ high, WritesGroups left bs high ∧ b.toNat % 128 + 128 * high = n := by
  have hdrop : (b :: bs).dropLast = b :: bs.dropLast := List.dropLast_cons_of_ne_nil hne
  have hlast : (b :: bs).getLast? = bs.getLast? := by
    rw [List.getLast?_cons, List.getLast?_eq_some_getLast hne, Option.getD_some]
  have hpow (hl : bs.length ≤ left) : 16 * 128 ^ (left + 1 - 1) = 128 * (16 * 128 ^ (left - 1)) := by
    have hpos := List.length_pos_iff.2 hne
    obtain ⟨k, rfl⟩ : ∃ k, left = k + 1 := ⟨left - 1, by omega⟩
    rw [Nat.add_sub_cancel, Nat.add_sub_cancel, Nat.pow_succ]
    omega
  constructor
  · intro h
    have hl := h.length_le
    have hvalue := h.value
    have hlt := h.lt
    rw [List.length_cons] at hl
    rw [List.map_cons, Nat.ofDigits_cons] at hvalue
    rw [hpow (by omega)] at hlt
    have hmore := h.more
    rw [hdrop] at hmore
    refine ⟨hmore b List.mem_cons_self, Nat.ofDigits 128 (bs.map (·.toNat % 128)), ?_, hvalue⟩
    refine ⟨by omega, fun c hc => hmore c (List.mem_cons_of_mem _ hc), hlast ▸ h.last, rfl, ?_⟩
    omega
  · rintro ⟨hb, high, h, rfl⟩
    have hl := h.length_le
    have hlt := h.lt
    refine ⟨by rw [List.length_cons]; omega, ?_, hlast ▸ h.last, ?_, ?_⟩
    · rw [hdrop]
      exact List.forall_mem_cons.2 ⟨hb, h.more⟩
    · rw [List.map_cons, Nat.ofDigits_cons, h.value]
    · rw [hpow hl]
      omega

/-- What is written begins with the first byte, and that is all if it is the last. -/
lemma exists_writesGroups_cons :
    (∃ used, WritesGroups (left + 1) used n ∧ b :: bytes = used ++ rest) ↔
      WritesGroups (left + 1) [b] n ∧ bytes = rest ∨
        128 ≤ b.toNat ∧ ∃ high used, WritesGroups left used high ∧ b.toNat % 128 + 128 * high = n ∧
          bytes = used ++ rest := by
  constructor
  · rintro ⟨used, h, heq⟩
    obtain ⟨c, used, rfl⟩ := List.exists_cons_of_ne_nil h.ne_nil
    obtain ⟨rfl, rfl⟩ := List.cons.inj heq
    by_cases hne : used = []
    · subst hne
      exact Or.inl ⟨h, rfl⟩
    · obtain ⟨hc, high, hw, hn⟩ := (writesGroups_cons hne).1 h
      exact Or.inr ⟨hc, high, used, hw, hn, rfl⟩
  · rintro (⟨h, rfl⟩ | ⟨hc, high, used, hw, hn, rfl⟩)
    · exact ⟨[b], h, rfl⟩
    · exact ⟨b :: used, (writesGroups_cons hw.ne_nil).2 ⟨hc, high, hw, hn⟩, rfl⟩

/-- The groups of a number are read exactly. -/
lemma reads_readGroups (left : Nat) : Reads (readGroups left) (WritesGroups left) := by
  induction left with
  | zero =>
    refine fun bytes n rest => iff_of_false (by rintro ⟨⟩) ?_
    rintro ⟨used, h, -⟩
    exact h.ne_nil (List.eq_nil_of_length_eq_zero (Nat.le_zero.1 h.length_le))
  | succ left ih =>
    intro bytes n rest
    cases bytes with
    | nil =>
      refine iff_of_false (by rintro ⟨⟩) ?_
      rintro ⟨used, h, hused⟩
      exact h.ne_nil (List.append_eq_nil_iff.1 hused.symm).1
    | cons b bytes =>
      have hb : b < 128 ↔ b.toNat < 128 := UInt8.lt_iff_toNat_lt
      rw [exists_writesGroups_cons, writesGroups_singleton, readGroups]
      by_cases hroom : left = 0 ∧ 15 < b.toNat % 128
      · rw [if_pos hroom]
        refine iff_of_false (by rintro ⟨⟩) ?_
        rintro (⟨⟨hlast, hn, hlt⟩, -⟩ | ⟨-, high, used, hw, -⟩)
        · have := hlt hroom.1
          omega
        · have hl := hw.length_le
          rw [hroom.1] at hl
          exact hw.ne_nil (List.eq_nil_of_length_eq_zero (Nat.le_zero.1 hl))
      · rw [if_neg hroom]
        by_cases hlast : b < 128
        · have hlast' := hb.1 hlast
          rw [if_pos hlast, Except.ok.injEq, Prod.mk.injEq, Nat.mod_eq_of_lt hlast']
          constructor
          · rintro ⟨rfl, rfl⟩
            refine Or.inl ⟨⟨hlast', rfl, fun h0 => ?_⟩, rfl⟩
            omega
          · rintro (⟨⟨-, rfl, -⟩, rfl⟩ | ⟨hc, -⟩)
            · exact ⟨rfl, rfl⟩
            · omega
        · have hlast' := mt hb.2 hlast
          rw [if_neg hlast]
          constructor
          · intro h
            cases hr : readGroups left bytes with
            | error f =>
              rw [hr] at h
              cases h
            | ok found =>
              rw [hr] at h
              cases h
              obtain ⟨used, hw, hbytes⟩ := (ih bytes found.1 found.2).1 hr
              exact Or.inr ⟨by omega, found.1, used, hw, rfl, hbytes⟩
          · rintro (⟨⟨hc, -⟩, -⟩ | ⟨-, high, used, hw, rfl, hbytes⟩)
            · exact absurd hc hlast'
            · rw [(ih bytes high rest).2 ⟨used, hw, hbytes⟩]

lemma strict_readGroups (left : Nat) : Strict (readGroups left) := by
  induction left with
  | zero =>
    intro bytes f h
    cases h
    exact ⟨_, rfl⟩
  | succ left ih =>
    intro bytes f h
    cases bytes with
    | nil =>
      cases h
      exact ⟨_, rfl⟩
    | cons b bytes =>
      rw [readGroups] at h
      split_ifs at h
      · cases h
        exact ⟨_, rfl⟩
      · cases hr : readGroups left bytes with
        | error e =>
          rw [hr] at h
          cases h
          exact ih bytes f hr
        | ok found =>
          rw [hr] at h
          cases h

/-! ### Words -/

/-- **The bytes that write a word**: one to five bytes whose low seven bits are its digits, the lowest first. All but
the last have their high bit set. -/
structure WritesWord (bytes : List UInt8) (n : Nat) : Prop where
  length_le : bytes.length ≤ 5
  more : ∀ b ∈ bytes.dropLast, 128 ≤ b.toNat
  last : ∃ b, bytes.getLast? = some b ∧ b.toNat < 128
  value : Nat.ofDigits 128 (bytes.map (·.toNat % 128)) = n
  lt : n < Word.count

lemma writesWord_iff : WritesWord bytes n ↔ WritesGroups 5 bytes n := by
  have hcount : 16 * 128 ^ (5 - 1) = Word.count := by decide
  constructor
  · intro h
    exact ⟨h.length_le, h.more, h.last, h.value, hcount ▸ h.lt⟩
  · intro h
    exact ⟨h.length_le, h.more, h.last, h.value, hcount ▸ h.lt⟩

/-- **Words are read exactly.** -/
theorem reads_readWord : Reads readWord WritesWord := by
  intro bytes n rest
  rw [readWord, reads_readGroups]
  exact exists_congr fun used => and_congr_left' writesWord_iff.symm

theorem strict_readWord : Strict readWord := strict_readGroups 5

/-! ### Bytes with their length before them -/

/-- The bytes that write other bytes with their length before them. -/
inductive WritesSized : List UInt8 → List UInt8 → Prop
  | mk {count body : List UInt8} (h : WritesWord count body.length) : WritesSized (count ++ body) body

variable {what : String}

lemma readBytes_eq_ok {count : Nat} {body : List UInt8} :
    readBytes what count bytes = .ok (body, rest) ↔ bytes = body ++ rest ∧ body.length = count := by
  rw [readBytes]
  simp only [reaches_iff]
  constructor
  · intro h
    split_ifs at h with hle
    · cases h
      exact ⟨(List.take_append_drop count bytes).symm, List.length_take_of_le hle⟩
    · cases h
  · rintro ⟨rfl, rfl⟩
    rw [if_pos (by simp), List.take_left, List.drop_left]

theorem reads_readSized (what : String) : Reads (readSized what) WritesSized := by
  intro bytes body rest
  rw [readSized]
  constructor
  · intro h
    cases hr : readWord bytes with
    | error f =>
      rw [hr] at h
      cases h
    | ok found =>
      rw [hr] at h
      obtain ⟨hrest, hlen⟩ := readBytes_eq_ok.1 h
      obtain ⟨used, hw, hbytes⟩ := (reads_readWord bytes found.1 found.2).1 hr
      refine ⟨used ++ body, .mk (hlen ▸ hw), ?_⟩
      rw [hbytes, hrest, List.append_assoc]
  · rintro ⟨used, ⟨hw⟩, rfl⟩
    rename_i count
    rw [(reads_readWord _ body.length (body ++ rest)).2 ⟨count, hw, List.append_assoc ..⟩]
    exact readBytes_eq_ok.2 ⟨rfl, rfl⟩

theorem strict_readSized (what : String) : Strict (readSized what) := by
  intro bytes f h
  rw [readSized] at h
  cases hr : readWord bytes with
  | error e =>
    rw [hr] at h
    cases h
    exact strict_readWord bytes f hr
  | ok found =>
    rw [hr] at h
    dsimp only at h
    rw [readBytes] at h
    split_ifs at h
    cases h
    exact ⟨_, rfl⟩

end ToolchainHost.Module
