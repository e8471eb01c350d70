import Mathlib.Data.Nat.Bitwise
import Mathlib.Data.Nat.Digits.Lemmas
import Mathlib.Tactic.Ring
import ToolchainHost.Proofs.Module.Words

/-!
# Words in a register

A word is put together in a register of 32 bits, group by group. Nothing of it gets lost there: what the register
holds in the end is the number that the groups write.

* `gather`: a word as it is put together. `gather_eq`: what is gathered is what is read.
* `readAt`: a word at a position. `readAt_eq_ok`: what it is, and how far it goes.
* `padded`: the shortest bytes of a number, with groups of zeros behind them.
* `word_exact`: words at every position are read exactly, none is cut off, and every number is read back from its
  shortest bytes and from padded ones.
-/

namespace ToolchainHost.Module

variable {bytes bs used rest : List UInt8} {b : UInt8} {left n k position zeros : Nat}

/-! ### The register -/

/-- The place in the register of the group that `left` more may follow. -/
def place (left : Nat) : UInt32 := UInt32.ofNat (7 * (4 - left))

/-- Puts the groups of which `left` more bytes may be read into the register: each is shifted to its place, and the last
of five has room for four bits only. -/
def gather : (left : Nat) → (register : UInt32) → List UInt8 → Read UInt32
  | 0, _, _ => invalid "invalid LEB128"
  | _ + 1, _, [] => invalid "unexpected end of module"
  | left + 1, register, b :: rest =>
    let bits := (b &&& 0x7F).toUInt32
    if place left = 28 ∧ 0x0F < bits then invalid "LEB128 value exceeds 32 bits"
    else
      let register := register ||| (bits <<< place left)
      if b &&& 0x80 = 0 then .ok (register, rest) else gather left register rest

lemma toNat_bits (b : UInt8) : (b &&& 0x7F).toUInt32.toNat = b.toNat % 128 := by
  rw [UInt8.toNat_toUInt32, UInt8.toNat_and]
  exact Nat.and_two_pow_sub_one_eq_mod b.toNat 7

/-- The high bit of a byte says whether it is less than 128. -/
lemma and_highBit_eq_zero (b : UInt8) : b &&& 0x80 = 0 ↔ b < 128 := by
  have hbit : (b &&& 0x80).toNat = (b.toNat.testBit 7).toNat * 128 := by
    rw [UInt8.toNat_and]
    exact Nat.and_two_pow b.toNat 7
  have hlt : b.toNat < 256 := b.toNat_lt
  rw [← UInt8.toNat_inj, hbit, UInt8.lt_iff_toNat_lt, Nat.testBit_eq_decide_div_mod_eq]
  change _ = 0 ↔ b.toNat < 128
  by_cases hb : b.toNat / 128 % 2 = 1
  · rw [decide_eq_true hb]
    exact iff_of_false (by decide) (by omega)
  · rw [decide_eq_false hb]
    exact iff_of_true (by decide) (by omega)

lemma toNat_place (left : Nat) : (place left).toNat = 7 * (4 - left) := by
  rw [place, UInt32.toNat_ofNat']
  omega

/-- A group is shifted to its place whole if it is less than what is left of the register there. -/
lemma toNat_shiftLeft_place {bits : UInt32} (h : bits.toNat * 2 ^ (7 * (4 - left)) < Word.count) :
    (bits <<< place left).toNat = bits.toNat * 2 ^ (7 * (4 - left)) := by
  rw [UInt32.toNat_shiftLeft, toNat_place, Nat.mod_eq_of_lt (by omega : 7 * (4 - left) < 32), Nat.shiftLeft_eq]
  exact Nat.mod_eq_of_lt h

/-- A group that is put behind those before it covers none of their bits. -/
lemma toNat_or_shiftLeft {register bits : UInt32} (hr : register.toNat < 2 ^ (7 * (4 - left)))
    (h : bits.toNat * 2 ^ (7 * (4 - left)) < Word.count) :
    (register ||| (bits <<< place left)).toNat = register.toNat + 2 ^ (7 * (4 - left)) * bits.toNat := by
  rw [UInt32.toNat_or, toNat_shiftLeft_place h, Nat.mul_comm bits.toNat, Nat.or_comm,
    ← Nat.two_pow_add_eq_or_of_lt hr, Nat.add_comm]

/-- A group that is not refused has room behind those before it. -/
lemma bits_mul_lt (hleft : left ≤ 4) (hroom : ¬ (left = 0 ∧ 15 < n)) (hn : n < 128) :
    n * 2 ^ (7 * (4 - left)) < Word.count := by
  by_cases h0 : left = 0
  · subst h0
    have hn' : n ≤ 15 := by omega
    exact Nat.lt_of_le_of_lt (Nat.mul_le_mul_right _ hn') (by decide)
  · have hpow : 2 ^ (7 * (4 - left)) ≤ 2 ^ 21 := Nat.pow_le_pow_right (by decide) (by omega)
    exact Nat.lt_of_le_of_lt (Nat.mul_le_mul (Nat.le_of_lt hn) hpow) (by decide)

/-- **What is gathered is what is read**: the groups that follow are behind what the register holds. -/
theorem gather_eq (hleft : left ≤ 5) (register : UInt32) (hr : register.toNat < 2 ^ (7 * (5 - left)))
    (bytes : List UInt8) :
    (gather left register bytes).map (fun found => (found.1.toNat, found.2)) =
      (readGroups left bytes).map fun found => (register.toNat + 2 ^ (7 * (5 - left)) * found.1, found.2) := by
  induction left generalizing register bytes with
  | zero => rfl
  | succ left ih =>
    cases bytes with
    | nil => rfl
    | cons b bytes =>
      have hrefused : (place left = 28 ∧ 0x0F < (b &&& 0x7F).toUInt32) ↔ left = 0 ∧ 15 < b.toNat % 128 := by
        rw [← UInt32.toNat_inj, toNat_place, UInt32.lt_iff_toNat_lt, toNat_bits]
        change _ = 28 ∧ 15 < _ ↔ _
        omega
      rw [gather, readGroups]
      by_cases hroom : left = 0 ∧ 15 < b.toNat % 128
      · rw [if_pos hroom, if_pos (hrefused.2 hroom)]
        rfl
      · rw [if_neg hroom, if_neg (mt hrefused.1 hroom)]
        have hpow : 2 ^ (7 * (5 - left)) = 2 ^ (7 * (4 - left)) * 128 := by
          rw [show 7 * (5 - left) = 7 * (4 - left) + 7 by omega, Nat.pow_add]
        have hshift : 5 - (left + 1) = 4 - left := by omega
        rw [hshift] at hr ⊢
        have hsum : (register ||| ((b &&& 0x7F).toUInt32 <<< place left)).toNat =
            register.toNat + 2 ^ (7 * (4 - left)) * (b.toNat % 128) := by
          rw [toNat_or_shiftLeft hr, toNat_bits]
          rw [toNat_bits]
          exact bits_mul_lt (by omega) hroom (Nat.mod_lt _ (by decide))
        by_cases hlast : b < 128
        · rw [if_pos hlast, if_pos ((and_highBit_eq_zero b).2 hlast)]
          exact congrArg (fun value => Except.ok (value, bytes)) hsum
        · rw [if_neg hlast, if_neg (mt (and_highBit_eq_zero b).1 hlast)]
          have hlt : register.toNat + 2 ^ (7 * (4 - left)) * (b.toNat % 128) < 2 ^ (7 * (5 - left)) := by
            have hbits : b.toNat % 128 + 1 ≤ 128 := Nat.mod_lt _ (by decide)
            calc register.toNat + 2 ^ (7 * (4 - left)) * (b.toNat % 128)
                < 2 ^ (7 * (4 - left)) + 2 ^ (7 * (4 - left)) * (b.toNat % 128) := Nat.add_lt_add_right hr _
              _ = 2 ^ (7 * (4 - left)) * (b.toNat % 128 + 1) := by ring
              _ ≤ 2 ^ (7 * (4 - left)) * 128 := Nat.mul_le_mul_left _ hbits
              _ = 2 ^ (7 * (5 - left)) := hpow.symm
          rw [ih (by omega) _ (by rw [hsum]; exact hlt), hsum, hpow]
          cases readGroups left bytes with
          | error f => rfl
          | ok found =>
            refine congrArg (fun value => Except.ok (value, found.2)) ?_
            ring

/-- A word is gathered as it is read. -/
theorem gather_word (bytes : List UInt8) :
    (gather 5 0 bytes).map (fun found => (found.1.toNat, found.2)) = readWord bytes := by
  rw [gather_eq (Nat.le_refl 5) 0 (by decide), readWord]
  cases readGroups 5 bytes with
  | error f => rfl
  | ok found =>
    refine congrArg (fun value => Except.ok (value, found.2)) ?_
    change 0 + 1 * found.1 = found.1
    omega

/-! ### Positions -/

/-- Reads the word at a position, and gives the position behind it. -/
def readAt (bytes : List UInt8) (position : Nat) : Except Failure (Nat × Nat) :=
  (readWord (bytes.drop position)).map fun found => (found.1, bytes.length - found.2.length)

/-- What is read at a position is written by the bytes up to those that are left. -/
lemma exists_writes_of_readWord (h : readWord (bytes.drop position) = .ok (n, rest)) :
    ∃ k, position + k + rest.length = bytes.length ∧ WritesWord ((bytes.drop position).take k) n := by
  obtain ⟨used, hw, hbytes⟩ := (reads_readWord _ n rest).1 h
  have hlen := congrArg List.length hbytes
  obtain ⟨b, hb, -⟩ := hw.last
  have hused : 0 < used.length := List.length_pos_of_mem (List.mem_of_getLast? hb)
  rw [List.length_drop, List.length_append] at hlen
  refine ⟨used.length, by omega, ?_⟩
  rw [hbytes, List.take_left]
  exact hw

/-- A word is read at a position iff it is written there, and the position moves by its bytes. -/
theorem readAt_eq_ok :
    readAt bytes position = .ok (n, position + k) ↔
      position + k ≤ bytes.length ∧ WritesWord ((bytes.drop position).take k) n := by
  unfold readAt
  constructor
  · intro h
    cases hr : readWord (bytes.drop position) with
    | error f =>
      rw [hr] at h
      cases h
    | ok found =>
      rw [hr] at h
      obtain ⟨rfl, hend⟩ := Prod.mk.inj (Except.ok.inj h)
      obtain ⟨count, hlen, hw⟩ := exists_writes_of_readWord hr
      obtain rfl : k = count := by omega
      exact ⟨by omega, hw⟩
  · rintro ⟨hle, hw⟩
    rw [(reads_readWord _ n ((bytes.drop position).drop k)).2 ⟨_, hw, (List.take_append_drop ..).symm⟩]
    have hend : bytes.length - ((bytes.drop position).drop k).length = position + k := by
      rw [List.length_drop, List.length_drop]
      omega
    exact congrArg (fun stop => Except.ok (n, stop)) hend

/-- Bytes that write no word are refused as no module. -/
lemma readAt_of_not_writes
    (h : ¬ ∃ n k, position + k ≤ bytes.length ∧ WritesWord ((bytes.drop position).take k) n) :
    ∃ reason, readAt bytes position = .error (.invalidModule reason) := by
  cases hr : readWord (bytes.drop position) with
  | error f =>
    obtain ⟨reason, rfl⟩ := strict_readWord _ f hr
    exact ⟨reason, by rw [readAt, hr]; rfl⟩
  | ok found =>
    obtain ⟨k, hlen, hw⟩ := exists_writes_of_readWord hr
    exact absurd ⟨found.1, k, by omega, hw⟩ h

/-! ### Shortest and padded bytes -/

lemma writesGroups_wordGroups (hpos : 0 < left) (hn : n < 16 * 128 ^ (left - 1)) :
    WritesGroups left (wordGroups left n) n := by
  induction left generalizing n with
  | zero => exact absurd hpos (Nat.lt_irrefl 0)
  | succ left ih =>
    rw [Nat.add_sub_cancel] at hn
    rw [wordGroups]
    split_ifs with hsmall
    · have hb : (UInt8.ofNat n).toNat = n := Nat.mod_eq_of_lt (by omega)
      refine writesGroups_singleton.2 ⟨by omega, hb, ?_⟩
      rintro rfl
      exact hn
    · cases left with
      | zero => exact absurd (Nat.lt_trans hn (by decide)) hsmall
      | succ left =>
        have hb : (UInt8.ofNat (n % 128 + 128)).toNat = n % 128 + 128 := Nat.mod_eq_of_lt (by omega)
        have hhigh : n / 128 < 16 * 128 ^ left := by
          rw [Nat.pow_succ] at hn
          omega
        have hw := ih (Nat.succ_pos left) hhigh
        refine (writesGroups_cons hw.ne_nil).2 ⟨by omega, n / 128, hw, ?_⟩
        omega

/-- No bytes that write a number are fewer. -/
lemma length_wordGroups_le (h : WritesGroups left bytes n) : (wordGroups left n).length ≤ bytes.length := by
  induction left generalizing bytes n with
  | zero => exact Nat.zero_le _
  | succ left ih =>
    obtain ⟨b, bs, rfl⟩ := List.exists_cons_of_ne_nil h.ne_nil
    rw [wordGroups]
    split_ifs with hsmall
    · exact Nat.succ_le_succ (Nat.zero_le _)
    · by_cases hne : bs = []
      · subst hne
        obtain ⟨hlast, hvalue, -⟩ := writesGroups_singleton.1 h
        exact absurd (hvalue ▸ hlast) hsmall
      · obtain ⟨-, high, hw, hvalue⟩ := (writesGroups_cons hne).1 h
        obtain rfl : high = n / 128 := by omega
        exact Nat.succ_le_succ (ih hw)

lemma writesWord_wordBytes (hn : n < Word.count) : WritesWord (wordBytes n) n :=
  writesWord_iff.2 (writesGroups_wordGroups (by decide) hn)

/-- **The bytes of a word are the shortest** that write it. -/
theorem length_wordBytes_le (h : WritesWord used n) : (wordBytes n).length ≤ used.length :=
  length_wordGroups_le (writesWord_iff.1 h)

/-- The shortest bytes of a number with groups of zeros behind them. -/
def padded (n : Nat) : (zeros : Nat) → List UInt8
  | 0 => wordBytes n
  | zeros + 1 => (wordBytes n).map (· ||| 0x80) ++ List.replicate zeros 0x80 ++ [0]

lemma toNat_or_highBit (b : UInt8) : 128 ≤ (b ||| 0x80).toNat ∧ (b ||| 0x80).toNat % 128 = b.toNat % 128 := by
  rw [UInt8.toNat_or]
  constructor
  · exact Nat.right_le_or
  · exact (Nat.or_mod_two_pow (n := 7)).trans (Nat.or_zero _)

/-- Padded bytes write the same number. -/
theorem writesWord_padded (hn : n < Word.count) (hlen : (wordBytes n).length + zeros ≤ 5) :
    WritesWord (padded n zeros) n := by
  have hw := writesWord_wordBytes hn
  cases zeros with
  | zero => exact hw
  | succ zeros =>
    refine ⟨?_, ?_, ⟨0, ?_, by decide⟩, ?_, hn⟩
    · simp [padded]
      omega
    · rw [padded, List.dropLast_concat]
      refine List.forall_mem_append.2 ⟨?_, fun b hb => ?_⟩
      · intro b hb
        obtain ⟨c, -, rfl⟩ := List.mem_map.1 hb
        exact (toNat_or_highBit c).1
      · rw [List.eq_of_mem_replicate hb]
        decide
    · rw [padded, List.getLast?_concat]
    · have hgroups : ((wordBytes n).map (· ||| 0x80)).map (·.toNat % 128) = (wordBytes n).map (·.toNat % 128) := by
        rw [List.map_map]
        exact List.map_congr_left fun b _ => (toNat_or_highBit b).2
      have hzeros : (List.replicate zeros (0x80 : UInt8) ++ [0]).map (fun b : UInt8 => b.toNat % 128) =
          List.replicate (zeros + 1) 0 := by
        rw [List.map_append, List.map_replicate, List.replicate_succ']
        rfl
      rw [padded, List.append_assoc, List.map_append, hgroups, hzeros, Nat.ofDigits_append, hw.value,
        Nat.ofDigits_replicate_zero, Nat.mul_zero, Nat.add_zero]

/-- **Words are read exactly.** At every position a word is read iff it is written there by one to five bytes, of which
all but the last have their high bit set; the position moves by these bytes, and all else is refused as no module. A
register of 32 bits holds each of its groups whole and gives the same number as their sum. Every number of 32 bits is
read back from its bytes, which are the shortest that are read as it, and from these with groups of zeros behind them,
up to five in all. -/
theorem word_exact (bytes : List UInt8) (position : Nat) :
    (∀ n k, readAt bytes position = .ok (n, position + k) ↔
      position + k ≤ bytes.length ∧ WritesWord ((bytes.drop position).take k) n) ∧
    ((¬ ∃ n k, position + k ≤ bytes.length ∧ WritesWord ((bytes.drop position).take k) n) →
      ∃ reason, readAt bytes position = .error (.invalidModule reason)) ∧
    (gather 5 0 (bytes.drop position)).map (fun found => (found.1.toNat, found.2)) = readWord (bytes.drop position) ∧
    ∀ n < Word.count,
      (∀ zeros, (wordBytes n).length + zeros ≤ 5 → ∀ rest, readWord (padded n zeros ++ rest) = .ok (n, rest)) ∧
      ∀ used rest, readWord (used ++ rest) = .ok (n, rest) → (wordBytes n).length ≤ used.length := by
  refine ⟨fun n k => readAt_eq_ok, readAt_of_not_writes, gather_word _, fun n hn => ⟨?_, ?_⟩⟩
  · intro zeros hlen rest
    exact (reads_readWord _ n rest).2 ⟨_, writesWord_padded hn hlen, rfl⟩
  · intro used rest h
    obtain ⟨used', hw, hused⟩ := (reads_readWord _ n rest).1 h
    rw [List.append_cancel_right hused]
    exact length_wordBytes_le hw

/-- A number of three bytes, read from them and with two groups of zeros behind them; and bytes that break off. -/
theorem word_exact_padded :
    readWord ([0xE5, 0x8E, 0xA6, 0x80, 0x00] ++ [7]) = .ok (624485, [7]) ∧
      ∃ reason, readAt [0x2A, 0x80, 0x80] 1 = .error (.invalidModule reason) := by
  have hexact := word_exact [0x2A, 0x80, 0x80] 1
  refine ⟨(hexact.2.2.2 624485 (by decide)).1 2 (by decide) [7], hexact.2.1 ?_⟩
  rintro ⟨n, k, hk, hw⟩
  obtain ⟨b, hb, hlast⟩ := hw.last
  have hmem : b ∈ [0x80, 0x80] := List.mem_of_mem_take (List.mem_of_getLast? hb)
  rcases List.mem_pair.1 hmem with rfl | rfl
  · exact absurd hlast (by decide)
  · exact absurd hlast (by decide)

end ToolchainHost.Module
