import Mathlib.Data.Nat.Digits.Defs
import Mathlib.Tactic.Common
import ToolchainHost.Json.Parser
import ToolchainHost.Json.Printer

/-!
# Strings and integers in JSON text

What was written is read back, whatever stands behind it.

* `Json.readString_quoteChars`: a string, with any characters in it.
* `Numeral.read_intChars`, `Numeral.number?_ofInt`: an integer that fits 64 bits.
-/

namespace ToolchainHost

/-! ### Strings -/

namespace Json

/-- The two digits that are written for a control character are read as its value. -/
lemma hex4?_control : ∀ n < 32, hex4? '0' '0' (Nat.digitChar (n / 16)) (Nat.digitChar (n % 16)) = some n := by
  decide

/-- One character is read back. -/
lemma readString_escape (acc : List Char) (c : Char) (rest : List Char) :
    readString false acc (escape c ++ rest) = readString false (c :: acc) rest := by
  have hval {n : Nat} (h : c.toNat = n) : c = Char.ofNat n := by rw [← h, Char.ofNat_toNat]
  unfold escape
  split_ifs with h1 h2 h3 h4 h5 h6 h7 h8
  · subst h1
    rfl
  · subst h2
    rfl
  · rw [hval h3]
    rfl
  · rw [hval h4]
    rfl
  · rw [hval h5]
    rfl
  · rw [hval h6]
    rfl
  · rw [hval h7]
    rfl
  · -- another control character, by its number
    have hhex := hex4?_control c.toNat h8
    have hbyte : (UInt8.ofNat c.toNat).toNat = c.toNat := by
      rw [UInt8.toNat_ofNat']
      omega
    have hhigh : isHighSurrogate c.toNat = false := by simp [isHighSurrogate]; omega
    have hlow : isLowSurrogate c.toNat = false := by simp [isLowSurrogate]; omega
    simp only [Hex.byteChars, hbyte, List.cons_append, List.nil_append]
    rw [readString]
    simp only [hhex, hhigh, hlow, Bool.false_eq_true, if_false, Char.ofNat_toNat]
  · simp only [List.cons_append, List.nil_append]
    rw [readString.eq_def]
    split <;> simp_all

/-- All characters are read back. -/
lemma readString_flatMap (acc cs rest : List Char) :
    readString false acc (cs.flatMap escape ++ '"' :: rest) = some (String.ofList (acc.reverse ++ cs), rest) := by
  induction cs generalizing acc with
  | nil =>
    rw [List.flatMap_nil, List.nil_append, List.append_nil]
    rfl
  | cons c cs ih =>
    rw [List.flatMap_cons, List.append_assoc, readString_escape, ih, List.reverse_cons, List.append_assoc]
    rfl

lemma quoteChars_append (s : String) (rest : List Char) :
    quoteChars s ++ rest = '"' :: (s.toList.flatMap escape ++ '"' :: rest) := by simp [quoteChars]

/-- **A string** is read back behind its quote. -/
theorem readString_toList (s : String) (rest : List Char) :
    readString false [] (s.toList.flatMap escape ++ '"' :: rest) = some (s, rest) := by
  rw [readString_flatMap, List.reverse_nil, List.nil_append, String.ofList_toList]

/-- A text that does not go on with what could belong to a number. -/
def Delimits (rest : List Char) : Prop :=
  ∀ c ∈ rest.head?, Numeral.isDigit c = false ∧ c ≠ '.' ∧ c ≠ 'e' ∧ c ≠ 'E'

lemma delimits_nil : Delimits [] := fun c hc => by cases hc

end Json

/-! ### Integers -/

namespace Numeral

open Json (Delimits)

variable {ds rest : List Char}

lemma isDigit_eq (c : Char) : isDigit c = c.isDigit := rfl

lemma value_eq (ds : List Char) : value ds = Nat.ofDigitChars 10 ds 0 := rfl

lemma value_toDigits (n : Nat) : value (Nat.toDigits 10 n) = n := by
  rw [value_eq, Nat.ofDigitChars_toDigits (by decide) (by decide)]

lemma isDigit_of_mem_toDigits {n : Nat} {c : Char} (hc : c ∈ Nat.toDigits 10 n) : isDigit c = true := by
  rw [isDigit_eq]
  exact Nat.isDigit_of_mem_toDigits (by decide) (by decide) hc

lemma head?_toDigits_append (n : Nat) (rest : List Char) :
    (Nat.toDigits 10 n ++ rest).head? = (Nat.toDigits 10 n).head? := by
  rw [List.head?_append, List.head?_eq_some_head Nat.toDigits_ne_nil]
  rfl

/-- A number that is written with several digits has no zero in front. -/
lemma head?_toDigits (n : Nat) : (Nat.toDigits 10 n).head? = some '0' → (Nat.toDigits 10 n).length = 1 := by
  induction n using Nat.strongRecOn with
  | ind n ih =>
    by_cases hn : n < 10
    · rw [Nat.toDigits_of_lt_base hn]
      exact fun _ => rfl
    · intro hz
      exfalso
      have hq : 0 < n / 10 := Nat.div_pos (by omega) (by decide)
      rw [Nat.toDigits_of_base_le (by decide) (by omega), head?_toDigits_append] at hz
      have hlen := ih (n / 10) (by omega) hz
      -- the quotient would be written with the single digit zero
      obtain ⟨c, hc⟩ := List.length_eq_one_iff.1 hlen
      rw [hc, List.head?_cons, Option.some.injEq] at hz
      have hvalue := value_toDigits (n / 10)
      rw [hc, hz] at hvalue
      exact absurd hvalue (Nat.ne_of_lt hq)

lemma readDigits_append (hd : ∀ c ∈ ds, isDigit c = true) (hne : ds ≠ []) (hr : Delimits rest) :
    readDigits (ds ++ rest) = some (ds, rest) := by
  have htake : rest.takeWhile isDigit = [] := by
    cases rest with
    | nil => rfl
    | cons c rest => rw [List.takeWhile_cons_of_neg (by rw [(hr c rfl).1]; decide)]
  have hdrop : rest.dropWhile isDigit = rest := by
    cases rest with
    | nil => rfl
    | cons c rest => rw [List.dropWhile_cons_of_neg (by rw [(hr c rfl).1]; decide)]
  unfold readDigits
  rw [List.takeWhile_append_of_pos hd, htake, List.append_nil, List.dropWhile_append_of_pos hd, hdrop]
  exact if_neg hne

lemma withExponent_of_delimits (n : Numeral) (hr : Delimits rest) : withExponent n rest = some (n, rest) := by
  unfold withExponent
  split
  · exact absurd rfl (hr _ rfl).2.2.1
  · exact absurd rfl (hr _ rfl).2.2.2
  · rfl

lemma withFraction_of_delimits (n : Numeral) (hr : Delimits rest) : withFraction n rest = some (n, rest) := by
  unfold withFraction
  split
  · exact absurd rfl (hr _ rfl).2.1
  · exact withExponent_of_delimits n hr

lemma readUnsigned_toDigits (negative : Bool) (n : Nat) (hr : Delimits rest) :
    readUnsigned negative (Nat.toDigits 10 n ++ rest) = some ({ negative, whole := Nat.toDigits 10 n }, rest) := by
  have hlen := head?_toDigits n
  rw [readUnsigned, readDigits_append (fun _ => isDigit_of_mem_toDigits) Nat.toDigits_ne_nil hr]
  dsimp only
  rw [if_neg fun hz => Nat.ne_of_gt hz.2 (hlen hz.1), withFraction_of_delimits _ hr]

/-- The spelling of an integer. -/
def ofInt (n : Int) : Numeral := { negative := decide (n < 0), whole := Nat.toDigits 10 n.natAbs }

/-- The spelling of an integer is read back. -/
theorem read_intChars (n : Int) (hr : Delimits rest) : read (Number.intChars n ++ rest) = some (ofInt n, rest) := by
  unfold Number.intChars ofInt
  split_ifs with hn
  · rw [List.cons_append, read, readUnsigned_toDigits true _ hr, decide_eq_true hn]
  · have hdigit : ∀ c ∈ (Nat.toDigits 10 n.natAbs ++ rest).head?, isDigit c = true := by
      intro c hc
      rw [head?_toDigits_append] at hc
      exact isDigit_of_mem_toDigits (List.mem_of_mem_head? hc)
    rw [read.eq_def]
    split
    · rename_i cs hcs
      rw [hcs] at hdigit
      exact absurd (hdigit '-' rfl) (by decide)
    · rw [readUnsigned_toDigits false _ hr, decide_eq_false hn]

/-- **An integer** that fits 64 bits, with or without a sign, is the number that its spelling stands for. -/
theorem number?_ofInt {n : Int} (h1 : -(limit / 2 : Nat) ≤ n) (h2 : n < (limit : Nat)) :
    (ofInt n).number? = some (.int n) := by
  have hv : value (Nat.toDigits 10 n.natAbs) = n.natAbs := value_toDigits _
  unfold number? ofInt
  dsimp only
  rw [hv]
  unfold limit at h1 h2 ⊢
  by_cases hn : n < 0
  · have hpos : 0 < n.natAbs ∧ n.natAbs ≤ 18446744073709551616 / 2 := by omega
    have hneg : -(n.natAbs : Int) = n := by omega
    rw [if_neg (by simp), if_neg (by simp [hn]), if_pos (by simp [hn, hpos]), hneg]
  · have hlt : n.natAbs < 18446744073709551616 := by omega
    have hself : (n.natAbs : Int) = n := by omega
    rw [if_neg (by simp), if_pos (by simp [hn, hlt]), hself]

end Numeral

end ToolchainHost
