import ToolchainHost.Failure

/-!
# Words and bytes

Numbers are stored with the low byte first.

* `Bytes.ofNat w n`: the lowest `w` bytes of `n`.
* `Bytes.toNat bs`: the number that `bs` store.
* `Word.add`: the sum of two 32-bit words, which fails where it does not fit.
-/

namespace ToolchainHost

namespace Bytes

/-- The lowest `width` bytes of `n`, the low byte first. -/
def ofNat : (width : Nat) → (n : Nat) → List UInt8
  | 0, _ => []
  | width + 1, n => UInt8.ofNat n :: ofNat width (n / 256)

/-- The number that bytes store, the low byte first. -/
def toNat : List UInt8 → Nat
  | [] => 0
  | b :: bs => b.toNat + 256 * toNat bs

theorem length_ofNat (width n : Nat) : (ofNat width n).length = width := by
  induction width generalizing n with
  | zero => rfl
  | succ w ih => simp [ofNat, ih]

/-- What is stored in `width` bytes is read back, up to the bytes that do not fit. -/
theorem toNat_ofNat (width n : Nat) : toNat (ofNat width n) = n % Nat.pow 256 width := by
  induction width generalizing n with
  | zero => simp [ofNat, toNat, Nat.mod_one]
  | succ w ih =>
    have h : n % (256 * Nat.pow 256 w) = n % 256 + 256 * (n / 256 % Nat.pow 256 w) := Nat.mod_mul
    have p : Nat.pow 256 (w + 1) = Nat.pow 256 w * 256 := rfl
    rw [ofNat, toNat, ih, p, Nat.mul_comm (Nat.pow 256 w), h]
    simp

end Bytes

namespace Word

/-- The number of words. -/
def count : Nat := 4294967296

/-- The sum of two words, if it is a word. -/
def add (a b : Nat) : Except Failure Nat :=
  if a + b < count then .ok (a + b) else .error .crash

theorem add_of_lt {a b : Nat} (h : a + b < count) : add a b = .ok (a + b) := by simp [add, h]

end Word

end ToolchainHost
