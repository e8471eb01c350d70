/-!
# Hexadecimal text

* `Hex.value?`: the value of a digit.
* `Hex.encode`, `Hex.decode?`: bytes as two digits each, and back.
-/

namespace ToolchainHost.Hex

/-- The value of a hexadecimal digit. -/
def value? (c : Char) : Option Nat :=
  if '0' ≤ c ∧ c ≤ '9' then some (c.toNat - '0'.toNat)
  else if 'a' ≤ c ∧ c ≤ 'f' then some (c.toNat - 'a'.toNat + 10)
  else if 'A' ≤ c ∧ c ≤ 'F' then some (c.toNat - 'A'.toNat + 10)
  else none

/-- The two small digits of a byte. -/
def byteChars (b : UInt8) : List Char := [Nat.digitChar (b.toNat / 16), Nat.digitChar (b.toNat % 16)]

/-- Bytes as two small digits each. -/
def encode (bytes : List UInt8) : String := String.ofList (bytes.flatMap byteChars)

/-- Reads pairs of digits onto the reversed bytes `acc`. -/
def decodeOnto (acc : List UInt8) : List Char → Option (List UInt8)
  | [] => some acc.reverse
  | [_] => none
  | c :: d :: cs =>
    match value? c, value? d with
    | some h, some l => decodeOnto (UInt8.ofNat (16 * h + l) :: acc) cs
    | _, _ => none

/-- The bytes that pairs of digits write. -/
def decode? (s : String) : Option (List UInt8) := decodeOnto [] s.toList

end ToolchainHost.Hex
