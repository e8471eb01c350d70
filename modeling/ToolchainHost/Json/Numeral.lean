import ToolchainHost.Json.Value
import ToolchainHost.Text.Decimal

/-!
# Numbers in JSON text

* `Numeral.read`: the spelling of a number at the front of a text.
* `Numeral.number?`: the number it stands for. An integer that fits 64 bits is kept exactly. Any other numeral
  is a double: its leading digits that fit 64 bits, scaled by one power of ten. A numeral beyond the largest
  double stands for none.
* `Number.chars`: the text of a number. A double has the fewest digits that are read back, with a point where
  the first digit stands at most sixteen places before it or five behind it, else with an exponent.
-/

namespace ToolchainHost

/-- The spelling of a number. -/
structure Numeral where
  negative : Bool
  whole : List Char
  fraction : List Char := []
  hasFraction : Bool := false
  /-- The sign and the digits of the exponent. -/
  exponent : Option (Bool × List Char) := none
  deriving DecidableEq, Repr

namespace Numeral

/-- The decimal digits. -/
def isDigit (c : Char) : Bool := '0' ≤ c && c ≤ '9'

/-- The value of a decimal digit. -/
def digitValue (c : Char) : Nat := c.toNat - '0'.toNat

/-- The value of digits. -/
def value (digits : List Char) : Nat := digits.foldl (fun n c => 10 * n + digitValue c) 0

/-- The digits at the front, of which there must be one, and what follows them. -/
def readDigits (cs : List Char) : Option (List Char × List Char) :=
  let digits := cs.takeWhile isDigit
  if digits = [] then none else some (digits, cs.dropWhile isDigit)

/-- Reads the exponent behind its letter. -/
def readExponent (cs : List Char) : Option ((Bool × List Char) × List Char) :=
  match cs with
  | '-' :: cs => (readDigits cs).map fun (ds, rest) => ((true, ds), rest)
  | '+' :: cs => (readDigits cs).map fun (ds, rest) => ((false, ds), rest)
  | cs => (readDigits cs).map fun (ds, rest) => ((false, ds), rest)

/-- Adds the exponent at the front, if there is one. -/
def withExponent (n : Numeral) (cs : List Char) : Option (Numeral × List Char) :=
  match cs with
  | 'e' :: cs | 'E' :: cs => (readExponent cs).map fun (e, rest) => ({ n with exponent := some e }, rest)
  | cs => some (n, cs)

/-- Adds the fraction and the exponent at the front, if there are any. -/
def withFraction (n : Numeral) (cs : List Char) : Option (Numeral × List Char) :=
  match cs with
  | '.' :: cs =>
    match readDigits cs with
    | some (ds, rest) => withExponent { n with fraction := ds, hasFraction := true } rest
    | none => none
  | cs => withExponent n cs

/-- Reads a numeral without its sign; a zero in front must stand alone. -/
def readUnsigned (negative : Bool) (cs : List Char) : Option (Numeral × List Char) :=
  match readDigits cs with
  | some (ds, rest) =>
    if ds.head? = some '0' ∧ 1 < ds.length then none else withFraction { negative, whole := ds } rest
  | none => none

/-- The numeral at the front of a text. -/
def read (cs : List Char) : Option (Numeral × List Char) :=
  match cs with
  | '-' :: cs => readUnsigned true cs
  | cs => readUnsigned false cs

/-- The number of unsigned 64-bit integers. -/
def limit : Nat := 18446744073709551616

/-- The leading digits that fit 64 bits, and how many digits are left. -/
def significand (n : Nat) : List Char → Nat × Nat
  | [] => (n, 0)
  | c :: cs =>
    let m := 10 * n + digitValue c
    if m < limit then significand m cs else (n, cs.length + 1)

/-- The power of ten `10 ^ n` as a double, for `n` up to 308. -/
def power (n : Nat) : Float := Float.ofScientific 1 false n

/-- The largest power of ten of a double. -/
def largestPower : Nat := 308

/-- Scales `x` by `10 ^ e` in steps a double can take; `none` where the result is too large. -/
def scale : (fuel : Nat) → (x : Float) → (e : Int) → Option Float
  | 0, _, _ => some 0
  | fuel + 1, x, e =>
    if e.natAbs ≤ largestPower then
      if 0 ≤ e then
        let y := x * power e.natAbs
        if y.isInf then none else some y
      else some (x / power e.natAbs)
    else if x == 0 then some x
    else if 0 ≤ e then none
    else scale fuel (x / power largestPower) (e + largestPower)

/-- The double a numeral stands for. -/
def double? (n : Numeral) : Option UInt64 :=
  let (whole, dropped) := significand 0 n.whole
  let (digits, left) := significand whole n.fraction
  let written : Int :=
    match n.exponent with
    | some (true, ds) => -(value ds : Int)
    | some (false, ds) => value ds
    | none => 0
  let exponent := (dropped : Int) - (n.fraction.length - left : Nat) + written
  (scale 8 (UInt64.ofNat digits).toFloat exponent).map fun x => (if n.negative then -x else x).toBits

/-- The number a numeral stands for. Minus zero is a double. -/
def number? (n : Numeral) : Option Number :=
  let v := value n.whole
  if n.hasFraction || n.exponent.isSome then n.double?.map .double
  else if !n.negative && v < limit then some (.int v)
  else if n.negative && 0 < v && v ≤ limit / 2 then some (.int (-v))
  else n.double?.map .double

end Numeral

namespace Number

/-- The least bit pattern with a sign. -/
def signBit : Nat := 9223372036854775808

/-- The number of values that the exponent's bits take. -/
def exponentCount : Nat := 2048

/-- The significand and the exponent of a double, so that its size is `m · 2 ^ q`. -/
def parts (bits : UInt64) : Nat × Int :=
  let exponent : Nat := bits.toNat / Decimal.hiddenBit % exponentCount
  let fraction : Nat := bits.toNat % Decimal.hiddenBit
  if exponent = 0 then (fraction, -1074) else (fraction + Decimal.hiddenBit, (exponent : Int) - 1075)

/-- The text of a decimal with the digits `ds` and the first digit at place `place` before the point. -/
def layout (ds : List Char) (place : Int) : List Char :=
  if 0 < place ∧ place ≤ 16 then
    let p := place.toNat
    if ds.length ≤ p then ds ++ List.replicate (p - ds.length) '0' ++ ['.', '0']
    else ds.take p ++ ['.'] ++ ds.drop p
  else if -5 < place ∧ place ≤ 0 then ['0', '.'] ++ List.replicate (-place).toNat '0' ++ ds
  else
    let mantissa :=
      match ds with
      | d :: e :: rest => d :: '.' :: e :: rest
      | ds => ds
    let power := place - 1
    mantissa ++ ['e', if 0 ≤ power then '+' else '-'] ++ Nat.toDigits 10 power.natAbs

/-- The text of a double. -/
def doubleChars (bits : UInt64) : List Char :=
  let sign := if signBit ≤ bits.toNat then ['-'] else []
  let (m, q) := parts bits
  if m = 0 then sign ++ ['0', '.', '0']
  else
    let s := Decimal.shortest m q
    let ds := Nat.toDigits 10 s.digits
    sign ++ layout ds (ds.length + s.exponent)

/-- The text of an integer. -/
def intChars (n : Int) : List Char :=
  if n < 0 then '-' :: Nat.toDigits 10 n.natAbs else Nat.toDigits 10 n.natAbs

/-- The text of a number. -/
def chars : Number → List Char
  | int n => intChars n
  | double bits => doubleChars bits

end Number

end ToolchainHost
