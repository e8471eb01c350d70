/-!
# Shortest decimals

* `shortest m q`: the fewest decimal digits, as a number with a power of ten, that are read back as the double
  `m · 2 ^ q`. Among those with fewest digits it is the one nearest to the value; of two equally near, the even
  one.

The reals that are read back as `m · 2 ^ q` form an interval around it, which holds its two ends iff `m` is even.
For one digit, two digits and so on up to seventeen the two neighbours of the value on that decimal grid are
tested, in exact arithmetic.
-/

namespace ToolchainHost.Decimal

/-- A fraction of natural numbers with a positive denominator. -/
structure Ratio where
  num : Nat
  den : Nat
  deriving Repr, Inhabited

namespace Ratio

/-- Comparison of fractions by cross-multiplication. -/
def ble (a b : Ratio) : Bool := a.num * b.den ≤ b.num * a.den

/-- Strict comparison of fractions. -/
def blt (a b : Ratio) : Bool := a.num * b.den < b.num * a.den

/-- The fraction `n · b ^ e`. -/
def scaled (n b : Nat) (e : Int) : Ratio :=
  if 0 ≤ e then ⟨n * Nat.pow b e.toNat, 1⟩ else ⟨n, Nat.pow b (-e).toNat⟩

/-- The distance of two fractions. -/
def distance (a b : Ratio) : Ratio :=
  let x := a.num * b.den
  let y := b.num * a.den
  ⟨if x ≤ y then y - x else x - y, a.den * b.den⟩

end Ratio

/-- The reals that are read back as one double. -/
structure Rounding where
  value : Ratio
  low : Ratio
  high : Ratio
  /-- The ends belong to it. -/
  closed : Bool
  deriving Inhabited

/-- The leading bit of a significand, which the bits of a double leave out. -/
def hiddenBit : Nat := 4503599627370496

/-- What is read back as the double `m · 2 ^ q`. Below a power of two the doubles lie twice as close, save at the
smallest exponent. -/
def Rounding.ofDouble (m : Nat) (q : Int) : Rounding where
  value := .scaled (4 * m) 2 (q - 2)
  low := .scaled (if m = hiddenBit ∧ -1074 < q then 4 * m - 1 else 4 * m - 2) 2 (q - 2)
  high := .scaled (4 * m + 2) 2 (q - 2)
  closed := m % 2 == 0

/-- Whether `x` is read back as the double. -/
def Rounding.contains (r : Rounding) (x : Ratio) : Bool :=
  if r.closed then r.low.ble x && x.ble r.high else r.low.blt x && x.blt r.high

/-- A decimal `digits · 10 ^ exponent`. -/
structure Scientific where
  digits : Nat
  exponent : Int
  deriving Repr, DecidableEq, Inhabited

/-- The fraction that a decimal stands for. -/
def Scientific.ratio (s : Scientific) : Ratio := .scaled s.digits 10 s.exponent

/-- The largest multiple of `10 ^ e` that is at most `x`, in units of `10 ^ e`. -/
def floorAt (x : Ratio) (e : Int) : Nat :=
  if 0 ≤ e then x.num / (x.den * Nat.pow 10 e.toNat) else x.num * Nat.pow 10 (-e).toNat / x.den

/-- Of the two multiples of `10 ^ e` next to the value, the nearest that is read back, if one is. -/
def Rounding.onGrid? (r : Rounding) (e : Int) : Option Scientific :=
  let n := floorAt r.value e
  let below : Scientific := ⟨n, e⟩
  let above : Scientific := ⟨n + 1, e⟩
  match r.contains below.ratio, r.contains above.ratio with
  | false, false => none
  | true, false => some below
  | false, true => some above
  | true, true =>
    let d := below.ratio.distance r.value
    let u := above.ratio.distance r.value
    if d.blt u then some below
    else if u.blt d then some above
    else if n % 2 = 0 then some below else some above

/-- The first hit on the grids from `10 ^ e` down, of which `count` are tried. -/
def Rounding.search (r : Rounding) : (count : Nat) → (e : Int) → Option Scientific
  | 0, _ => none
  | count + 1, e =>
    match r.onGrid? e with
    | some s => some s
    | none => r.search count (e - 1)

/-- The number of decimal digits of `n`, at least one. -/
def digitCount (n : Nat) : Nat := (Nat.toDigits 10 n).length

/-- The exponent of the first decimal digit of a positive fraction, or one more. -/
def leadingExponent (x : Ratio) : Int :=
  if x.den ≤ x.num then digitCount (x.num / x.den)
  else 1 - (digitCount (x.den / x.num) : Int)

/-- Drops the zeros at the end of the digits, of which there are fewer than `fuel`. -/
def Scientific.strip : (fuel : Nat) → Scientific → Scientific
  | 0, s => s
  | fuel + 1, s =>
    if s.digits ≠ 0 ∧ s.digits % 10 = 0 then strip fuel ⟨s.digits / 10, s.exponent + 1⟩ else s

/-- The fewest digits that are read back as `m · 2 ^ q`, for a positive `m`. -/
def shortest (m : Nat) (q : Int) : Scientific :=
  let r := Rounding.ofDouble m q
  ((r.search 20 (leadingExponent r.value)).getD ⟨m, q⟩).strip 20

end ToolchainHost.Decimal
