/-!
# Decimal digit strings

A non-negative decimal number as its significant digits and the place of its decimal point:
digits `d₁ d₂ … dₙ` and point `p` stand for `0.d₁d₂…dₙ × 10^p`. Zero has no digits. The
selection functions (`Decimal.shortest`, `Decimal.fixed`) produce these; the layouts in
`Decimal.Notation` write them out.
-/

namespace NorStore.Decimal

/-- Significant digits and the place of the decimal point. -/
structure Digits where
  /-- The digits, most significant first, each below ten. -/
  digits : List Nat
  /-- The value is `0.digits × 10^point`. -/
  point : Int
  deriving Repr, DecidableEq, Inhabited

namespace Digits

/-- The digits of a natural number times `10^k`, with trailing zeros dropped. -/
def ofScaled (c : Nat) (k : Int) : Digits :=
  if c = 0 then ⟨[], 0⟩
  else
    let ds := (Nat.toDigits 10 c).map fun ch => ch.toNat - 48
    let kept := (ds.reverse.dropWhile (· == 0)).reverse
    ⟨kept, k + ds.length⟩

/-- How many digits there are. -/
def count (d : Digits) : Nat :=
  d.digits.length

/-- The `i`-th digit from the front, zero past the end. -/
def digitAt (d : Digits) (i : Int) : Nat :=
  if 0 ≤ i then d.digits.getD i.toNat 0 else 0

end Digits

/-- The number of decimal digits of a positive natural. -/
def decimalLength (n : Nat) : Nat :=
  (Nat.toDigits 10 n).length

/-- The `p` with `10^p ≤ a / b < 10^(p+1)`, for positive `a` and `b`. -/
def decimalExponent (a b : Nat) : Int :=
  let p : Int := (decimalLength a : Int) - decimalLength b
  -- a / b lies in [10^(p-1), 10^(p+1)); step down when it is below 10^p
  let below := if 0 ≤ p then a < Nat.pow 10 p.toNat * b else a * Nat.pow 10 (-p).toNat < b
  if below then p - 1 else p

/-- The value `x · 10^j` as a fraction of naturals. -/
def ofPow10 (x : Nat) (j : Int) : Nat × Nat :=
  if 0 ≤ j then (x * Nat.pow 10 j.toNat, 1) else (x, Nat.pow 10 (-j).toNat)

end NorStore.Decimal
