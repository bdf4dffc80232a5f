import NorStore.Decimal.Binary
import NorStore.Decimal.Digits

/-!
# The shortest decimal that reads back

For a finite positive binary value `v = m · 2^e`, the decimals that read back as `v` are those
inside its rounding interval: half a step above `v`, half a step below it (a quarter step when
the word below lies in the next lower binade), ends included when `m` is even. `shortest`
returns the decimal with the fewest significant digits in that interval, and of two with as
few digits the one nearer to `v`, a tie going to the even last digit.

*Method.* For `n = 1, 2, …` digits the grid of `n`-digit decimals around `v` has step `10^k`
with `k = ⌊log₁₀ v⌋ - n + 1`. The interval is convex and holds `v`, so if it holds a point of
the grid it holds one of the two grid points next to `v`: it suffices to test those two, in
exact arithmetic on naturals. Every format needs at most its own decimal precision plus two
digits; the search is bounded by 40.
-/

namespace NorStore.Decimal

/-- Whether `x · 2^q ≤ c · 10^k` (or `<` when `strict`). -/
def belowGrid (strict : Bool) (x : Nat) (q : Int) (c : Nat) (k : Int) : Bool :=
  let (a, b) := ofPow2 x q
  let (c', d) := ofPow10 c k
  if strict then a * d < c' * b else a * d ≤ c' * b

/-- Whether `c · 10^k ≤ x · 2^q` (or `<` when `strict`). -/
def aboveGrid (strict : Bool) (x : Nat) (q : Int) (c : Nat) (k : Int) : Bool :=
  let (a, b) := ofPow2 x q
  let (c', d) := ofPow10 c k
  if strict then c' * b < a * d else c' * b ≤ a * d

/-- The rounding interval of `m · 2^e` in quarter steps: `[lo · 2^(e-2), hi · 2^(e-2)]`. -/
def interval (m : Nat) (narrowBelow : Bool) : Nat × Nat :=
  (if narrowBelow then 4 * m - 1 else 4 * m - 2, 4 * m + 2)

/-- Whether `c · 10^k` reads back as `m · 2^e`. -/
def readsBack (m : Nat) (e : Int) (narrowBelow : Bool) (c : Nat) (k : Int) : Bool :=
  let (lo, hi) := interval m narrowBelow
  let strict := m % 2 == 1
  belowGrid strict lo (e - 2) c k && aboveGrid strict hi (e - 2) c k

/-- Of the grid points `c` and `c + 1` (times `10^k`) next to `v = m · 2^e`, the one chosen:
the nearer of those that read back, a tie to the even one. -/
def pickOnGrid (m : Nat) (e : Int) (narrowBelow : Bool) (c : Nat) (k : Int) : Option Nat :=
  let okLow := readsBack m e narrowBelow c k
  let okHigh := readsBack m e narrowBelow (c + 1) k
  if okLow && okHigh then
    -- compare 2v with (2c + 1) · 10^k
    let (a, b) := ofPow2 (2 * m) e
    let (h, d) := ofPow10 (2 * c + 1) k
    if a * d < h * b then some c
    else if a * d > h * b then some (c + 1)
    else if c % 2 == 0 then some c else some (c + 1)
  else if okLow then some c
  else if okHigh then some (c + 1)
  else none

/-- The shortest decimal that reads back as the positive value `m · 2^e`, searching grids of
`n` to `n + fuel - 1` digits. -/
def shortestFrom (m : Nat) (e : Int) (narrowBelow : Bool) (p : Int) : Nat → Nat → Digits
  | 0, _ => Digits.ofScaled 0 0
  | fuel + 1, n =>
    let k := p - n + 1
    let (a, b) := ofPow2 m e
    let (a', b') := if 0 ≤ k then (a, b * Nat.pow 10 k.toNat) else (a * Nat.pow 10 (-k).toNat, b)
    match pickOnGrid m e narrowBelow (a' / b') k with
    | some c => Digits.ofScaled c k
    | none => shortestFrom m e narrowBelow p fuel (n + 1)

/-- The shortest decimal that reads back as `m · 2^e`; zero for `m = 0`. -/
def shortest (m : Nat) (e : Int) (narrowBelow : Bool) : Digits :=
  if m = 0 then ⟨[], 0⟩
  else
    let (a, b) := ofPow2 m e
    shortestFrom m e narrowBelow (decimalExponent a b) 40 1

end NorStore.Decimal
