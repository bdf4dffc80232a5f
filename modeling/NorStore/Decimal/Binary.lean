/-!
# Binary floating-point words

A binary floating-point word of a given format holds a sign bit, a biased exponent and a
fraction. This module reads such a word as a value of the form `(-1)^s · m · 2^e`, or as an
infinity or a NaN, and writes the nearest word for an exact positive fraction.

*Reading.* An all-ones exponent is an infinity (zero fraction) or a NaN. A zero exponent is a
subnormal value `fraction · 2^(1 - bias - fractionBits)`; any other exponent adds the hidden
bit. The values that round to a finite word form an interval around it, half a step each way;
the step below is half as large when the fraction is zero and the exponent is not the least
normal one, because the word below then lies in the next lower binade.

*Writing.* `nearest` rounds a positive fraction to the nearest word, ties to an even
significand, with subnormals below the least normal exponent and an infinity past the
greatest finite word.
-/

namespace NorStore.Decimal

/-- The layout of a binary floating-point format. -/
structure Format where
  /-- Bits of the stored fraction. -/
  fractionBits : Nat
  /-- Bits of the biased exponent. -/
  exponentBits : Nat
  deriving Repr, DecidableEq

namespace Format

/-- The 64-bit format: 52 fraction bits and 11 exponent bits. -/
def double : Format := ⟨52, 11⟩

/-- The 32-bit format: 23 fraction bits and 8 exponent bits. -/
def single : Format := ⟨23, 8⟩

/-- The exponent bias. -/
def bias (f : Format) : Nat := Nat.pow 2 (f.exponentBits - 1) - 1

/-- The all-ones biased exponent of infinities and NaNs. -/
def topExponent (f : Format) : Nat := Nat.pow 2 f.exponentBits - 1

/-- The exponent of the least significand step of subnormal words. -/
def leastExponent (f : Format) : Int := 1 - (f.bias : Int) - f.fractionBits

/-- The exponent of the least significand step of the greatest binade. -/
def greatestExponent (f : Format) : Int :=
  (f.topExponent : Int) - 1 - f.bias - f.fractionBits

end Format

/-- What a floating-point word holds. -/
inductive Word where
  /-- Not a number. -/
  | nan
  /-- An infinity of the given sign. -/
  | infinite (negative : Bool)
  /-- The value `(-1)^negative · significand · 2^exponent`, with `narrowBelow` when the
  rounding interval reaches only a quarter step below it. -/
  | finite (negative : Bool) (significand : Nat) (exponent : Int) (narrowBelow : Bool)
  deriving Repr, DecidableEq

/-- The value held by the word with bits `bits` in format `f`. -/
def Format.decode (f : Format) (bits : Nat) : Word :=
  let frac := bits % Nat.pow 2 f.fractionBits
  let ex := (bits / Nat.pow 2 f.fractionBits) % Nat.pow 2 f.exponentBits
  let neg := (bits / Nat.pow 2 (f.fractionBits + f.exponentBits)) % 2 == 1
  if ex == f.topExponent then
    if frac == 0 then .infinite neg else .nan
  else if ex == 0 then .finite neg frac f.leastExponent false
  else
    .finite neg (frac + Nat.pow 2 f.fractionBits) ((ex : Int) - f.bias - f.fractionBits)
      (frac == 0 && ex > 1)

/-- The value `x · 2^q` as a fraction of naturals. -/
def ofPow2 (x : Nat) (q : Int) : Nat × Nat :=
  if 0 ≤ q then (x * Nat.pow 2 q.toNat, 1) else (x, Nat.pow 2 (-q).toNat)

/-- The bits of the word with sign `neg`, significand `m` below `2^(fractionBits + 1)` and step
exponent `e`, a subnormal when `m` lacks the hidden bit. -/
def Format.encode (f : Format) (neg : Bool) (m : Nat) (e : Int) : Nat :=
  let sign := if neg then Nat.pow 2 (f.fractionBits + f.exponentBits) else 0
  if m < Nat.pow 2 f.fractionBits then sign + m
  else sign + (e - f.leastExponent + 1).toNat * Nat.pow 2 f.fractionBits + (m - Nat.pow 2 f.fractionBits)

/-- The bits of an infinity. -/
def Format.infinity (f : Format) (neg : Bool) : Nat :=
  (if neg then Nat.pow 2 (f.fractionBits + f.exponentBits) else 0) +
    f.topExponent * Nat.pow 2 f.fractionBits

/-- The quotient `a / b` rounded to the nearest natural, ties to even. -/
def roundHalfEven (a b : Nat) : Nat :=
  let q := a / b
  let r := a % b
  if 2 * r < b then q
  else if 2 * r > b then q + 1
  else if q % 2 == 0 then q else q + 1

/-- The exponent `e` with `2^(p-1) ≤ a / b / 2^e < 2^p`, for positive `a` and `b`. -/
def binadeExponent (p a b : Nat) : Int :=
  let e0 : Int := (Nat.log2 a : Int) - Nat.log2 b - (p - 1)
  let (n, d) := ofPow2 1 e0
  -- a / b / 2^e0 = a * d / (b * n); step down once if it is below 2^(p-1)
  if a * d < Nat.pow 2 (p - 1) * (b * n) then e0 - 1 else e0

/-- The bits of the word nearest to the fraction `a / b` with sign `neg`, and whether the value
lay past the greatest finite word (the result is then an infinity). -/
def Format.nearest (f : Format) (neg : Bool) (a b : Nat) : Nat × Bool :=
  if a == 0 || b == 0 then (if neg then Nat.pow 2 (f.fractionBits + f.exponentBits) else 0, false)
  else
    let p := f.fractionBits + 1
    let e := max (binadeExponent p a b) f.leastExponent
    let (n, d) := ofPow2 1 e
    let m := roundHalfEven (a * d) (b * n)
    let (m, e) := if m == Nat.pow 2 p then (Nat.pow 2 (p - 1), e + 1) else (m, e)
    if e > f.greatestExponent then (f.infinity neg, true)
    else (f.encode neg m e, false)

end NorStore.Decimal
