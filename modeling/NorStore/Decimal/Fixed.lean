import NorStore.Decimal.Binary
import NorStore.Decimal.Digits

/-!
# A fixed number of places

`fixed m e places` is the exact value `m · 2^e` rounded to `places` digits after the decimal
point, to nearest with ties to the even last digit, as `Digits`.
-/

namespace NorStore.Decimal

/-- The value `m · 2^e` rounded to `places` decimal places, ties to even. -/
def fixed (m : Nat) (e : Int) (places : Nat) : Digits :=
  let (a, b) := ofPow2 m e
  Digits.ofScaled (roundHalfEven (a * Nat.pow 10 places) b) (-(places : Int))

end NorStore.Decimal
