/-!
# Reading whole numbers

Stored settings and command arguments hold whole numbers as base-ten text. `readUnsigned`
takes one or more digits and nothing else (no sign, no separator) and refuses a value that
does not fit the given number of bits; `readSigned` allows one `+` or `-` in front and a
two's-complement range.
-/

namespace NorStore.Decimal

/-- The value of a nonempty string of decimal digits. -/
def digitsValue? (cs : List Char) : Option Nat :=
  if cs.isEmpty then none
  else cs.foldl (fun acc c => acc.bind fun v =>
    if c.isDigit then some (v * 10 + (c.toNat - 48)) else none) (some 0)

/-- An unsigned number of at most `bits` bits, in decimal digits only. -/
def readUnsigned (bits : Nat) (s : String) : Option Nat :=
  (digitsValue? s.toList).bind fun v => if v < Nat.pow 2 bits then some v else none

/-- A signed number that fits `bits` bits in two's complement, with an optional sign. -/
def readSigned (bits : Nat) (s : String) : Option Int :=
  let (neg, body) := match s.toList with
    | '+' :: r => (false, r)
    | '-' :: r => (true, r)
    | r => (false, r)
  (digitsValue? body).bind fun v =>
    let x : Int := if neg then -(v : Int) else v
    if -(Nat.pow 2 (bits - 1) : Int) ≤ x ∧ x < Nat.pow 2 (bits - 1) then some x else none

end NorStore.Decimal
