import NorStore.Decimal.Shortest
import NorStore.Decimal.Fixed

/-!
# Writing decimals

How selected digits are laid out. A number is written either positionally (`123.45`,
`0.001`) or with an exponent (`1.2345e+02`): the first digit, the others after a point, then
`e`, the exponent's sign and at least a set number of exponent digits. Which form is used
depends on the exponent `x` of the leading digit (the value lies in `[10^x, 10^(x+1))`), and
that decision, with the exponent's least width, is the `Notation` record.

Two records are used by the library. `Notation.general` writes positionally for `-4 ≤ x < 6`,
with at least two exponent digits (`1e+06`, `1e-05`). `Notation.data` writes positionally for
`-6 ≤ x < 21`, with at least two digits for a positive exponent and one for a negative one
(`1e+21`, `1e-7`); it is the notation of numbers inside data records, which have no text for
NaN or the infinities.
-/

namespace NorStore.Decimal

/-- Where positional notation ends and how exponents are written. -/
structure Notation where
  /-- The least leading-digit exponent written positionally. -/
  leastPositional : Int
  /-- The least leading-digit exponent written with an exponent above the positional range. -/
  firstExponential : Int
  /-- The least number of digits of a non-negative exponent. -/
  exponentWidthUp : Nat
  /-- The least number of digits of a negative exponent. -/
  exponentWidthDown : Nat

/-- Positional for leading-digit exponents from -4 up to 5; exponents of two or more digits. -/
def Notation.general : Notation := ⟨-4, 6, 2, 2⟩

/-- Positional for leading-digit exponents from -6 up to 20; a positive exponent takes two or
more digits, a negative one one or more. -/
def Notation.data : Notation := ⟨-6, 21, 2, 1⟩

/-- The decimal text of `n` with zeros in front up to `width` digits. -/
def padDigits (width n : Nat) : String :=
  let s := toString n
  "".pushn '0' (width - s.length) ++ s

/-- The text of a digit list. -/
def digitText (ds : List Nat) : String :=
  String.ofList (ds.map fun d => Char.ofNat (48 + d))

/-- The decimal `d` positionally with exactly `places` digits after the point (none and no point for
zero places); digits past the end are zeros. -/
def positional (d : Digits) (places : Nat) : String :=
  let whole :=
    if 0 < d.point then
      digitText (d.digits.take d.point.toNat) ++ "".pushn '0' (d.point.toNat - d.count)
    else "0"
  let frac := (List.range places).map fun (i : Nat) => d.digitAt (d.point + (i : Int))
  if places = 0 then whole else whole ++ "." ++ digitText frac

/-- The decimal `d` with an exponent, all its digits shown. -/
def exponential (n : Notation) (d : Digits) : String :=
  let first := digitText (d.digits.take 1)
  let first := if first.isEmpty then "0" else first
  let rest := d.digits.drop 1
  let mant := if rest.isEmpty then first else first ++ "." ++ digitText rest
  let x : Int := if d.digits.isEmpty then 0 else d.point - 1
  if x < 0 then mant ++ "e-" ++ padDigits n.exponentWidthDown (-x).toNat
  else mant ++ "e+" ++ padDigits n.exponentWidthUp x.toNat

/-- The decimal `d` in notation `n`, all its digits shown. -/
def Notation.layout (n : Notation) (d : Digits) : String :=
  let x := d.point - 1
  if x < n.leastPositional || x ≥ n.firstExponential then exponential n d
  else positional d (d.count - d.point).toNat

/-- The sign mark of a value. -/
def signMark (neg : Bool) : String :=
  if neg then "-" else ""

/-- The shortest text of a word of format `f` in notation `n`; `none` for a NaN or an infinity
when `n` has no text for them. -/
def Notation.word? (n : Notation) (f : Format) (bits : Nat) : Option String :=
  match f.decode bits with
  | .finite neg m e narrow => some (signMark neg ++ n.layout (shortest m e narrow))
  | _ => none

/-- The shortest text of a word in the general notation, with `NaN`, `+Inf` and `-Inf`. -/
def general (f : Format) (bits : Nat) : String :=
  match f.decode bits with
  | .finite neg m e narrow => signMark neg ++ Notation.general.layout (shortest m e narrow)
  | .nan => "NaN"
  | .infinite neg => if neg then "-Inf" else "+Inf"

/-- A double in the general notation. -/
def ofFloat (x : Float) : String :=
  general .double x.toBits.toNat

/-- A single in the general notation. -/
def ofFloat32 (x : Float32) : String :=
  general .single x.toBits.toNat

/-- A word rounded to `places` decimal places and written positionally. -/
def fixedPlaces (f : Format) (bits places : Nat) : String :=
  match f.decode bits with
  | .finite neg m e _ => signMark neg ++ positional (fixed m e places) places
  | .nan => "NaN"
  | .infinite neg => if neg then "-Inf" else "+Inf"

/-- A double rounded to `places` decimal places and written positionally. -/
def ofFloatFixed (x : Float) (places : Nat) : String :=
  fixedPlaces .double x.toBits.toNat places

end NorStore.Decimal
