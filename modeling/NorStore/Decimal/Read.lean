import NorStore.Decimal.Binary
import NorStore.Decimal.Digits

/-!
# Reading decimal text

`Format.read?` reads a number's text as the nearest word of a binary format. The text is an
optional sign and then one of: decimal digits with at most one point and at least one digit,
optionally followed by `e` or `E`, an optional sign and at least one digit; `0x` or `0X`,
hexadecimal digits with at most one point, then `p` or `P` and a signed decimal power of two;
`inf` or `infinity` in any case (signs allowed); `nan` in any case (no sign). Nothing may follow.
Underscores may separate digits: each must stand after a digit or a base prefix and before a
digit.

The value is rounded to the nearest word, ties to an even significand. A value past the
greatest finite word reads as an infinity and is reported as out of range; a value too small
for the least subnormal reads as zero.
-/

namespace NorStore.Decimal

/-- A number's text, read but not yet rounded. -/
inductive Literal where
  /-- Not a number. -/
  | nan
  /-- An infinity. -/
  | infinite (negative : Bool)
  /-- The number `(-1)^negative · significand · base^exponent`, base ten or two. -/
  | exact (negative : Bool) (significand : Nat) (exponent : Int) (binary : Bool)
  deriving Repr, DecidableEq

/-- The value of a digit in base `base`, if it is one. -/
def digitValue (base : Nat) (c : Char) : Option Nat :=
  let v := if '0' ≤ c ∧ c ≤ '9' then c.toNat - 48
    else if 'a' ≤ c ∧ c ≤ 'f' then c.toNat - 87
    else if 'A' ≤ c ∧ c ≤ 'F' then c.toNat - 55 else 99
  if v < base then some v else none

/-- The digits at the head of `cs` in base `base`, as (value, count, rest). -/
def takeDigits (base : Nat) : List Char → Nat → Nat → Nat × Nat × List Char
  | c :: cs, acc, n =>
    match digitValue base c with
    | some v => takeDigits base cs (acc * base + v) (n + 1)
    | none => (acc, n, c :: cs)
  | [], acc, n => (acc, n, [])

/-- A significand: digits, an optional point and more digits, as (value, digits in all,
digits after the point, rest). -/
def significand (base : Nat) (cs : List Char) : Nat × Nat × Nat × List Char :=
  let (v, n, rest) := takeDigits base cs 0 0
  match rest with
  | '.' :: more =>
    let (v', n', rest') := takeDigits base more v 0
    (v', n + n', n', rest')
  | _ => (v, n, 0, rest)

/-- A signed decimal exponent with at least one digit, and nothing after it. -/
def exponentOnly : List Char → Option Int
  | '+' :: cs => (exponentOnly' cs).map Int.ofNat
  | '-' :: cs => (exponentOnly' cs).map fun n => -(n : Int)
  | cs => (exponentOnly' cs).map Int.ofNat
where
  /-- At least one decimal digit and nothing after them. -/
  exponentOnly' (cs : List Char) : Option Nat :=
    let (v, n, rest) := takeDigits 10 cs 0 0
    if n > 0 && rest.isEmpty then some v else none

/-- Whether `cs` spells `word` in any case. -/
def spellsIgnoringCase (cs : List Char) (word : String) : Bool :=
  cs.map Char.toLower == word.toList

/-- Whether every underscore of a number's text stands after a digit or a base prefix and
before a digit. -/
def underscoresFit (s : String) : Bool :=
  let body := match s.toList with
    | c :: r => if c == '+' || c == '-' then r else c :: r
    | [] => []
  match body with
  | '0' :: x :: r =>
    if x.toLower == 'x' then go true '0' r
    else if x.toLower == 'b' || x.toLower == 'o' then go false '0' r
    else go false '^' body
  | _ => go false '^' body
where
  /-- Checks the rest, `seen` being the class of the last character: `^` none yet, `0` a
  digit, `_` an underscore, `!` anything else. -/
  go (hex : Bool) (seen : Char) : List Char → Bool
    | [] => seen != '_'
    | c :: r =>
      if c.isDigit || (hex && 'a' ≤ c.toLower && c.toLower ≤ 'f') then go hex '0' r
      else if c == '_' then seen == '0' && go hex '_' r
      else seen != '_' && go hex '!' r

/-- Reads a number's text without underscores. -/
def Literal.parsePlain? (s : String) : Option Literal :=
  let (neg, signed, body) := match s.toList with
    | '+' :: r => (false, true, r)
    | '-' :: r => (true, true, r)
    | r => (false, false, r)
  if spellsIgnoringCase body "inf" || spellsIgnoringCase body "infinity" then
    some (.infinite neg)
  else if !signed && spellsIgnoringCase body "nan" then some .nan
  else
    match body with
    | '0' :: x :: rest =>
      if x == 'x' || x == 'X' then
        let (v, n, after, tail) := significand 16 rest
        match tail with
        | p :: e =>
          if n > 0 && (p == 'p' || p == 'P') then
            (exponentOnly e).map fun ex => .exact neg v (ex - 4 * after) true
          else none
        | [] => none
      else decimal neg body
    | _ => decimal neg body
where
  /-- The decimal form. -/
  decimal (neg : Bool) (body : List Char) : Option Literal :=
    let (v, n, after, tail) := significand 10 body
    if n = 0 then none
    else match tail with
      | [] => some (.exact neg v (-(after : Int)) false)
      | e :: r =>
        if e == 'e' || e == 'E' then
          (exponentOnly r).map fun ex => .exact neg v (ex - after) false
        else none

/-- Reads a number's text. -/
def Literal.parse? (s : String) : Option Literal :=
  if s.toList.contains '_' then
    if underscoresFit s then Literal.parsePlain? (String.ofList (s.toList.filter (· != '_')))
    else none
  else Literal.parsePlain? s

/-- The nearest word of format `f` to a literal, and whether it lay out of range. -/
def Format.round (f : Format) : Literal → Nat × Bool
  | .nan => ((f.topExponent * 2 + 1) * Nat.pow 2 (f.fractionBits - 1), false)
  | .infinite neg => (f.infinity neg, false)
  | .exact neg v ex binary =>
    let signedZero := if neg then Nat.pow 2 (f.fractionBits + f.exponentBits) else 0
    if v = 0 then (signedZero, false)
    else if binary then
      let (a, b) := ofPow2 v ex
      f.nearest neg a b
    else
      let x := (decimalLength v : Int) + ex
      if x > 400 then (f.infinity neg, true)
      else if x < -400 then (signedZero, false)
      else
        let (a, b) := ofPow10 v ex
        f.nearest neg a b

/-- The nearest word of format `f` to the number `s` spells, and whether it lay out of range;
`none` when `s` spells no number. -/
def Format.read? (f : Format) (s : String) : Option (Nat × Bool) :=
  (Literal.parse? s).map f.round

end NorStore.Decimal
