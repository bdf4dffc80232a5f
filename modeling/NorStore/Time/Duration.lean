/-!
# Durations

A duration is a signed count of nanoseconds. Its text uses the largest fitting units:

* under a second, one unit of `ns`, `µs` or `ms` with the fraction of that unit after a point,
  trailing zeros dropped (`1.5ms`, `250ns`), and `0s` for zero;
* from a second on, hours, minutes and seconds, each written only when it or a larger unit is
  non-zero, the seconds with their fraction (`1h2m3.5s`, `2m0s`, `1.25s`).

A negative duration is its magnitude's text after a minus sign.

Reading accepts an optional sign and one or more terms, each a decimal number (digits with an
optional fraction) and a unit of `ns`, `us`, `µs`, `μs`, `ms`, `s`, `m` or `h`; a lone `0` is
zero. The sum must fit a signed 64-bit count.
-/

namespace NorStore.Duration

/-- Nanoseconds per unit, for the units a text may use. -/
def unitNanos : String → Option Nat
  | "ns" => some 1
  | "us" => some 1000
  | "µs" => some 1000
  | "μs" => some 1000
  | "ms" => some 1000000
  | "s" => some 1000000000
  | "m" => some 60000000000
  | "h" => some 3600000000000
  | _ => none

/-- The digits of `v mod 10^prec` after a point, trailing zeros dropped; nothing when zero. -/
def fraction (v prec : Nat) : String :=
  let f := v % Nat.pow 10 prec
  if f = 0 then ""
  else
    let s := toString f
    let s := "".pushn '0' (prec - s.length) ++ s
    "." ++ String.ofList (s.toList.reverse.dropWhile (· == '0')).reverse

/-- The text of a non-negative count of nanoseconds. -/
def renderNat (u : Nat) : String :=
  if u = 0 then "0s"
  else if u < 1000 then toString u ++ "ns"
  else if u < 1000000 then toString (u / 1000) ++ fraction u 3 ++ "µs"
  else if u < 1000000000 then toString (u / 1000000) ++ fraction u 6 ++ "ms"
  else
    let secs := u / 1000000000
    let s := toString (secs % 60) ++ fraction u 9 ++ "s"
    let mins := secs / 60
    if mins = 0 then s
    else
      let s := toString (mins % 60) ++ "m" ++ s
      let hours := mins / 60
      if hours = 0 then s else toString hours ++ "h" ++ s

/-- The text of a duration in nanoseconds. -/
def render (d : Int) : String :=
  if d < 0 then "-" ++ renderNat d.natAbs else renderNat d.toNat

/-- The leading decimal digits of `cs`, their value and count. -/
def leadingDigits (cs : List Char) : Nat × Nat × List Char :=
  let ds := cs.takeWhile Char.isDigit
  (ds.foldl (fun a c => a * 10 + (c.toNat - 48)) 0, ds.length, cs.drop ds.length)

/-- Whether a character may be part of a unit. -/
def unitChar (c : Char) : Bool :=
  c != '.' && !c.isDigit

/-- The sum of the terms of `cs`, in nanoseconds, or `none` when a term is malformed. Each
term takes at least one character, so `fuel` above the length of `cs` is enough. -/
def terms : Nat → List Char → Nat → Option Nat
  | _, [], acc => some acc
  | 0, _ :: _, _ => none
  | fuel + 1, cs@(_ :: _), acc =>
    let (whole, n, rest) := leadingDigits cs
    let (frac, scale, m, rest) := match rest with
      | '.' :: more =>
        let (f, k, r) := leadingDigits more
        (f, Nat.pow 10 k, k, r)
      | r => (0, 1, 0, r)
    if n + m = 0 then none
    else
      let u := rest.takeWhile unitChar
      match unitNanos (String.ofList u) with
      | none => none
      | some per => terms fuel (rest.drop u.length) (acc + whole * per + frac * per / scale)

/-- The duration a text spells, in nanoseconds. -/
def parse? (s : String) : Option Int :=
  let (neg, body) := match s.toList with
    | '-' :: r => (true, r)
    | '+' :: r => (false, r)
    | r => (false, r)
  if body == ['0'] then some 0
  else if body.isEmpty then none
  else
    match terms (body.length + 1) body 0 with
    | some v =>
      if neg then (if v ≤ Nat.pow 2 63 then some (-(v : Int)) else none)
      else if v < Nat.pow 2 63 then some v else none
    | none => none

end NorStore.Duration
