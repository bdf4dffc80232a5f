/-!
# Calendar time in UTC

`Civil.ofSeconds` turns seconds since 1970-01-01 00:00:00 UTC into a date and time of the
proleptic Gregorian calendar, and `Civil.toSeconds` goes back. Days are counted in eras of
400 years (146097 days), each starting on the first of March so that a leap day is the last
day of its year; within an era the year, the day of the year and then the month and day
follow by whole-number division.

`Civil.render` writes `YYYY-MM-DD HH:MM:SS UTC`, the year in at least four digits with a `-`
before negative years. `Civil.parse?` reads that text back for years of four digits.
-/

namespace NorStore

/-- A date and time of day in UTC. -/
structure Civil where
  /-- The year; year 0 is 1 BC. -/
  year : Int
  /-- The month, 1 to 12. -/
  month : Nat
  /-- The day of the month, from 1. -/
  day : Nat
  /-- The hour, 0 to 23. -/
  hour : Nat
  /-- The minute, 0 to 59. -/
  minute : Nat
  /-- The second, 0 to 59. -/
  second : Nat
  deriving Repr, DecidableEq, Inhabited

namespace Civil

/-- Days in an era of 400 years. -/
def eraDays : Int := 146097

/-- Days from 0000-03-01 to 1970-01-01. -/
def epochShift : Int := 719468

/-- The date of a day counted from 1970-01-01, as (year, month, day). -/
def ofDays (z : Int) : Int × Nat × Nat :=
  let z := z + epochShift
  let era := z / eraDays
  let doe := z - era * eraDays
  let yoe := (doe - doe / 1460 + doe / 36524 - doe / 146096) / 365
  let doy := doe - (365 * yoe + yoe / 4 - yoe / 100)
  let mp := (5 * doy + 2) / 153
  let d := doy - (153 * mp + 2) / 5 + 1
  let m := if mp < 10 then mp + 3 else mp - 9
  let y := yoe + era * 400 + (if m ≤ 2 then 1 else 0)
  (y, m.toNat, d.toNat)

/-- The day, counted from 1970-01-01, of a date. -/
def toDays (year : Int) (month day : Nat) : Int :=
  let y := if month ≤ 2 then year - 1 else year
  let era := y / 400
  let yoe := y - era * 400
  let mp : Int := if month > 2 then (month : Int) - 3 else (month : Int) + 9
  let doy := (153 * mp + 2) / 5 + (day : Int) - 1
  let doe := yoe * 365 + yoe / 4 - yoe / 100 + doy
  era * eraDays + doe - epochShift

/-- The date and time `s` seconds after 1970-01-01 00:00:00 UTC. -/
def ofSeconds (s : Int) : Civil :=
  let days := s / 86400
  let rest := (s - days * 86400).toNat
  let (year, month, day) := ofDays days
  { year, month, day, hour := rest / 3600, minute := rest / 60 % 60, second := rest % 60 }

/-- Seconds since 1970-01-01 00:00:00 UTC. -/
def toSeconds (c : Civil) : Int :=
  toDays c.year c.month c.day * 86400 + (c.hour * 3600 + c.minute * 60 + c.second : Nat)

/-- The number `n` in decimal, padded with zeros to `width` digits. -/
def padded (width n : Nat) : String :=
  let s := toString n
  String.ofList (List.replicate (width - s.length) '0') ++ s

/-- The text `YYYY-MM-DD HH:MM:SS UTC`. -/
def render (c : Civil) : String :=
  (if c.year < 0 then "-" else "") ++ padded 4 c.year.natAbs ++ "-" ++ padded 2 c.month ++ "-" ++
    padded 2 c.day ++ " " ++ padded 2 c.hour ++ ":" ++ padded 2 c.minute ++ ":" ++
    padded 2 c.second ++ " UTC"

/-- The number spelled by decimal digits. -/
def digitsValue? (cs : List Char) : Option Nat :=
  cs.foldl (fun acc c => acc.bind fun v =>
    if c.isDigit then some (v * 10 + (c.toNat - 48)) else none) (some 0)

/-- Reads `YYYY-MM-DD HH:MM:SS UTC` with a four-digit year. -/
def parse? (s : String) : Option Civil :=
  match s.toList with
  | [y1, y2, y3, y4, '-', m1, m2, '-', d1, d2, ' ', h1, h2, ':', i1, i2, ':', s1, s2,
      ' ', 'U', 'T', 'C'] => do
    let year ← digitsValue? [y1, y2, y3, y4]
    let month ← digitsValue? [m1, m2]
    let day ← digitsValue? [d1, d2]
    let hour ← digitsValue? [h1, h2]
    let minute ← digitsValue? [i1, i2]
    let second ← digitsValue? [s1, s2]
    pure { year := year, month, day, hour, minute, second }
  | _ => none

end Civil

end NorStore
