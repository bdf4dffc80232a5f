import NorStore.Decimal.Read

/-!
# What a plain scalar stands for

A scalar written without quotes and without a tag has its tag worked out from its text:

* `~`, `null` (three spellings) and nothing at all are null; `true` and `false` (three
  spellings each) are booleans; `.inf`, `-.inf` and `.nan` are floats;
* text that starts with a digit or a sign is a timestamp when it is a date (with a time,
  possibly), else an integer when it reads as one in base ten or with a `0b`, `0o`, `0x` or
  `0` (octal) prefix, underscores ignored, else a float in decimal notation;
* text that starts with `.` is a float when it reads as one;
* everything else is a string.

An integer is kept when it fits a signed 64-bit word, or else an unsigned one; a float is
kept as the bits of the nearest double, and one out of range is not a float. With a tag
written out, the text is read as that tag asks; an integer may stand for a float, and text
that does not read as the tag is a failure.
-/

namespace NorStore.Yaml

/-- The value of a scalar. -/
inductive Scalar where
  | null
  | bool (b : Bool)
  /-- An integer that fits a signed or unsigned 64-bit word. -/
  | int (i : Int)
  /-- The bits of a double. -/
  | float (bits : Nat)
  /-- Text, for a string or a tag this reader does not interpret. -/
  | text (s : String)
  | timestamp
  deriving Repr, DecidableEq, Inhabited

/-- The digits of `cs` in `base`, none at all reading as zero. -/
def digitsIn (base : Nat) (cs : List Char) : Option Nat :=
  cs.foldl (fun acc c => acc.bind fun v => (Decimal.digitValue base c).map (v * base + ·)) (some 0)

/-- An unsigned number with an optional base prefix: `0b`, `0o` or `0x` before at least one
digit, or a leading `0` for octal. -/
def readBased (cs : List Char) : Option Nat :=
  match cs with
  | [] => none
  | '0' :: b :: r@(_ :: _) =>
    if b == 'b' || b == 'B' then digitsIn 2 r
    else if b == 'o' || b == 'O' then digitsIn 8 r
    else if b == 'x' || b == 'X' then digitsIn 16 r
    else digitsIn 8 (b :: r)
  | '0' :: r => digitsIn 8 r
  | _ => digitsIn 10 cs

/-- An unsigned 64-bit number, with an optional base prefix. -/
def readUnsigned64 (cs : List Char) : Option Nat :=
  (readBased cs).bind fun v => if v < Nat.pow 2 64 then some v else none

/-- A signed 64-bit number: an optional sign, then `read` of the rest. -/
def readSigned64 (read : List Char → Option Nat) (cs : List Char) : Option Int :=
  let (neg, body) := match cs with
    | '+' :: r => (false, r)
    | '-' :: r => (true, r)
    | r => (false, r)
  (read body).bind fun v =>
    if neg then (if v ≤ Nat.pow 2 63 then some (-(v : Int)) else none)
    else if v < Nat.pow 2 63 then some (v : Int) else none

/-- Digits in one base, at least one. -/
def someDigitsIn (base : Nat) (cs : List Char) : Option Nat :=
  if cs.isEmpty then none else digitsIn base cs

/-- Whether text has the shape of a float in decimal notation: an optional sign, digits
with an optional point and more digits (or a point and at least one digit), and an optional
exponent. -/
def floatShape (s : String) : Bool :=
  let cs := match s.toList with
    | '+' :: r | '-' :: r => r
    | r => r
  let (whole, rest) := cs.span Char.isDigit
  let afterBody :=
    if whole.isEmpty then
      match rest with
      | '.' :: r => let (frac, r) := r.span Char.isDigit; if frac.isEmpty then none else some r
      | _ => none
    else
      match rest with
      | '.' :: r => some (r.dropWhile Char.isDigit)
      | r => some r
  match afterBody with
  | none => false
  | some [] => true
  | some (e :: r) =>
    (e == 'e' || e == 'E') &&
      (let r := match r with | '+' :: t | '-' :: t => t | t => t
       !r.isEmpty && r.all Char.isDigit)

/-- The double a text reads as, unless it is out of range or not a number's text. -/
def readDouble (s : String) : Option Nat :=
  match Decimal.Format.double.read? s with
  | some (bits, false) => some bits
  | _ => none

/-- The number of days in a month of a year. -/
def daysIn (year month : Nat) : Nat :=
  if month == 2 then
    if year % 4 == 0 && (year % 100 != 0 || year % 400 == 0) then 29 else 28
  else if month == 4 || month == 6 || month == 9 || month == 11 then 30
  else 31

/-- One or two digits at the head of `cs`. -/
def shortNumber (cs : List Char) : Option (Nat × List Char) :=
  match cs with
  | a :: b :: r =>
    if a.isDigit && b.isDigit then some ((a.toNat - 48) * 10 + (b.toNat - 48), r)
    else if a.isDigit then some (a.toNat - 48, b :: r)
    else none
  | [a] => if a.isDigit then some (a.toNat - 48, []) else none
  | [] => none

/-- Exactly two digits at the head of `cs`. -/
def twoDigits (cs : List Char) : Option (Nat × List Char) :=
  match cs with
  | a :: b :: r => if a.isDigit && b.isDigit then some ((a.toNat - 48) * 10 + (b.toNat - 48), r) else none
  | _ => none

/-- A time of day `h:m:s` with an optional fraction of a second, and what follows it. -/
def timeOfDay (cs : List Char) : Option (List Char) := do
  let (h, r) ← shortNumber cs
  let r ← match r with | ':' :: t => some t | _ => none
  let (m, r) ← shortNumber r
  let r ← match r with | ':' :: t => some t | _ => none
  let (sec, r) ← shortNumber r
  if h ≥ 24 || m ≥ 60 || sec ≥ 60 then none
  match r with
  | p :: d :: t => if (p == '.' || p == ',') && d.isDigit then some (t.dropWhile Char.isDigit) else some r
  | _ => some r

/-- A zone: `Z`, or a sign with hours and minutes. -/
def zoneOk (cs : List Char) : Bool :=
  match cs with
  | ['Z'] => true
  | s :: r =>
    match twoDigits r with
    | some (h, ':' :: r) =>
      match twoDigits r with
      | some (m, []) => (s == '+' || s == '-') && h ≤ 24 && m ≤ 60
      | _ => false
    | _ => false
  | [] => false

/-- Whether text is a timestamp: a date `yyyy-m-d`, alone, or with `T` (or `t`), a time and
a zone, or with a space and a time. -/
def isTimestamp (s : String) : Bool :=
  let cs := s.toList
  let year := cs.take 4
  if !(year.length == 4 && year.all Char.isDigit && (cs.drop 4).head? == some '-') then false
  else
    let y := year.foldl (fun v c => v * 10 + (c.toNat - 48)) 0
    match shortNumber (cs.drop 5) with
    | some (mo, '-' :: r) =>
      match shortNumber r with
      | some (d, rest) =>
        if mo < 1 || mo > 12 || d < 1 || d > daysIn y mo then false
        else
          match rest with
          | [] => true
          | 'T' :: t | 't' :: t =>
            match timeOfDay t with
            | some z => zoneOk z
            | none => false
          | ' ' :: t => timeOfDay t == some []
          | _ => false
      | none => false
    | _ => false

/-- The tags a scalar may be read as. -/
def resolvable (tag : String) : Bool :=
  tag == "" || tag == "!!str" || tag == "!!bool" || tag == "!!int" || tag == "!!float" ||
    tag == "!!timestamp" || tag == "!!null"

/-- The words with a fixed meaning. -/
def fixedWord (s : String) : Option (String × Scalar) :=
  if s == "true" || s == "True" || s == "TRUE" then some ("!!bool", .bool true)
  else if s == "false" || s == "False" || s == "FALSE" then some ("!!bool", .bool false)
  else if s == "" || s == "~" || s == "null" || s == "Null" || s == "NULL" then some ("!!null", .null)
  else if s == ".nan" || s == ".NaN" || s == ".NAN" then some ("!!float", .float 0x7FF8000000000001)
  else if s == ".inf" || s == ".Inf" || s == ".INF" || s == "+.inf" || s == "+.Inf" || s == "+.INF" then
    some ("!!float", .float 0x7FF0000000000000)
  else if s == "-.inf" || s == "-.Inf" || s == "-.INF" then some ("!!float", .float 0xFFF0000000000000)
  else if s == "<<" then some ("!!merge", .text "<<")
  else none

/-- An integer read with an explicit base after a prefix, the sign allowed after it. -/
def afterPrefix (base : Nat) (cs : List Char) : Option Int :=
  match readSigned64 (someDigitsIn base) cs with
  | some v => some v
  | none => (someDigitsIn base cs).bind fun v => if v < Nat.pow 2 64 then some (v : Int) else none

/-- A number, or a date, for text that starts with a digit or sign. -/
def readNumeric (tag text : String) : String × Scalar :=
  if (tag == "" || tag == "!!timestamp") && isTimestamp text then ("!!timestamp", .timestamp)
  else
    let plain := text.toList.filter (· != '_')
    match readSigned64 readBased plain with
    | some v => ("!!int", .int v)
    | none =>
      match readUnsigned64 plain with
      | some v => ("!!int", .int v)
      | none =>
        let asFloat := if floatShape (String.ofList plain) then readDouble (String.ofList plain) else none
        match asFloat with
        | some bits => ("!!float", .float bits)
        | none =>
          let viaPrefix := match plain with
            | '0' :: 'b' :: r => afterPrefix 2 r
            | '-' :: '0' :: 'b' :: r => readSigned64 (someDigitsIn 2) ('-' :: r)
            | '0' :: 'o' :: r => afterPrefix 8 r
            | '-' :: '0' :: 'o' :: r => readSigned64 (someDigitsIn 8) ('-' :: r)
            | _ => none
          match viaPrefix with
          | some v => ("!!int", .int v)
          | none => ("!!str", .text text)

/-- The tag and value of a scalar's text under a tag (`""` for none), before checking that
they agree. -/
def resolveRaw (tag text : String) : String × Scalar :=
  if !resolvable tag then (tag, .text text)
  else if tag == "!!str" then ("!!str", .text text)
  else
    match text.toList.head? with
    | none => fixedWord text |>.getD ("!!str", .text text)
    | some c =>
      let hinted := c == '+' || c == '-' || c.isDigit || "yYnNtTfFoO~".toList.contains c || c == '.'
      if !hinted then ("!!str", .text text)
      else
        match fixedWord text with
        | some r => r
        | none =>
          if c == '.' then
            match readDouble text with
            | some bits => ("!!float", .float bits)
            | none => ("!!str", .text text)
          else if c == '+' || c == '-' || c.isDigit then readNumeric tag text
          else ("!!str", .text text)

/-- The tag and value of a scalar's text under a tag, or why the text cannot be that tag. -/
def resolve (tag text : String) : Except String (String × Scalar) :=
  let (rtag, v) := resolveRaw tag text
  if tag == "" || tag == rtag || tag == "!!str" || tag == "!!binary" || !resolvable tag then
    .ok (rtag, v)
  else if tag == "!!float" && rtag == "!!int" then
    match v with
    | .int i =>
      if i < Nat.pow 2 63 then
        match readDouble (toString i) with
        | some bits => .ok ("!!float", .float bits)
        | none => .error ("cannot decode " ++ rtag ++ " `" ++ text ++ "` as a " ++ tag)
      else .error ("cannot decode " ++ rtag ++ " `" ++ text ++ "` as a " ++ tag)
    | _ => .error ("cannot decode " ++ rtag ++ " `" ++ text ++ "` as a " ++ tag)
  else .error ("cannot decode " ++ rtag ++ " `" ++ text ++ "` as a " ++ tag)

/-- The tag of a plain scalar written without one. -/
def plainTag (text : String) : String :=
  (resolveRaw "" text).1

end NorStore.Yaml
