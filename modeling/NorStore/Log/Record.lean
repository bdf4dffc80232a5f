import NorStore.Decimal.Notation
import NorStore.Text.Hex
import NorStore.Text.Utf8

/-!
# Log records

A log record has a severity, a message and named fields, and is written as one line of JSON:
`{"time":…,"level":…,"msg":…,"fields":{…}}`, the members in that order, `fields` left out when
there are none. Field names are unique and sorted in the line; when a name is given twice the
later value wins. Numbers are written in `Decimal.Notation.data`; strings escape `"`, `\`,
control characters, `<`, `>`, `&`, `U+2028` and `U+2029`. A record whose fields hold a NaN or
an infinity has no JSON form: in its place the line reports why it could not be written.
-/

namespace NorStore.Log

/-- Severities, least severe first. -/
inductive Level where
  | debug | info | warn | error
  deriving DecidableEq, Repr, Inhabited

namespace Level

/-- The rank of a severity, from 0 for `debug` to 3 for `error`. -/
def rank : Level → Nat
  | debug => 0 | info => 1 | warn => 2 | error => 3

/-- The upper-case name of a severity. -/
def name : Level → String
  | debug => "DEBUG" | info => "INFO" | warn => "WARN" | error => "ERROR"

/-- Whether a record of severity `l` passes a threshold `t`. -/
def passes (l t : Level) : Bool :=
  t.rank ≤ l.rank

end Level

/-- A value a field can carry. -/
inductive Value where
  | null
  | bool (b : Bool)
  | int (i : Int)
  | float (x : Float)
  | text (s : String)
  | list (items : List Value)
  | record (members : List (String × Value))
  deriving Inhabited

/-- A named value attached to a record. -/
abbrev Field := String × Value

/-- A text field from a byte string, a stray byte read as `U+FFFD`. -/
def Field.bytes (name : String) (b : ByteArray) : Field :=
  (name, .text (Utf8.lossy b))

/-- One log record. -/
structure Record where
  /-- How severe it is. -/
  level : Level
  /-- What happened. -/
  message : String
  /-- Its fields in the order given, names possibly repeated. -/
  fields : List Field
  deriving Inhabited

/-- The JSON escape of one character inside a string. -/
def escapeChar (c : Char) : String :=
  let n := c.toNat
  if c = '"' then "\\\""
  else if c = '\\' then "\\\\"
  else if n = 10 then "\\n"
  else if n = 13 then "\\r"
  else if n = 9 then "\\t"
  else if n < 0x20 || c = '<' || c = '>' || c = '&' || n = 0x2028 || n = 0x2029 then
    "\\u" ++ Hex.padded 4 n
  else c.toString

/-- A JSON string. -/
def quote (s : String) : String :=
  "\"" ++ String.join (s.toList.map escapeChar) ++ "\""

/-- Named items with repeated names resolved to the last one, sorted by name. -/
def resolveWritten {α : Type} (fs : List (String × α)) : List (String × α) :=
  let last := fs.foldl (fun acc f => (acc.filter (·.1 != f.1)) ++ [f]) []
  last.mergeSort fun a b => a.1 < b.1 || a.1 == b.1

/-- The first failure of a list of results, or all their values. -/
def firstFailure : List (Except String String) → Except String (List String)
  | [] => .ok []
  | .error e :: _ => .error e
  | .ok v :: rest => (firstFailure rest).map (v :: ·)

mutual

/-- The JSON text of a value, or the text of the first float (in writing order) that has none.
-/
def Value.write : Value → Except String String
  | .null => .ok "null"
  | .bool b => .ok (if b then "true" else "false")
  | .int i => .ok (toString i)
  | .float x =>
    match Decimal.Notation.data.word? .double x.toBits.toNat with
    | some t => .ok t
    | none => .error (Decimal.ofFloat x)
  | .text s => .ok (quote s)
  | .list items =>
    (firstFailure (Value.writeAll items)).map fun parts => "[" ++ ",".intercalate parts ++ "]"
  | .record members =>
    let written := resolveWritten (Value.writeMembers members)
    (firstFailure (written.map fun (k, r) => r.map (quote k ++ ":" ++ ·))).map fun parts =>
      "\x7b" ++ ",".intercalate parts ++ "\x7d"

/-- The texts of a list of values. -/
def Value.writeAll : List Value → List (Except String String)
  | [] => []
  | v :: rest => v.write :: Value.writeAll rest

/-- The texts of named values. -/
def Value.writeMembers : List (String × Value) → List (String × Except String String)
  | [] => []
  | (k, v) :: rest => (k, v.write) :: Value.writeMembers rest

end

/-- The line of a record written at time `time`. -/
def Record.render (r : Record) (time : String) : String :=
  let head := "\x7b\"time\":" ++ quote time ++ ",\"level\":" ++ quote r.level.name ++
    ",\"msg\":" ++ quote r.message
  if r.fields.isEmpty then head ++ "\x7d"
  else
    match (Value.record r.fields).write with
    | .ok body => head ++ ",\"fields\":" ++ body ++ "\x7d"
    | .error bad => "[ERROR] Failed to marshal log entry: json: unsupported value: " ++ bad

end NorStore.Log
