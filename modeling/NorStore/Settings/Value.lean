import NorStore.Decimal.Notation
import NorStore.Decimal.Read
import NorStore.Decimal.Whole
import NorStore.Text.Blank

/-!
# Typed settings and their text

A setting is stored as text followed by one NUL byte, the encoding device firmware reads:

| type | text |
|---|---|
| string | the bytes themselves |
| bool | `1` or `0` |
| unsigned and signed integers | base ten, a `-` for negatives |
| 32-bit float | six decimal places, `NaN`, `+Inf` or `-Inf` |

Reading takes the bytes before the first NUL. A string is those bytes; a bool is true only
for exactly `1`. A number is read after white space is dropped at both ends, and must fit its
type: digits only for unsigned types, an optional sign for signed ones, and for floats any
decimal or hexadecimal number text that does not round past the greatest finite single.
-/

namespace NorStore.Settings

/-- The types a setting can have. -/
inductive Kind where
  | text | flag | u8 | u32 | u64 | i32 | f32
  deriving Repr, DecidableEq, Inhabited

/-- A typed setting. -/
inductive Value where
  /-- A string, as bytes. -/
  | text (bytes : ByteArray)
  /-- A bool. -/
  | flag (on : Bool)
  /-- An 8-bit unsigned integer. -/
  | u8 (v : UInt8)
  /-- A 32-bit unsigned integer. -/
  | u32 (v : UInt32)
  /-- A 64-bit unsigned integer. -/
  | u64 (v : UInt64)
  /-- A 32-bit signed integer. -/
  | i32 (v : Int32)
  /-- A 32-bit float, by its bits. -/
  | f32 (bits : UInt32)
  deriving Inhabited

namespace Value

/-- The type of a setting. -/
def kind : Value → Kind
  | text _ => .text
  | flag _ => .flag
  | u8 _ => .u8
  | u32 _ => .u32
  | u64 _ => .u64
  | i32 _ => .i32
  | f32 _ => .f32

/-- The stored text of a setting, before its NUL. -/
def storedText : Value → ByteArray
  | text b => b
  | flag on => (if on then "1" else "0").toUTF8
  | u8 v => (toString v.toNat).toUTF8
  | u32 v => (toString v.toNat).toUTF8
  | u64 v => (toString v.toNat).toUTF8
  | i32 v => (toString v.toInt).toUTF8
  | f32 bits => (Decimal.fixedPlaces .single bits.toNat 6).toUTF8

/-- The stored bytes of a setting: its text and a NUL. -/
def encode (v : Value) : ByteArray :=
  v.storedText.push 0

end Value

/-- The bytes of a stored value before its first NUL. -/
def beforeNul (b : ByteArray) : ByteArray :=
  ⟨(b.toList.takeWhile (· != 0)).toArray⟩

/-- The text of a stored number with white space dropped at both ends; `none` when the bytes
are not UTF-8, which no number's text is. -/
def numberText (b : ByteArray) : Option String :=
  (String.fromUTF8? b).map Blank.trim

namespace Kind

/-- The setting of type `k` that stored text reads as, if any. -/
def read (k : Kind) (t : ByteArray) : Option Value :=
  match k with
  | text => some (.text t)
  | flag => some (.flag (t.toList == [49]))
  | u8 => ((numberText t).bind (Decimal.readUnsigned 8)).map fun n => .u8 n.toUInt8
  | u32 => ((numberText t).bind (Decimal.readUnsigned 32)).map fun n => .u32 n.toUInt32
  | u64 => ((numberText t).bind (Decimal.readUnsigned 64)).map fun n => .u64 n.toUInt64
  | i32 => ((numberText t).bind (Decimal.readSigned 32)).map fun n => .i32 (Int32.ofInt n)
  | f32 =>
    match (numberText t).bind Decimal.Format.single.read? with
    | some (bits, false) => some (.f32 bits.toUInt32)
    | _ => none

end Kind

end NorStore.Settings
