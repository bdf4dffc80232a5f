import NorStore.Profile.Basic
import NorStore.Text.Quoted
import NorStore.Text.Utf8
import NorStore.Time.Duration
import NorStore.Yaml.Compose
import NorStore.Yaml.Resolve

/-!
# Reading a profile from YAML

A profile file is a YAML mapping over the defaults: `flash`, `partitions` (with `factory`
and `user`), `cache`, `mount` and `logging`, each a mapping of its own fields. Only the first
document is read, and a stream with no document leaves every default.

Decoding goes on past a value of the wrong type, collecting one line per problem:

* a key that names no field: `field X not found in type T`;
* a key given twice in one mapping: `mapping key "X" already defined at line N`; that
  mapping then sets nothing;
* a value that does not fit its field: `cannot unmarshal !!tag `text` into T`, the text cut
  to seven bytes and `...` when longer than ten; a collection is shown by its tag alone.

A null value leaves a field as it was. Numbers must fit their field; a float is cut toward
zero. A string field takes any scalar's text. A duration is written as text such as `1h30m`,
never as a bare number. A boolean also reads `yes`, `on`, `no`, `off` and their spellings.
The types are named as the tools name them (`uint32`, `config.FlashConfig`).
-/

namespace NorStore.Profile

open Yaml

/-- Decoding: type problems are collected; a failure to read the YAML itself stops it. -/
abbrev DecodeM := StateT (List String) (Except String)

/-- Notes a problem. -/
def note (line : String) : DecodeM Unit :=
  modify (· ++ [line])

/-- Notes a value that does not fit its field's type. -/
def typeError (n : Node) (tag typeName : String) : DecodeM Unit :=
  let tag := shortTag (if n.tag != "" then n.tag else tag)
  let value :=
    if tag == "!!seq" || tag == "!!map" then ""
    else
      let v := n.text
      if v.utf8ByteSize > 10 then
        " `" ++ Utf8.lossy (v.toUTF8.extract 0 7) ++ "...`"
      else " `" ++ v ++ "`"
  note ("line " ++ toString n.line ++ ": cannot unmarshal " ++ tag ++ value ++ " into " ++ typeName)

/-- Notes every key of a mapping given again after an earlier one of the same kind and text;
answers whether there was one. -/
def duplicateKeys (entries : List (Node × Node)) : DecodeM Bool := do
  let keys := entries.map (·.1)
  let mut found := false
  for (k, i) in keys.zipIdx do
    for later in keys.drop (i + 1) do
      if k.kindIndex == later.kindIndex && k.text == later.text then
        note ("line " ++ toString later.line ++ ": mapping key " ++ Quoted.ofString later.text ++
          " already defined at line " ++ toString k.line)
        found := true
  return found

/-- Whether a scalar is a string by how it was written: quoted, a block scalar, or tagged
`!!str`. -/
def writtenAsString (tag : String) (style : ScalarStyle) (tagged : Bool) : Bool :=
  (shortTag tag == "!!str" && tagged) || style != .plain

/-- The tag and value of a scalar node. -/
def scalarValue (tag text : String) (style : ScalarStyle) (tagged : Bool) :
    DecodeM (String × Scalar) :=
  if writtenAsString tag style tagged then pure ("!!str", .text text)
  else
    match resolve tag text with
    | .ok r => pure r
    | .error e => throw ("yaml: " ++ e)

/-- The kinds of field a profile has. -/
inductive FieldType where
  | text | u32 | u8 | int | duration | flag
  deriving DecidableEq

/-- The name of a field type. -/
def FieldType.name : FieldType → String
  | .text => "string"
  | .u32 => "uint32"
  | .u8 => "uint8"
  | .int => "int"
  | .duration => "time.Duration"
  | .flag => "bool"

/-- A decoded field value. -/
inductive FieldValue where
  | text (s : String)
  | num (n : Int)
  | flag (b : Bool)

/-- A double cut toward zero, when it is a number. -/
def truncated (bits : Nat) : Option Int :=
  match Decimal.Format.double.decode bits with
  | .finite neg m e _ =>
    let mag : Nat := if e ≥ 0 then m * Nat.pow 2 e.toNat else m / Nat.pow 2 (-e).toNat
    some (if neg then -(mag : Int) else mag)
  | _ => none

/-- A double as a signed 64-bit integer, as the machine converts it: cut toward zero, with
anything out of range (negative infinity included) giving the least integer; positive
infinity and not-a-number do not convert. -/
def toInt64 (bits : Nat) : Option Int :=
  match Decimal.Format.double.decode bits with
  | .nan | .infinite false => none
  | .infinite true => some (-(Nat.pow 2 63))
  | .finite neg m e _ =>
    if !neg && e ≥ 0 && m * Nat.pow 2 e.toNat > Nat.pow 2 63 then none
    else
      match truncated bits with
      | some t => some (if -(Nat.pow 2 63 : Int) ≤ t && t < Nat.pow 2 63 then t else -(Nat.pow 2 63))
      | none => none

/-- The value a scalar gives a field of a type, if it fits. -/
def fitScalar (ty : FieldType) (text : String) : Scalar → Option FieldValue
  | .text s =>
    match ty with
    | .text => some (.text text)
    | .duration => (Duration.parse? s).map .num
    | .flag =>
      if ["y", "Y", "yes", "Yes", "YES", "on", "On", "ON"].contains s then some (.flag true)
      else if ["n", "N", "no", "No", "NO", "off", "Off", "OFF"].contains s then some (.flag false)
      else none
    | _ => none
  | .int i =>
    match ty with
    | .text => some (.text text)
    | .u32 => if 0 ≤ i && i < Nat.pow 2 32 then some (.num i) else none
    | .u8 => if 0 ≤ i && i < Nat.pow 2 8 then some (.num i) else none
    | .int => if i < Nat.pow 2 63 then some (.num i) else none
    | _ => none
  | .float bits =>
    match ty with
    | .text => some (.text text)
    | .u32 => (truncated bits).bind fun t => if 0 ≤ t && t < Nat.pow 2 32 then some (.num t) else none
    | .u8 => (truncated bits).bind fun t => if 0 ≤ t && t < Nat.pow 2 8 then some (.num t) else none
    | .int => (toInt64 bits).map .num
    | _ => none
  | .bool b =>
    match ty with
    | .text => some (.text text)
    | .flag => some (.flag b)
    | _ => none
  | .timestamp =>
    match ty with
    | .text => some (.text text)
    | _ => none
  | .null => none

/-- Decodes a node into a field of a type: `none` leaves the field as it was. -/
def decodeField (ty : FieldType) : Node → DecodeM (Option FieldValue)
  | .reference _ target _ _ => decodeField ty target
  | n@(.scalar tag text style tagged _ _) => do
    let (rtag, v) ← scalarValue tag text style tagged
    if v == .null then return none
    match fitScalar ty text v with
    | some fv => return some fv
    | none =>
      typeError n rtag ty.name
      return none
  | n@(.mapping _ entries _ _) => do
    if ← duplicateKeys entries then return none
    typeError n "!!map" ty.name
    return none
  | n@(.sequence ..) => do
    typeError n "!!seq" ty.name
    return none

/-- The field name a key gives, if it gives one. -/
def keyName (k : Node) : DecodeM (Option String) := do
  match ← decodeField .text k with
  | some (.text s) => pure (some s)
  | _ => pure none

/-- Decodes a mapping into a record of type `typeName` whose fields `field` finds by name. -/
def decodeRecord {σ : Type} (typeName : String) (field : String → Option (Node → σ → DecodeM σ)) :
    Node → σ → DecodeM σ
  | .reference _ target _ _, out => decodeRecord typeName field target out
  | n@(.scalar tag text style tagged _ _), out => do
    let (rtag, v) ← scalarValue tag text style tagged
    if v != .null then typeError n rtag typeName
    return out
  | n@(.sequence ..), out => do
    typeError n "!!seq" typeName
    return out
  | .mapping _ entries _ _, out => do
    if ← duplicateKeys entries then return out
    let mut out := out
    let mut done : List String := []
    for (k, v) in entries do
      match ← keyName k with
      | none => pure ()
      | some name =>
        match field name with
        | some decode =>
          if done.contains name then
            note ("line " ++ toString k.line ++ ": field " ++ name ++ " already set in type " ++ typeName)
          else
            done := name :: done
            out ← decode v out
        | none =>
          note ("line " ++ toString k.line ++ ": field " ++ name ++ " not found in type " ++ typeName)
    return out

/-- Decodes a field into a record by a setter. -/
def setter {σ : Type} (ty : FieldType) (put : FieldValue → σ → σ) (n : Node) (out : σ) : DecodeM σ := do
  match ← decodeField ty n with
  | some v => pure (put v out)
  | none => pure out

/-- A field value as a 32-bit word. -/
def FieldValue.u32 : FieldValue → UInt32
  | .num n => n.toNat.toUInt32
  | _ => 0

/-- A field value as a byte. -/
def FieldValue.u8 : FieldValue → UInt8
  | .num n => n.toNat.toUInt8
  | _ => 0

/-- A field value as an integer. -/
def FieldValue.int : FieldValue → Int
  | .num n => n
  | _ => 0

/-- A field value as text. -/
def FieldValue.str : FieldValue → String
  | .text s => s
  | _ => ""

/-- A field value as a flag. -/
def FieldValue.bool : FieldValue → Bool
  | .flag b => b
  | _ => false

/-- The fields of the flash part. -/
def partField : String → Option (Node → Part → DecodeM Part)
  | "image" => some (setter .text fun v p => { p with image := v.str })
  | "size" => some (setter .u32 fun v p => { p with size := v.u32 })
  | "sector_size" => some (setter .u32 fun v p => { p with sectorSize := v.u32 })
  | "write_block_size" => some (setter .u32 fun v p => { p with writeBlock := v.u32 })
  | "erase_value" => some (setter .u8 fun v p => { p with eraseValue := v.u8 })
  | _ => none

/-- The fields of a partition's place. -/
def layoutField : String → Option (Node → Storage.Layout → DecodeM Storage.Layout)
  | "offset" => some (setter .u32 fun v l => { l with offset := v.u32 })
  | "size" => some (setter .u32 fun v l => { l with size := v.u32 })
  | _ => none

/-- The two partitions. -/
def partitionsField : String → Option (Node → Profile → DecodeM Profile)
  | "factory" => some fun n p => do
    pure { p with factory := ← decodeRecord "config.PartitionConfig" layoutField n p.factory }
  | "user" => some fun n p => do
    pure { p with user := ← decodeRecord "config.PartitionConfig" layoutField n p.user }
  | _ => none

/-- The fields of the cache bounds. -/
def cacheField : String → Option (Node → CacheBounds → DecodeM CacheBounds)
  | "entries" => some (setter .int fun v c => { c with entries := v.int })
  | "value_size" => some (setter .int fun v c => { c with valueSize := v.int })
  | "sync_interval" => some (setter .duration fun v c => { c with syncInterval := v.int })
  | _ => none

/-- The fields of the mount policy. -/
def mountField : String → Option (Node → Bool → DecodeM Bool)
  | "reformat_on_failure" => some (setter .flag fun v _ => v.bool)
  | _ => none

/-- The fields of the logging section. -/
def loggingField : String → Option (Node → String → DecodeM String)
  | "level" => some (setter .text fun v _ => v.str)
  | _ => none

/-- The sections of a profile. -/
def profileField : String → Option (Node → Profile → DecodeM Profile)
  | "flash" => some fun n p => do
    pure { p with part := ← decodeRecord "config.FlashConfig" partField n p.part }
  | "partitions" => some (decodeRecord "config.PartitionsConfig" partitionsField)
  | "cache" => some fun n p => do
    pure { p with cache := ← decodeRecord "config.CacheConfig" cacheField n p.cache }
  | "mount" => some fun n p => do
    pure { p with reformat := ← decodeRecord "config.MountConfig" mountField n p.reformat }
  | "logging" => some fun n p => do
    pure { p with level := ← decodeRecord "config.LoggingConfig" loggingField n p.level }
  | _ => none

/-- Reads a profile file over the defaults, or says why it cannot be read: the text of a
YAML failure, or the collected type problems. -/
def decode (data : ByteArray) : Except String Profile :=
  match firstDocument plainTag data with
  | .error e => .error e.text
  | .ok none => .ok {}
  | .ok (some root) =>
    match (decodeRecord "config.Config" profileField root {}).run [] with
    | .error e => .error e
    | .ok (p, []) => .ok p
    | .ok (_, problems) => .error ("yaml: unmarshal errors:\n  " ++ "\n  ".intercalate problems)

end NorStore.Profile
