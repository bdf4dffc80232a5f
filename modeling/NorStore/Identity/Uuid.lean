import NorStore.Text.Hex
import NorStore.Text.Quoted

/-!
# Device identifiers

A device identifier is a UUID: 16 bytes, written as 32 lowercase hexadecimal digits in groups
of 8, 4, 4, 4 and 12 joined by `-`.

`Uuid.parse` reads the forms people write: the 36-character form, the same after `urn:uuid:`
(in any case), the same inside one more character at each end (the first is skipped, the last
ignored, as for braces), and 32 digits without dashes. Digits may be in either case. A text of
another length, a wrong prefix, a dash out of place or a non-digit is refused with the reason.

`Uuid.version4` makes a random identifier out of 16 random bytes by setting the version
(`4`) and variant (`10`) bits.

`Uuid.codec` pairs `parse` with `render`; code that stores identifiers takes a `Uuid.Codec`.
-/

namespace NorStore

/-- A 128-bit identifier. -/
structure Uuid where
  /-- The 16 bytes, most significant first. -/
  bytes : Vector UInt8 16
  deriving DecidableEq, Inhabited

namespace Uuid

/-- The value of a hexadecimal digit byte. -/
def hexDigit (c : UInt8) : Option Nat :=
  if 48 ≤ c ∧ c ≤ 57 then some (c.toNat - 48)
  else if 97 ≤ c ∧ c ≤ 102 then some (c.toNat - 87)
  else if 65 ≤ c ∧ c ≤ 70 then some (c.toNat - 55)
  else none

/-- The byte spelled by the two digits at `i` and `i + 1`. -/
def byteAt (s : ByteArray) (i : Nat) : Option UInt8 := do
  let hi ← hexDigit (s[i]?.getD 0)
  let lo ← hexDigit (s[i + 1]?.getD 0)
  pure (hi * 16 + lo).toUInt8

/-- The bytes spelled by digit pairs starting at the given positions. -/
def bytesAt (s : ByteArray) (starts : List Nat) : Except String Uuid :=
  match starts.mapM (byteAt s) with
  | some bs =>
    if h : bs.length = 16 then .ok ⟨⟨bs.toArray, by simpa using h⟩⟩
    else .error "invalid UUID format"
  | none => .error "invalid UUID format"

/-- Where the digit pairs of the dashed form start. -/
def dashedStarts : List Nat :=
  [0, 2, 4, 6, 9, 11, 14, 16, 19, 21, 24, 26, 28, 30, 32, 34]

/-- Reads the dashed form at the start of `s`. -/
def parseDashed (s : ByteArray) : Except String Uuid :=
  if [8, 13, 18, 23].all fun i => s[i]? == some 45 then bytesAt s dashedStarts
  else .error "invalid UUID format"

/-- Whether `s` starts with `urn:uuid:` in any case. -/
def hasUrnPrefix (s : ByteArray) : Bool :=
  (s.extract 0 9).toList.map (fun c => if 65 ≤ c ∧ c ≤ 90 then c + 32 else c) ==
    "urn:uuid:".toUTF8.toList

/-- Reads an identifier, or says why the text is none. -/
def parse (s : ByteArray) : Except String Uuid :=
  match s.size with
  | 36 => parseDashed s
  | 45 =>
    if hasUrnPrefix s then parseDashed (s.extract 9 45)
    else .error ("invalid urn prefix: " ++ Quoted.ofBytes (s.extract 0 9))
  | 38 => parseDashed (s.extract 1 38)
  | 32 => bytesAt s ((List.range 16).map (2 * ·))
  | n => .error ("invalid UUID length: " ++ toString n)

/-- The canonical text: lowercase digits grouped 8-4-4-4-12. -/
def render (u : Uuid) : String :=
  let digits := u.bytes.toList.map fun b => Hex.padded 2 b.toNat
  let group (a n : Nat) := String.join ((digits.drop a).take n)
  group 0 4 ++ "-" ++ group 4 2 ++ "-" ++ group 6 2 ++ "-" ++ group 8 2 ++ "-" ++ group 10 6

/-- A random (version 4) identifier from 16 random bytes: the high four bits of byte 6 become
`0100`, the high two bits of byte 8 become `10`. -/
def version4 (random : Vector UInt8 16) : Uuid :=
  ⟨(random.set 6 ((random[6] &&& 0x0F) ||| 0x40)).set 8 ((random[8] &&& 0x3F) ||| 0x80)⟩

/-- How identifiers are written as text and read back. -/
structure Codec where
  /-- Reads an identifier, or says why the text is none. -/
  parse : ByteArray → Except String Uuid
  /-- The text an identifier is stored as. -/
  render : Uuid → String

/-- The forms above: `parse` reads them, `render` writes the canonical one. -/
def codec : Codec := ⟨parse, render⟩

end Uuid

end NorStore
