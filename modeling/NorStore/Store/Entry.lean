import NorStore.Store.Checksum

/-!
# Allocation table entries

The store keeps, for every value it writes, an entry in the allocation table at the top of the
sector: the key (24 bytes, padded with zeros), the offset of the value's bytes in the same
sector, their length (zero for a deletion), a part byte and a checksum. On flash an entry is 30
bytes, little-endian:

| bytes | field |
|---|---|
| 0–23 | key |
| 24–25 | offset |
| 26–27 | length |
| 28 | part |
| 29 | checksum: CRC-8 from `0xFF` over bytes 0–28 |

A slot of the table reads as *erased* when every byte of it (padding included) is the erase
value, as *invalid* when its checksum does not match, and as *valid* otherwise.

A key is usable when it has 1 to 24 bytes, none of them NUL, and its padded form is not 24
bytes of `0xFF`: that form marks the entry that closes a sector.
-/

namespace NorStore

/-- Bytes of a key field. -/
def keyWidth : Nat := 24

/-- Bytes of an encoded entry. -/
def entryWidth : Nat := 30

/-- One allocation table entry. -/
structure Entry where
  /-- The key, padded with zeros to 24 bytes. -/
  key : Vector UInt8 24
  /-- Where the value's bytes start inside the entry's sector. -/
  offset : UInt16
  /-- How many bytes the value has; zero marks a deletion. -/
  length : UInt16
  /-- The part byte, `0xFF` for every entry the store writes. -/
  part : UInt8 := 0xFF
  /-- The checksum byte. -/
  crc : UInt8 := 0
  deriving DecidableEq, Repr, Inhabited

namespace Entry

/-- The two bytes of `v`, low byte first. -/
def le16 (v : UInt16) : List UInt8 :=
  [v.toUInt8, (v >>> 8).toUInt8]

/-- The 29 bytes the checksum covers. -/
def body (e : Entry) : List UInt8 :=
  e.key.toList ++ le16 e.offset ++ le16 e.length ++ [e.part]

/-- The 30 bytes of an entry on flash. -/
def encode (e : Entry) : List UInt8 :=
  e.body ++ [e.crc]

/-- The checksum the entry's other fields call for. -/
def expectedCrc (e : Entry) : UInt8 :=
  Checksum.crc 0xFF e.body

/-- The entry with its checksum set. -/
def sealed (e : Entry) : Entry :=
  { e with crc := e.expectedCrc }

/-- Whether the checksum matches the other fields. -/
def crcValid (e : Entry) : Bool :=
  e.crc == e.expectedCrc

/-- The 16-bit value of two bytes, low byte first. -/
def ofLe16 (lo hi : UInt8) : UInt16 :=
  lo.toUInt16 ||| (hi.toUInt16 <<< 8)

/-- The entry encoded in the first 30 bytes of `b`; missing bytes read as zero. -/
def decode (b : ByteArray) : Entry where
  key := Vector.ofFn fun i => b.get! i.val
  offset := ofLe16 (b.get! 24) (b.get! 25)
  length := ofLe16 (b.get! 26) (b.get! 27)
  part := b.get! 28
  crc := b.get! 29

/-- The key's bytes up to its first NUL. -/
def keyBytes (e : Entry) : ByteArray :=
  ⟨(e.key.toArray.toList.takeWhile (· != 0)).toArray⟩

/-- The key that marks the entry closing a sector: 24 bytes of `0xFF`. -/
def closeKey : Vector UInt8 24 :=
  Vector.replicate 24 0xFF

/-- The padded key field for `key`, if `key` is usable as a key. -/
def padKey? (key : ByteArray) : Option (Vector UInt8 24) :=
  if key.size = 0 ∨ key.size > keyWidth ∨ key.toList.contains 0 then none
  else
    let k := Vector.ofFn fun (i : Fin 24) => key[i.val]?.getD 0
    if k = closeKey then none else some k

/-- The entry for `key` with every other field at its default. -/
def ofKeyField (key : Vector UInt8 24) (offset length : UInt16) : Entry :=
  { key := key, offset := offset, length := length }

end Entry

/-- What a slot of the allocation table holds. -/
inductive Slot where
  /-- Every byte is the erase value: nothing was ever written here. -/
  | erased
  /-- Something was written, but its checksum does not match. -/
  | invalid (e : Entry)
  /-- An entry whose checksum matches. -/
  | valid (e : Entry)
  deriving Repr, Inhabited

namespace Slot

/-- The slot `raw` (an entry and its padding) on a part with erase value `erased`. -/
def classify (raw : ByteArray) (erased : UInt8) : Slot :=
  if raw.toList.all (· == erased) then .erased
  else
    let e := Entry.decode raw
    if e.crcValid then .valid e else .invalid e

end Slot

end NorStore
