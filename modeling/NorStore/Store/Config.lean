import NorStore.Fault
import NorStore.Store.Entry

/-!
# Store configuration

Where a store lives on its device and how that region is cut: the first byte of the region,
the sector size (the unit of erasing and of rotation), the number of sectors, the write block
(the program unit of the device, a power of two up to 32) and the erase value. Sizes are 32-bit
words and their arithmetic wraps as the device's addresses do.

Derived sizes: a table entry takes its 30 bytes rounded up to a write block; the largest value
leaves room in a sector for three entries (its own, a deletion and the entry that closes the
sector).

`validate` accepts a configuration only when the write block is a power of two from 1 to 32,
the sector size is from 1 to `65535` bytes, whole write blocks and at least four entries, there
are 2 to `65535` sectors, and the region ends inside the 32-bit address space; it reports the
first of these rules that fails, in that order.
-/

namespace NorStore

/-- Where a store lives on its device, and how its region is cut. -/
structure Config where
  /-- First byte of the region on the device. -/
  offset : UInt32
  /-- Bytes per sector. -/
  sectorSize : UInt32
  /-- Number of sectors. -/
  sectorCount : UInt32
  /-- The device's program unit. -/
  writeBlock : UInt32
  /-- What erased bytes read as. -/
  eraseValue : UInt8
  deriving DecidableEq, Repr, Inhabited

namespace Config

/-- Bytes one table entry takes: 30 rounded up to a write block. -/
def entrySize (c : Config) : UInt32 :=
  alignUp entryWidth.toUInt32 c.writeBlock

/-- Bytes of the whole region, modulo `2^32`. -/
def size (c : Config) : UInt32 :=
  c.sectorSize * c.sectorCount

/-- The largest value a sector can take beside three entries. -/
def maxValueSize (c : Config) : Int :=
  (c.sectorSize.toNat : Int) - 3 * (c.entrySize.toNat : Int)

/-- Whether `n` is a power of two from 1 to 32. -/
def supportedBlock (n : UInt32) : Bool :=
  n != 0 && n ≤ 32 && n &&& (n - 1) == 0

/-- Accepts a usable configuration, or names the first rule it breaks. -/
def validate (c : Config) : Except Fault Unit :=
  let wbs := c.writeBlock
  if !supportedBlock wbs then .error (.writeBlockUnsupported wbs.toNat)
  else if c.sectorSize == 0 then .error .sectorSizeZero
  else if c.sectorSize > 65535 then .error (.sectorSizeTooLarge c.sectorSize.toNat)
  else if c.sectorSize % wbs != 0 then .error (.sectorSizeMisfit c.sectorSize.toNat wbs.toNat)
  else if c.sectorSize < 4 * c.entrySize then .error (.sectorTooSmall c.sectorSize.toNat)
  else if c.sectorCount < 2 then .error (.tooFewSectors c.sectorCount.toNat)
  else if c.sectorCount > 65535 then .error (.tooManySectors c.sectorCount.toNat)
  else if c.offset.toNat + c.sectorSize.toNat * c.sectorCount.toNat > 4294967295 then
    .error .regionTooLarge
  else .ok ()

end Config

end NorStore
