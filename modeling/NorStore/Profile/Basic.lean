import NorStore.Flash.Geometry
import NorStore.Storage.Partition

/-!
# Device profiles

A profile describes a device for the tools: the flash image file and the part's dimensions,
where the two partitions lie, the bounds of the user partition's cache, whether a partition
that fails to mount is erased, and how much is logged. Every field has a default, the layout
the firmware uses; a profile file only names what differs.

A device size of zero means the device ends where the last partition ends.
-/

namespace NorStore

/-- The flash part of a profile. -/
structure Profile.Part where
  /-- The image file that holds the part's contents. -/
  image : String := "flash.img"
  /-- Bytes of the part; zero for the end of the last partition. -/
  size : UInt32 := 0
  /-- The sector (erase block) size. -/
  sectorSize : UInt32 := 4096
  /-- The write block size. -/
  writeBlock : UInt32 := 4
  /-- What an erased byte reads as. -/
  eraseValue : UInt8 := 0xFF
  deriving Repr, Inhabited

/-- The cache bounds of a profile. -/
structure Profile.CacheBounds where
  /-- Values the cache holds; zero turns it off. -/
  entries : Int := 32
  /-- The longest value it takes. -/
  valueSize : Int := 128
  /-- Nanoseconds between background write-backs. -/
  syncInterval : Int := 5000000000
  deriving Repr, Inhabited

/-- The description of a device for the tools. -/
structure Profile where
  part : Profile.Part := {}
  factory : Storage.Layout := ⟨0, 32 * 1024⟩
  user : Storage.Layout := ⟨32 * 1024, 32 * 1024⟩
  cache : Profile.CacheBounds := {}
  /-- Whether a partition that fails to mount is erased and mounted again. -/
  reformat : Bool := true
  /-- The name of the least severity logged. -/
  level : String := "info"
  deriving Repr, Inhabited

namespace Profile

/-- The storage options the profile describes. -/
def options (p : Profile) : Storage.Options :=
  { sectorSize := p.part.sectorSize, writeBlock := p.part.writeBlock,
    eraseValue := p.part.eraseValue, factory := p.factory, user := p.user,
    cacheEntries := p.cache.entries, cacheValueSize := p.cache.valueSize,
    syncInterval := p.cache.syncInterval, reformat := p.reformat }

/-- The size of the device: as given, or the end of the last partition. -/
def deviceSize (p : Profile) : UInt32 :=
  if p.part.size > 0 then p.part.size else p.options.deviceSize

/-- The geometry of the device. -/
def geometry (p : Profile) : Flash.Geometry :=
  { size := p.deviceSize.toNat, eraseBlock := p.part.sectorSize.toNat,
    writeBlock := p.part.writeBlock.toNat, eraseValue := p.part.eraseValue }

end Profile

end NorStore
