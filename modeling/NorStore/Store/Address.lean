import NorStore.Text.Hex

/-!
# Addresses inside a store

An address names a byte of a store's region by sector and offset, packed into one 32-bit word:
the sector in the high sixteen bits, the offset in the low sixteen. Arithmetic on addresses is
arithmetic on the word, modulo `2^32`, so adding an offset that crosses sixteen bits carries into
the sector.

Sectors form a ring: `advance` steps to the next sector and wraps from the last one to sector
`0`, `retreat` steps back and wraps from `0` to the last; both keep the offset.
-/

namespace NorStore

/-- A position in a store's region: a sector number and a byte offset inside it. -/
structure Address where
  /-- The packed word, sector in the high half and offset in the low half. -/
  raw : UInt32
  deriving DecidableEq, Repr, Inhabited

namespace Address

/-- The address of byte `offset` of sector `sector`; only the low sixteen bits of the offset
count, and sector bits past sixteen are shifted out. -/
def make (sector offset : UInt32) : Address :=
  ⟨(sector <<< 16) ||| (offset &&& 0xFFFF)⟩

/-- The sector number. -/
def sector (a : Address) : UInt32 :=
  a.raw >>> 16

/-- The byte offset inside the sector. -/
def offset (a : Address) : UInt32 :=
  a.raw &&& 0xFFFF

/-- The address of the first byte of the same sector. -/
def sectorStart (a : Address) : Address :=
  ⟨a.raw &&& 0xFFFF0000⟩

instance : Add Address := ⟨fun a b => ⟨a.raw + b.raw⟩⟩
instance : Sub Address := ⟨fun a b => ⟨a.raw - b.raw⟩⟩
instance : LE Address := ⟨fun a b => a.raw ≤ b.raw⟩
instance : LT Address := ⟨fun a b => a.raw < b.raw⟩
instance (a b : Address) : Decidable (a ≤ b) := inferInstanceAs (Decidable (a.raw ≤ b.raw))
instance (a b : Address) : Decidable (a < b) := inferInstanceAs (Decidable (a.raw < b.raw))

/-- Moves `n` bytes forward, modulo `2^32`. -/
def plus (a : Address) (n : UInt32) : Address :=
  ⟨a.raw + n⟩

/-- Moves `n` bytes back, modulo `2^32`. -/
def minus (a : Address) (n : UInt32) : Address :=
  ⟨a.raw - n⟩

/-- The same offset in the next sector of a ring of `count` sectors. -/
def advance (a : Address) (count : UInt32) : Address :=
  let b := a.plus 0x10000
  if b.sector == count then b.minus (count <<< 16) else b

/-- The same offset in the previous sector of a ring of `count` sectors. -/
def retreat (a : Address) (count : UInt32) : Address :=
  if a.sector == 0 then a.plus ((count - 1) <<< 16) else a.minus 0x10000

/-- The text `sector:0xoooo`, sector in decimal and offset in four or more hex digits. -/
def render (a : Address) : String :=
  toString a.sector.toNat ++ ":0x" ++ Hex.padded 4 a.offset.toNat

end Address

/-- The count `n` rounded up to a multiple of `block`, a power of two; blocks of zero or one byte leave
`n` as it is. The sum wraps modulo `2^32`. -/
def alignUp (n block : UInt32) : UInt32 :=
  if block ≤ 1 then n else (n + block - 1) &&& ~~~(block - 1)

end NorStore
