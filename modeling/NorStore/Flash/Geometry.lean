/-!
# Flash geometry

The shape of a NOR flash part: its size in bytes, the erase block (the unit an erase clears),
the write block (the unit a program operation covers) and the erase value (what every byte of
an erased block reads as). A geometry is usable when no dimension is zero and each unit divides
the one above it: the size is whole erase blocks and an erase block is whole write blocks.
-/

namespace NorStore.Flash

/-- The dimensions of a flash part. -/
structure Geometry where
  /-- Size of the part in bytes. -/
  size : Nat
  /-- Bytes cleared by one erase. -/
  eraseBlock : Nat
  /-- Bytes covered by one program operation. -/
  writeBlock : Nat
  /-- The value every byte of an erased block reads as. -/
  eraseValue : UInt8
  deriving DecidableEq, Repr, Inhabited

namespace Geometry

/-- The dimensions as a record text, `{Size:… EraseBlockSize:… WriteBlockSize:… EraseValue:…}`. -/
def render (g : Geometry) : String :=
  "\x7bSize:" ++ toString g.size ++ " EraseBlockSize:" ++ toString g.eraseBlock ++
    " WriteBlockSize:" ++ toString g.writeBlock ++ " EraseValue:" ++ toString g.eraseValue.toNat ++
    "\x7d"

/-- Whether some dimension is zero. -/
def hasZero (g : Geometry) : Bool :=
  g.size == 0 || g.eraseBlock == 0 || g.writeBlock == 0

/-- Whether the size is whole erase blocks and an erase block whole write blocks. -/
def nests (g : Geometry) : Bool :=
  g.size % g.eraseBlock == 0 && g.eraseBlock % g.writeBlock == 0

/-- The number of erase blocks. -/
def blockCount (g : Geometry) : Nat :=
  g.size / g.eraseBlock

end Geometry

end NorStore.Flash
