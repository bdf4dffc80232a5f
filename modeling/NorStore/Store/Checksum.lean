/-!
# The entry checksum

Allocation table entries carry an 8-bit CRC with polynomial `x^8 + x^2 + x + 1` (`0x07`),
processed most significant bit first, with no reflection and no final exclusive or: the
CRC-8/CCITT family. The store seeds it with `0xFF`.

Two definitions stand side by side. `bitwise` is the CRC as the polynomial defines it: each
input byte is folded into the register, then the register is shifted eight times, the
polynomial being subtracted whenever a one falls off the top. `crc` computes the same register
four bits at a time from a table of sixteen remainders, two look-ups per byte; it is the one the
store uses.
-/

namespace NorStore.Checksum

/-- The remainders of the sixteen four-bit values shifted through the polynomial. -/
def nibbleTable : List UInt8 :=
  [0x00, 0x07, 0x0e, 0x09, 0x1c, 0x1b, 0x12, 0x15,
   0x38, 0x3f, 0x36, 0x31, 0x24, 0x23, 0x2a, 0x2d]

/-- The table's remainder for the high four bits of `v`. -/
def remainderOfHigh (v : UInt8) : UInt8 :=
  nibbleTable.getD (v >>> 4).toNat 0

/-- Shifts the register four places, folding the bits that fall off back in by the table. -/
def shiftNibble (v : UInt8) : UInt8 :=
  (v <<< 4) ^^^ remainderOfHigh v

/-- The register after one more byte, four bits at a time. -/
def step (v b : UInt8) : UInt8 :=
  shiftNibble (shiftNibble (v ^^^ b))

/-- The CRC of `data` from register value `seed`, by the table. -/
def crc (seed : UInt8) (data : List UInt8) : UInt8 :=
  data.foldl step seed

/-- Shifts the register one place, subtracting the polynomial when a one falls off the top. -/
def shiftBit (v : UInt8) : UInt8 :=
  if v &&& 0x80 == 0 then v <<< 1 else (v <<< 1) ^^^ 0x07

/-- The register after one more byte, a bit at a time. -/
def bitStep (v b : UInt8) : UInt8 :=
  Nat.repeat shiftBit 8 (v ^^^ b)

/-- The CRC of `data` from register value `seed`, a bit at a time. -/
def bitwise (seed : UInt8) (data : List UInt8) : UInt8 :=
  data.foldl bitStep seed

end NorStore.Checksum
