/-!
# Hexadecimal text

Lower-case hexadecimal, the only base-sixteen spelling the store uses: in addresses
(`3:0x00c0`), in listings of binary values, and in checksums. Numbers are written with no
leading zeros unless a width asks for them; a byte string is written two digits per byte, in
order, so its text has exactly twice its length.
-/

namespace NorStore.Hex

/-- The digits of `n` in base sixteen, most significant first, lower case, `0` for zero. -/
def ofNat (n : Nat) : String :=
  String.ofList (Nat.toDigits 16 n)

/-- The digits of `ofNat n` with zeros in front up to at least `width` digits. -/
def padded (width n : Nat) : String :=
  let s := ofNat n
  "".pushn '0' (width - s.length) ++ s

/-- Two digits per byte, in the bytes' order. -/
def ofBytes (b : ByteArray) : String :=
  b.foldl (fun s x => s ++ padded 2 x.toNat) ""

/-- A number as written with an explicit base mark: `0x` and its digits. -/
def marked (n : Nat) : String :=
  "0x" ++ ofNat n

end NorStore.Hex
