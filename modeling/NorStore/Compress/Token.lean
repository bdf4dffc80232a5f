/-!
# Compressed blocks: tokens and their elements

Blob settings are kept compressed in the Snappy block format. A block is the length of the
data it holds, as a base-128 varint (seven bits a byte, least significant group first, the high
bit set on every byte but the last), followed by *elements*. The low two bits of an element's
first byte give its tag:

* `0`: a literal. The rest of the first byte is `n` when `n < 60`, the length minus one; `60`
  to `63` say that one to four following bytes hold it, least significant first. The literal's
  bytes follow.
* `1`: a copy of 4 to 11 bytes from up to `2047` bytes back, in two bytes: three bits of
  length minus four, the high three bits of the offset, and the offset's low byte.
* `2`: a copy of 1 to 64 bytes (the upper six bits of the first byte, plus one) from a 16-bit
  offset in the two following bytes.
* `3`: as `2` with a 32-bit offset in four bytes.

A copy reads from the bytes already produced, `offset` back from the end, one byte at a time,
so a copy longer than its offset repeats a pattern.

The writer thinks in *tokens*: a literal run, or a copy of any length. `Token.elements` writes
a token the way the writer always does: literal headers as short as the length allows, and a
long copy as 64-byte pieces, with a 60-byte piece where that leaves a tail of at least 5
(a copy of 4 fits two bytes, a copy of 1 to 3 does not), and a tail in two bytes when it is 4
to 11 bytes from less than `2048` back.
-/

namespace NorStore.Compress

/-- One step of a compressed block, as the writer produces it. -/
inductive Token where
  /-- Bytes written out as they are. -/
  | literal (bytes : List UInt8)
  /-- A copy of `length` bytes from `offset` bytes back. -/
  | copy (offset length : Nat)
  deriving Repr, DecidableEq, Inhabited

/-- The base-128 varint of `n`, least significant group first. -/
def varint (n : Nat) : List UInt8 :=
  if h : n < 128 then [n.toUInt8]
  else (n % 128 + 128).toUInt8 :: varint (n / 128)
termination_by n
decreasing_by omega

/-- The header of a literal of `length` bytes (`length ≥ 1`). -/
def literalHeader (length : Nat) : List UInt8 :=
  let n := length - 1
  if n < 60 then [(n * 4).toUInt8]
  else if n < 256 then [60 * 4, n.toUInt8]
  else [61 * 4, (n % 256).toUInt8, (n / 256 % 256).toUInt8]

/-- A copy of `length ≤ 64` bytes in the three-byte form. -/
def longCopy (offset length : Nat) : List UInt8 :=
  [((length - 1) * 4 + 2).toUInt8, (offset % 256).toUInt8, (offset / 256 % 256).toUInt8]

/-- The elements of a copy: 64-byte pieces while at least 68 bytes are left, a 60-byte piece
when 65 to 67 are left, then the tail. -/
def copyElements (offset length : Nat) : List UInt8 :=
  if length ≥ 68 then longCopy offset 64 ++ copyElements offset (length - 64)
  else if length > 64 then longCopy offset 60 ++ copyElements offset (length - 60)
  else if length ≥ 12 ∨ offset ≥ 2048 then longCopy offset length
  else [((offset / 256 % 8) * 32 + (length - 4) * 4 + 1).toUInt8, (offset % 256).toUInt8]
termination_by length
decreasing_by all_goals omega

/-- The bytes of one token. -/
def Token.elements : Token → List UInt8
  | .literal bytes => literalHeader bytes.length ++ bytes
  | .copy offset length => copyElements offset length

/-- The data a token adds after `out`. -/
def Token.expand (out : List UInt8) : Token → List UInt8
  | .literal bytes => out ++ bytes
  | .copy offset length => copyFrom out offset length
where
  /-- Appends `n` bytes, each the one `offset` back from the end at the time. -/
  copyFrom (out : List UInt8) (offset : Nat) : Nat → List UInt8
    | 0 => out
    | n + 1 => copyFrom (out ++ [out.getD (out.length - offset) 0]) offset n

/-- The data that a run of tokens stands for. -/
def expandAll (tokens : List Token) : List UInt8 :=
  tokens.foldl Token.expand []

/-- A whole block: the length of the data, then the elements of every token. -/
def block (length : Nat) (tokens : List Token) : List UInt8 :=
  varint length ++ tokens.flatMap Token.elements

end NorStore.Compress
