import NorStore.Compress.Token

/-!
# Expanding a block

`decompress` reads a block in the format of `NorStore.Compress.Token`, every element form
included, and answers its data, or `none` when the block is damaged:

* the length header is missing, runs past ten bytes, or exceeds `2^32 - 1`;
* an element is cut short by the end of the block;
* a literal is longer than what is left of the block or of the announced length;
* a copy has offset zero, reaches back before the start, or runs past the announced length;
* the elements end before the announced length is reached.

Every element consumes at least one byte, so reading is by recursion on what is left.
-/

namespace NorStore.Compress

/-- The varint at `pos`, with the position after it: at most ten bytes. -/
def readVarint (src : ByteArray) (pos : Nat) : Option (Nat × Nat) :=
  go pos 0 0 10
where
  /-- Reads groups from `i`, with `acc` gathered so far at bit `shift`, at most `fuel` more. -/
  go (i acc shift fuel : Nat) : Option (Nat × Nat) :=
    match fuel with
    | 0 => none
    | fuel + 1 =>
      match src[i]? with
      | none => none
      | some b =>
        let acc := acc + (b.toNat % 128) * Nat.pow 2 shift
        if b < 128 then some (acc, i + 1) else go (i + 1) acc (shift + 7) fuel

/-- The little-endian number in the `n` bytes from `pos`. -/
def readLe (src : ByteArray) (pos n : Nat) : Nat :=
  (List.range n).foldr (fun k acc => acc * 256 + (src[pos + k]?.getD 0).toNat) 0

/-- The data after `n` more bytes, each copied from `offset` back. -/
def copyBack (out : ByteArray) (offset : Nat) : Nat → ByteArray
  | 0 => out
  | n + 1 => copyBack (out.push (out[out.size - offset]?.getD 0)) offset n

/-- What one element says: a literal of `length` bytes after a header of `header` bytes, or a
copy, taking `size` bytes in all. -/
inductive Element where
  /-- A literal whose bytes follow a header of `header` bytes. -/
  | literal (header length : Nat)
  /-- A copy, written in `size` bytes. -/
  | copy (size offset length : Nat)

/-- The element whose first byte is at `pos`, if the block holds all of its header. -/
def readElement (src : ByteArray) (pos : Nat) (first : UInt8) : Option Element :=
  let tag := first.toNat % 4
  let upper := first.toNat / 4
  let fits (n : Nat) : Bool := pos + n ≤ src.size
  if tag == 0 then
    if upper < 60 then some (.literal 1 (upper + 1))
    else
      let extra := upper - 59
      if fits (1 + extra) then some (.literal (1 + extra) (readLe src (pos + 1) extra + 1))
      else none
  else if tag == 1 then
    if fits 2 then
      some (.copy 2 (upper / 8 * 256 + (src[pos + 1]?.getD 0).toNat) (4 + upper % 8))
    else none
  else if tag == 2 then
    if fits 3 then some (.copy 3 (readLe src (pos + 1) 2) (upper + 1)) else none
  else if fits 5 then some (.copy 5 (readLe src (pos + 1) 4) (upper + 1)) else none

/-- The width of an element, header and literal bytes together. -/
def Element.size : Element → Nat
  | .literal header length => header + length
  | .copy size _ _ => size

/-- Every element takes at least one byte. -/
theorem readElement_size_pos {src : ByteArray} {pos : Nat} {first : UInt8} {e : Element}
    (h : readElement src pos first = some e) : 0 < e.size := by
  simp only [readElement] at h
  repeat' split at h
  all_goals cases h
  all_goals simp only [Element.size]
  all_goals omega

/-- The data of the elements from `pos` on, after `out`, for a block announcing `total` bytes. -/
def expandFrom (src : ByteArray) (total : Nat) (pos : Nat) (out : ByteArray) : Option ByteArray :=
  if hp : pos < src.size then
    match he : readElement src pos src[pos] with
    | none => none
    | some (.literal header length) =>
      let start := pos + header
      if length > total - out.size ∨ length > src.size - start then none
      else expandFrom src total (start + length) (out ++ src.extract start (start + length))
    | some (.copy size offset length) =>
      if offset = 0 ∨ out.size < offset ∨ length > total - out.size then none
      else expandFrom src total (pos + size) (copyBack out offset length)
  else if out.size = total then some out else none
termination_by src.size - pos
decreasing_by
  all_goals
    have := readElement_size_pos he
    simp only [Element.size] at this
    omega

/-- The data of a compressed block, or `none` when the block is damaged. -/
def decompress (src : ByteArray) : Option ByteArray :=
  match readVarint src 0 with
  | none => none
  | some (total, pos) => if total > 0xFFFFFFFF then none else expandFrom src total pos .empty

end NorStore.Compress
