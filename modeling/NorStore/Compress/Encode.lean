import NorStore.Compress.Token

/-!
# Compressing a block

`compress` splits the data into pieces of at most 64 KiB and writes each as tokens after one
length header for the whole. A piece under 17 bytes is one literal. A longer piece is scanned
for repeats with a table of recent positions, indexed by a multiplicative hash of the four
bytes at a position:

* The table has `2^b` slots for the least `b` between 8 and 14 with `2^b` at least the piece's
  size (14 for larger pieces); the hash of a word `u` is `u · 0x1e35a7bd` (32-bit) shifted
  right by `32 - b`.
* The scan starts at position 1 and looks at every position while no match turns up for 32
  steps, then at every other one, then every third, and so on: after `k` misses the stride is
  `⌊(32 + k-th partial sum)/32⌋`, the running skip divided by 32.
* At each position it looks up the slot of the word, records the position there, and has a
  match when the recorded position holds the same four bytes. The bytes since the last token
  become a literal, and the match is extended as far as the bytes agree into a copy.
* After a copy the positions just before and at its end are recorded; when the word at the end
  matches again, another copy follows at once; otherwise the scan goes on one further.
* The scan stops once a look-ahead position passes 15 bytes before the end; what is left is a
  literal.

Every loop here advances a position in the piece, so a budget of three steps per byte ends
none of them early.
-/

namespace NorStore.Compress

/-- Largest piece compressed on its own. -/
def pieceSize : Nat := 65536

/-- Pieces shorter than this are written as one literal. -/
def leastMatched : Nat := 17

/-- The little-endian word of the four bytes at `i` (zero past the end). -/
def wordAt (src : ByteArray) (i : Nat) : UInt32 :=
  let b (k : Nat) : UInt32 := (src[i + k]?.getD 0).toUInt32
  b 0 ||| (b 1 <<< 8) ||| (b 2 <<< 16) ||| (b 3 <<< 24)

/-- How many bits index the position table of a piece of `n` bytes. -/
def tableBits (n : Nat) : Nat :=
  go 8 6
where
  /-- Grows the table while it is smaller than the piece, at most `fuel` times. -/
  go (bits fuel : Nat) : Nat :=
    match fuel with
    | 0 => bits
    | fuel + 1 => if Nat.pow 2 bits < n then go (bits + 1) fuel else bits

/-- The scanner of one piece: its bytes, its hash shift and where look-ahead stops. -/
structure Scanner where
  /-- The piece. -/
  src : ByteArray
  /-- The right shift that turns a product into a table index. -/
  shift : UInt32
  /-- The last position at which a match may start. -/
  limit : Nat

namespace Scanner

/-- The scanner of a piece. -/
def ofPiece (src : ByteArray) : Scanner :=
  { src, shift := (32 - tableBits src.size).toUInt32, limit := src.size - 15 }

/-- The table slot of the word at `i`. -/
def slot (m : Scanner) (i : Nat) : Nat :=
  ((wordAt m.src i * 0x1e35a7bd) >>> m.shift).toNat

/-- The first position at or after `s` where the bytes from `s` and from `i` part, or the end. -/
def matchEnd (m : Scanner) (i s : Nat) : Nat :=
  if h : s < m.src.size then
    if m.src[i]? == m.src[s]? then m.matchEnd (i + 1) (s + 1) else s
  else s
termination_by m.src.size - s

/-- The position table. -/
abbrev Table := Array Nat

/-- Looks ahead from `next` for a position whose word was seen before. Answers the table and,
on a match, the position and the earlier position with the same word. -/
def seek (m : Scanner) : Nat → Table → (next skip : Nat) → (hash : Nat) →
    Table × Option (Nat × Nat)
  | 0, t, _, _, _ => (t, none)
  | fuel + 1, t, s, skip, h =>
    let stride := skip / 32
    let next := s + stride
    if next > m.limit then (t, none)
    else
      let candidate := t[h]?.getD 0
      let t := t.setIfInBounds h s
      if wordAt m.src s == wordAt m.src candidate then (t, some (s, candidate))
      else m.seek fuel t next (skip + stride) (m.slot next)

/-- How a run of copies ended: at the end of the piece, or with the scan to resume at a
position with the slot of its word. -/
inductive CopyEnd where
  /-- The piece is done up to `emitted`. -/
  | finished (emitted : Nat)
  /-- Everything before `emitted` is in tokens, and scanning resumes at `next`, whose word has
  the slot `hash`. -/
  | resume (emitted next hash : Nat)

/-- Emits the copy of the match at `s` from `candidate`, and the copies that follow at once. -/
def copies (m : Scanner) : Nat → Table → (s candidate : Nat) → Array Token →
    Table × Array Token × CopyEnd
  | 0, t, s, _, out => (t, out, .finished s)
  | fuel + 1, t, s, candidate, out =>
    let stop := m.matchEnd (candidate + 4) (s + 4)
    let out := out.push (.copy (s - candidate) (stop - s))
    if stop ≥ m.limit then (t, out, .finished stop)
    else
      let t := t.setIfInBounds (m.slot (stop - 1)) (stop - 1)
      let here := m.slot stop
      let candidate := t[here]?.getD 0
      let t := t.setIfInBounds here stop
      if wordAt m.src stop != wordAt m.src candidate then
        (t, out, .resume stop (stop + 1) (m.slot (stop + 1)))
      else m.copies fuel t stop candidate out

/-- Scans from `s` on, with everything before `emitted` already in tokens. -/
def scan (m : Scanner) : Nat → Table → (s emitted hash : Nat) → Array Token →
    Array Token × Nat
  | 0, _, _, emitted, _, out => (out, emitted)
  | fuel + 1, t, s, emitted, h, out =>
    match m.seek fuel t s 32 h with
    | (_, none) => (out, emitted)
    | (t, some (s, candidate)) =>
      let out := out.push (.literal (m.src.extract emitted s).toList)
      match m.copies fuel t s candidate out with
      | (_, out, .finished e) => (out, e)
      | (t, out, .resume e next h) => m.scan fuel t next e h out

end Scanner

/-- The tokens of one piece. -/
def pieceTokens (src : ByteArray) : List Token :=
  if src.size < leastMatched then [.literal src.toList]
  else
    let m := Scanner.ofPiece src
    let fuel := 3 * src.size + 8
    let table : Scanner.Table := Array.replicate (Nat.pow 2 (tableBits src.size)) 0
    let (out, emitted) := m.scan fuel table 1 0 (m.slot 1) #[]
    let rest := if emitted < src.size then [.literal (src.extract emitted src.size).toList] else []
    out.toList ++ rest

/-- The pieces of at most `pieceSize` bytes that data is compressed in. -/
def pieces (data : ByteArray) : List ByteArray :=
  go data.size 0
where
  /-- The pieces from `start` on, at most `fuel` of them. -/
  go (fuel start : Nat) : List ByteArray :=
    match fuel with
    | 0 => []
    | fuel + 1 =>
      if start < data.size then data.extract start (start + pieceSize) :: go fuel (start + pieceSize)
      else []

/-- The tokens of the data, piece after piece. -/
def tokens (data : ByteArray) : List Token :=
  (pieces data).flatMap pieceTokens

/-- The compressed block of the data. -/
def compress (data : ByteArray) : ByteArray :=
  ⟨(block data.size (tokens data)).toArray⟩

end NorStore.Compress
