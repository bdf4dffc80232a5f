/-!
# Reading UTF-8

A byte string read as UTF-8 splits into pieces: each piece is either the well-formed encoding of
one character or a single stray byte that starts no well-formed encoding. A stray byte is
consumed alone and reading resumes at the next byte, so every byte belongs to exactly one piece
and the pieces' encodings concatenate back to the input.

Well-formed means the shortest encoding of a scalar value: a lead byte `C2`–`DF` takes one
continuation byte, `E0`–`EF` two and `F0`–`F4` three, continuation bytes lie in `80`–`BF`, and
the second byte after `E0`, `ED`, `F0` and `F4` is narrowed (to `A0`–`BF`, `80`–`9F`,
`90`–`BF` and `80`–`8F`) so that overlong forms, surrogates and values past `10FFFF` are stray.
-/

namespace NorStore.Utf8

/-- One piece of a byte string read as UTF-8. -/
inductive Piece where
  /-- The well-formed encoding of a character. -/
  | char (c : Char)
  /-- A byte that starts no well-formed encoding. -/
  | stray (b : UInt8)
  deriving Repr, DecidableEq, Inhabited

/-- Whether `b` lies in the closed byte interval `[lo, hi]`. -/
@[inline] def within (lo hi b : UInt8) : Bool :=
  lo ≤ b && b ≤ hi

/-- The interval the byte after a three- or four-byte lead must lie in. -/
def secondRange (lead : UInt8) : UInt8 × UInt8 :=
  if lead == 0xE0 then (0xA0, 0xBF)
  else if lead == 0xED then (0x80, 0x9F)
  else if lead == 0xF0 then (0x90, 0xBF)
  else if lead == 0xF4 then (0x80, 0x8F)
  else (0x80, 0xBF)

/-- The low six bits of a continuation byte. -/
@[inline] def low6 (b : UInt8) : Nat :=
  (b &&& 0x3F).toNat

/-- The character encoded at the head of `bs` and the number of bytes it takes, or `none` when
the head byte is stray. -/
def head? : List UInt8 → Option (Char × Nat)
  | [] => none
  | b0 :: rest =>
    if b0 < 0x80 then some (Char.ofNat b0.toNat, 1)
    else if within 0xC2 0xDF b0 then
      match rest with
      | b1 :: _ =>
        if within 0x80 0xBF b1 then
          some (Char.ofNat ((b0 &&& 0x1F).toNat * 64 + low6 b1), 2)
        else none
      | _ => none
    else if within 0xE0 0xEF b0 then
      match rest with
      | b1 :: b2 :: _ =>
        let r := secondRange b0
        if within r.1 r.2 b1 && within 0x80 0xBF b2 then
          some (Char.ofNat ((b0 &&& 0x0F).toNat * 4096 + low6 b1 * 64 + low6 b2), 3)
        else none
      | _ => none
    else if within 0xF0 0xF4 b0 then
      match rest with
      | b1 :: b2 :: b3 :: _ =>
        let r := secondRange b0
        if within r.1 r.2 b1 && within 0x80 0xBF b2 && within 0x80 0xBF b3 then
          some (Char.ofNat ((b0 &&& 0x07).toNat * 262144 + low6 b1 * 4096 + low6 b2 * 64
            + low6 b3), 4)
        else none
      | _ => none
    else none

theorem head?_width {bs : List UInt8} {c : Char} {n : Nat} (h : head? bs = some (c, n)) :
    0 < n := by
  unfold head? at h
  repeat' split at h
  all_goals simp at h
  all_goals omega

/-- The pieces of a byte string, in order. -/
def pieces (bs : List UInt8) : List Piece :=
  match hh : head? bs with
  | some (c, n) => .char c :: pieces (bs.drop n)
  | none =>
    match bs with
    | [] => []
    | b :: rest => .stray b :: pieces rest
termination_by bs.length
decreasing_by
  · have := head?_width hh
    cases bs with
    | nil => simp [head?] at hh
    | cons b rest => simp; omega
  · simp

/-- The pieces of a byte array, in order. -/
def ofBytes (b : ByteArray) : List Piece :=
  pieces b.toList

/-- Whether every byte belongs to a well-formed character encoding. -/
def isValid (b : ByteArray) : Bool :=
  (ofBytes b).all fun | .char _ => true | .stray _ => false

/-- The text of a byte string, with each stray byte read as the replacement character
`U+FFFD`. -/
def lossy (b : ByteArray) : String :=
  String.ofList ((ofBytes b).map fun | .char c => c | .stray _ => '�')

end NorStore.Utf8
