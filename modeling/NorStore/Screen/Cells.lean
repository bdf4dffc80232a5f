/-!
# Terminal cells

Text on a terminal is laid out in cells. Most characters take one cell; control characters,
combining marks and zero-width characters take none, and the wide characters of East Asian
scripts (and the wide emoji) take two. Every measure of the screen is in cells, so a line is
padded to a width, or cut at one, by the cells its characters take and not by their number.

*Cutting.* A text wider than a limit keeps the longest front that fits in the limit less the
width of a tail, and the tail is put after it (`…` for table cells, nothing for a hard limit).
-/

namespace NorStore.Screen

/-- Whether a code point takes no cell: a combining mark or a zero-width character. -/
def isZeroWidth (n : Nat) : Bool :=
  (0x300 ≤ n && n ≤ 0x36F) || (0x483 ≤ n && n ≤ 0x489) || (0x591 ≤ n && n ≤ 0x5BD) ||
    (0x610 ≤ n && n ≤ 0x61A) || (0x64B ≤ n && n ≤ 0x65F) || (0x1AB0 ≤ n && n ≤ 0x1AFF) ||
    (0x1DC0 ≤ n && n ≤ 0x1DFF) || (0x200B ≤ n && n ≤ 0x200F) || (0x2028 ≤ n && n ≤ 0x202E) ||
    (0x2060 ≤ n && n ≤ 0x2064) || (0x20D0 ≤ n && n ≤ 0x20FF) || (0xFE00 ≤ n && n ≤ 0xFE0F) ||
    (0xFE20 ≤ n && n ≤ 0xFE2F) || n == 0xFEFF

/-- Whether a code point takes two cells. -/
def isWide (n : Nat) : Bool :=
  (0x1100 ≤ n && n ≤ 0x115F) || (0x231A ≤ n && n ≤ 0x231B) || (0x2E80 ≤ n && n ≤ 0x303E) ||
    (0x3041 ≤ n && n ≤ 0x33FF) || (0x3400 ≤ n && n ≤ 0x4DBF) || (0x4E00 ≤ n && n ≤ 0x9FFF) ||
    (0xA000 ≤ n && n ≤ 0xA4CF) || (0xA960 ≤ n && n ≤ 0xA97F) || (0xAC00 ≤ n && n ≤ 0xD7A3) ||
    (0xF900 ≤ n && n ≤ 0xFAFF) || (0xFE10 ≤ n && n ≤ 0xFE19) || (0xFE30 ≤ n && n ≤ 0xFE6F) ||
    (0xFF00 ≤ n && n ≤ 0xFF60) || (0xFFE0 ≤ n && n ≤ 0xFFE6) || (0x1F300 ≤ n && n ≤ 0x1F64F) ||
    (0x1F900 ≤ n && n ≤ 0x1F9FF) || (0x20000 ≤ n && n ≤ 0x3FFFD)

/-- The cells a character takes. -/
def cellWidth (c : Char) : Nat :=
  let n := c.toNat
  if n < 0x20 || (0x7F ≤ n && n ≤ 0x9F) then 0
  else if n < 0x300 then 1
  else if isZeroWidth n then 0
  else if isWide n then 2
  else 1

/-- The cells a text takes on one line. -/
def width (s : String) : Nat :=
  s.toList.foldl (fun acc c => acc + cellWidth c) 0

/-- A run of spaces. -/
def spaces (n : Nat) : String :=
  String.ofList (List.replicate n ' ')

/-- The lines of a text. -/
def lines (s : String) : List String :=
  s.splitOn "\n"

/-- The width of the widest line. -/
def widest (ls : List String) : Nat :=
  ls.foldl (fun acc l => max acc (width l)) 0

/-- The longest front of a list of characters that fits in `room` cells. -/
def fitting : Nat → List Char → List Char
  | _, [] => []
  | room, c :: cs => if cellWidth c ≤ room then c :: fitting (room - cellWidth c) cs else []

/-- The text cut to `limit` cells with `tail` after what is kept, when it is wider. -/
def truncate (s : String) (limit : Nat) (tail : String) : String :=
  if width s ≤ limit then s
  else if limit < width tail then tail
  else String.ofList (fitting (limit - width tail) s.toList) ++ tail

end NorStore.Screen
