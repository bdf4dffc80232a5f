import NorStore.Text.Blank
import NorStore.Text.Utf8

/-!
# Words of a command line

A line typed at the shell is bytes, not necessarily UTF-8. It is read as UTF-8 pieces
(`Utf8.pieces`), and the white space characters among them (`Blank.isBlank`) separate
words; a stray byte is never white space. Splitting and trimming keep every other byte as it
was typed.
-/

namespace NorStore.Words

open Utf8

/-- Whether a piece is white space. -/
def isBlankPiece : Piece → Bool
  | .char c => Blank.isBlank c
  | .stray _ => false

/-- The bytes of a piece. -/
def pieceBytes : Piece → List UInt8
  | .char c => c.toString.toUTF8.toList
  | .stray b => [b]

/-- The bytes of pieces. -/
def join (ps : List Piece) : ByteArray :=
  ⟨(ps.flatMap pieceBytes).toArray⟩

/-- The bytes without white space at either end. -/
def trim (b : ByteArray) : ByteArray :=
  join (((ofBytes b).dropWhile isBlankPiece).reverse.dropWhile isBlankPiece).reverse

/-- The runs of pieces between white space, in order. -/
def runs (ps : List Piece) : List (List Piece) :=
  let (cur, acc) := ps.foldr (fun p (cur, acc) =>
    if isBlankPiece p then ([], if cur.isEmpty then acc else cur :: acc) else (p :: cur, acc))
    (([] : List Piece), ([] : List (List Piece)))
  if cur.isEmpty then acc else cur :: acc

/-- The words of a line: the non-empty runs between white space. -/
def fields (b : ByteArray) : List ByteArray :=
  (runs (ofBytes b)).map join

end NorStore.Words
