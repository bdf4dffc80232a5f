import NorStore.Text.Hex
import NorStore.Text.Printable
import NorStore.Text.Utf8

/-!
# Quoted text

A byte string written between double quotes so that any byte string can be read back from its
text: the quote and the backslash are escaped with a backslash, a printable character stands for
itself, the seven C control characters take their letter escapes (`\a \b \f \n \r \t \v`), other
characters below the space and `DEL` are written `\xHH`, other unprintable characters `\uHHHH`
or, past `FFFF`, `\UHHHHHHHH`, and a stray byte that starts no UTF-8 character is `\xHH`.
Digits are lower case.
-/

namespace NorStore.Quoted

/-- The escape of one character inside quotes. -/
def escapeChar (c : Char) : String :=
  let n := c.toNat
  if c = '"' then "\\\""
  else if c = '\\' then "\\\\"
  else if Printable.isPrintable n then c.toString
  else if n = 7 then "\\a"
  else if n = 8 then "\\b"
  else if n = 12 then "\\f"
  else if n = 10 then "\\n"
  else if n = 13 then "\\r"
  else if n = 9 then "\\t"
  else if n = 11 then "\\v"
  else if n < 0x20 ∨ n = 0x7F then "\\x" ++ Hex.padded 2 n
  else if n < 0x10000 then "\\u" ++ Hex.padded 4 n
  else "\\U" ++ Hex.padded 8 n

/-- The text of one piece inside quotes. -/
def escapePiece : Utf8.Piece → String
  | .char c => escapeChar c
  | .stray b => "\\x" ++ Hex.padded 2 b.toNat

/-- A byte string between double quotes, escaped piece by piece. -/
def ofBytes (b : ByteArray) : String :=
  "\"" ++ String.join ((Utf8.ofBytes b).map escapePiece) ++ "\""

/-- A text between double quotes, escaped character by character. -/
def ofString (s : String) : String :=
  "\"" ++ String.join (s.toList.map escapeChar) ++ "\""

end NorStore.Quoted
