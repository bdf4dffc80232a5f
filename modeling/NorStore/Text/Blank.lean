/-!
# White space

The characters with the Unicode `White_Space` property: the ASCII tab, line feed, vertical
tab, form feed, carriage return and space, the next-line control `U+0085`, the no-break space
`U+00A0`, the Ogham space mark `U+1680`, the spaces `U+2000`–`U+200A`, the line and paragraph
separators `U+2028` and `U+2029`, the narrow no-break space `U+202F`, the medium mathematical
space `U+205F` and the ideographic space `U+3000`. Names and levels typed by people are
compared after dropping such characters at both ends.
-/

namespace NorStore.Blank

/-- Whether a character is white space. -/
def isBlank (c : Char) : Bool :=
  let n := c.toNat
  (9 ≤ n && n ≤ 13) || n == 32 || n == 0x85 || n == 0xA0 || n == 0x1680 ||
    (0x2000 ≤ n && n ≤ 0x200A) || n == 0x2028 || n == 0x2029 || n == 0x202F ||
    n == 0x205F || n == 0x3000

/-- The text without white space at either end. -/
def trim (s : String) : String :=
  String.ofList ((s.toList.dropWhile isBlank).reverse.dropWhile isBlank).reverse

/-- A letter in lower case as far as the result is an ASCII letter: ASCII capitals, the
capital I with a dot above (to `i`) and the Kelvin sign (to `k`); other characters stay. -/
def lowerChar (c : Char) : Char :=
  if c.toNat == 0x130 then 'i' else if c.toNat == 0x212A then 'k' else c.toLower

/-- The text with `lowerChar` applied to each character. Names are ASCII words, so two texts
that fold to the same name agree in these letters. -/
def lowerAscii (s : String) : String :=
  s.map lowerChar

/-- The text trimmed and in lower case, the form in which names are compared. -/
def fold (s : String) : String :=
  lowerAscii (trim s)

end NorStore.Blank
