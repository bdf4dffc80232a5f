import NorStore.Screen.Key
import NorStore.Screen.Cells
import NorStore.Text.Blank

/-!
# A one-line editor

The editor holds a line of at most `limit` characters and a cursor in it, shown after a
prompt in a field of `width` cells. It takes key presses only while it has the focus.

*Editing.* Typed characters go in at the cursor, as many as the limit leaves room for; tabs
and line breaks typed become spaces and other control characters are dropped. The cursor
moves by a character (`left`, `right`), a word (`alt+left`, `alt+right`) or to either end
(`home`, `end`); `backspace` and `delete` remove a character, `ctrl+w` and `alt+d` a word,
`ctrl+u` and `ctrl+k` everything before or after the cursor. A word is a run of characters
that are not white space.

*Scrolling.* A line wider than the field shows a window of it, the characters from `offset`
up to `offsetRight`. The window moves only as far as it must to keep the cursor in it: to
start at the cursor when the cursor goes left of it, or to end at the cursor when the cursor
goes right of it.

*Showing.* The prompt, the window with the cursor on its character (a space past the end),
and spaces to fill the field and one cell more. An empty line shows the placeholder in the
same field instead.

A press answers whether the editor asks to be drawn again: whenever the cursor moved, since
its blinking starts over then.
-/

namespace NorStore.Screen

/-- A one-line editor. -/
structure LineEdit where
  /-- The line. -/
  value : List Char := []
  /-- The cursor: the number of characters before it. -/
  pos : Nat := 0
  /-- The first character shown. -/
  offset : Nat := 0
  /-- The end of the characters shown. -/
  offsetRight : Nat := 0
  /-- Whether it takes key presses. -/
  focused : Bool := false
  /-- The cells of the field. -/
  width : Nat := 0
  /-- The most characters the line may hold; 0 for no limit. -/
  limit : Nat := 0
  /-- What an empty line shows. -/
  placeholder : String := ""
  /-- What comes before the line. -/
  prompt : String := "> "
  deriving Repr, Inhabited

namespace LineEdit

/-- The character at a position, a space past the end. -/
def charAt (t : LineEdit) (i : Nat) : Char :=
  t.value.getD i ' '

/-- The window after the cursor went left of it: from the cursor, as far as fits. -/
def windowFrom (t : LineEdit) : LineEdit :=
  let rest := t.value.drop t.pos
  let count := go rest 0 0 (rest.length + 1)
  { t with offset := t.pos, offsetRight := t.pos + count }
where
  /-- Counts the characters that fit, one cell of slack allowed for the last. -/
  go (rest : List Char) (i used : Nat) : Nat → Nat
    | 0 => i
    | fuel + 1 =>
      if i < rest.length && used ≤ t.width then
        let used := used + cellWidth (rest.getD i ' ')
        go rest (if used ≤ t.width + 1 then i + 1 else i) used fuel
      else i

/-- The window after the cursor went right of it: ending at the cursor, as far back as fits. -/
def windowTo (t : LineEdit) : LineEdit :=
  let shown := t.value.take t.pos
  let last := go shown (shown.length - 1) 0 shown.length
  { t with offsetRight := t.pos, offset := t.pos - (shown.length - 1 - last) }
where
  /-- Walks back from the cursor while the cells fit. -/
  go (shown : List Char) (i used : Nat) : Nat → Nat
    | 0 => i
    | fuel + 1 =>
      if i > 0 && used < t.width then
        let used := used + cellWidth (shown.getD i ' ')
        go shown (if used ≤ t.width then i - 1 else i) used fuel
      else i

/-- The window moved to keep the cursor in it. -/
def settle (t : LineEdit) : LineEdit :=
  if t.width == 0 || Screen.width (String.ofList t.value) ≤ t.width then
    { t with offset := 0, offsetRight := t.value.length }
  else
    let t := { t with offsetRight := min t.offsetRight t.value.length }
    if t.pos < t.offset then t.windowFrom
    else if t.pos ≥ t.offsetRight then t.windowTo
    else t

/-- The cursor moved to a position, kept within the line. -/
def setCursor (t : LineEdit) (p : Nat) : LineEdit :=
  settle { t with pos := min p t.value.length }

/-- Typed characters as the line takes them: tabs and line breaks as spaces, other control
characters and undecodable input dropped. -/
def clean (cs : List Char) : List Char :=
  cs.filterMap fun c =>
    if c == '\r' || c == '\n' || c == '\t' then some ' '
    else if c.toNat == 0xFFFD || c.toNat < 0x20 || (0x7F ≤ c.toNat && c.toNat ≤ 0x9F) then none
    else some c

/-- The line replaced, cut at the limit; the cursor goes to the end when it was at the start
of an empty line or is now past the end. -/
def replaceLine (t : LineEdit) (v : List Char) : LineEdit :=
  let wasEmpty := t.value.isEmpty
  let t := { t with value := if t.limit > 0 then v.take t.limit else v }
  let t := if (t.pos == 0 && wasEmpty) || t.pos > t.value.length then t.setCursor t.value.length else t
  t.settle

/-- Sets the line, as typed text is cleaned. -/
def setValue (t : LineEdit) (s : String) : LineEdit :=
  t.replaceLine (clean s.toList)

/-- Characters typed at the cursor, as many as the limit leaves room for. -/
def insert (t : LineEdit) (cs : List Char) : LineEdit :=
  let cs := clean cs
  let room := if t.limit > 0 then t.limit - t.value.length else cs.length
  if t.limit > 0 && room == 0 then t else
  let cs := cs.take room
  let t' := { t with pos := t.pos + cs.length }
  t'.replaceLine (t.value.take t.pos ++ cs ++ t.value.drop t.pos)

/-- Removes the character before the cursor. -/
def backspace (t : LineEdit) : LineEdit :=
  if t.value.isEmpty then t else
  let t := { t with value := t.value.take (t.pos - 1) ++ t.value.drop t.pos }
  if t.pos > 0 then t.setCursor (t.pos - 1) else t

/-- Removes the character under the cursor. -/
def deleteForward (t : LineEdit) : LineEdit :=
  if t.pos < t.value.length then { t with value := t.value.take t.pos ++ t.value.drop (t.pos + 1) }
  else t

/-- Removes everything before the cursor. -/
def deleteBefore (t : LineEdit) : LineEdit :=
  ({ t with value := t.value.drop t.pos, offset := 0 } : LineEdit).setCursor 0

/-- Removes everything from the cursor on. -/
def deleteAfter (t : LineEdit) : LineEdit :=
  let t := { t with value := t.value.take t.pos }
  t.setCursor t.value.length

/-- Moves the cursor left while the character before it is (`blank`) or is not white space. -/
def leftWhile (blank : Bool) (t : LineEdit) : LineEdit :=
  go t t.value.length
where
  /-- One step at a time. -/
  go (t : LineEdit) : Nat → LineEdit
    | 0 => t
    | fuel + 1 =>
      if t.pos > 0 && Blank.isBlank (t.charAt (t.pos - 1)) == blank then go (t.setCursor (t.pos - 1)) fuel
      else t

/-- Moves the cursor right while the character under it is (`blank`) or is not white space. -/
def rightWhile (blank : Bool) (t : LineEdit) : LineEdit :=
  go t t.value.length
where
  /-- One step at a time. -/
  go (t : LineEdit) : Nat → LineEdit
    | 0 => t
    | fuel + 1 =>
      if t.pos < t.value.length && Blank.isBlank (t.charAt t.pos) == blank then
        go (t.setCursor (t.pos + 1)) fuel
      else t

/-- Moves the cursor to the start of the word before it. -/
def wordBackward (t : LineEdit) : LineEdit :=
  if t.pos == 0 || t.value.isEmpty then t else leftWhile false (leftWhile true t)

/-- Moves the cursor past the end of the word under or after it. -/
def wordForward (t : LineEdit) : LineEdit :=
  if t.pos ≥ t.value.length || t.value.isEmpty then t else rightWhile false (rightWhile true t)

/-- Removes the word before the cursor, with the white space between them. The cursor steps
back over white space, then over the word, and stays after the space before the word. -/
def deleteWordBackward (t : LineEdit) : LineEdit :=
  if t.pos == 0 || t.value.isEmpty then t else
  let oldPos := t.pos
  let t := overBlank (t.setCursor (t.pos - 1)) t.value.length
  let t := overWord t t.value.length
  let kept := if oldPos > t.value.length then t.value.take t.pos
    else t.value.take t.pos ++ t.value.drop oldPos
  { t with value := kept }
where
  /-- Steps back while the cursor is on white space, down to the start. -/
  overBlank (t : LineEdit) : Nat → LineEdit
    | 0 => t
    | fuel + 1 =>
      if Blank.isBlank (t.charAt t.pos) && t.pos > 0 then overBlank (t.setCursor (t.pos - 1)) fuel
      else t
  /-- Steps back while the cursor is on the word; on white space, steps forward once. -/
  overWord (t : LineEdit) : Nat → LineEdit
    | 0 => t
    | fuel + 1 =>
      if t.pos == 0 then t
      else if !Blank.isBlank (t.charAt t.pos) then overWord (t.setCursor (t.pos - 1)) fuel
      else t.setCursor (t.pos + 1)

/-- Removes white space and the word after the cursor; the cursor stays. -/
def deleteWordForward (t : LineEdit) : LineEdit :=
  if t.pos ≥ t.value.length || t.value.isEmpty then t else
  let oldPos := t.pos
  let t := overBlank (t.setCursor (t.pos + 1)) t.value.length
  let t := rightWhile false t
  let t := { t with value := t.value.take oldPos ++ t.value.drop t.pos }
  t.setCursor oldPos
where
  /-- Steps forward while the cursor is on white space, up to the end. -/
  overBlank (t : LineEdit) : Nat → LineEdit
    | 0 => t
    | fuel + 1 =>
      if t.pos < t.value.length && Blank.isBlank (t.charAt t.pos) then
        let t := t.setCursor (t.pos + 1)
        if t.pos ≥ t.value.length then t else overBlank t fuel
      else t

/-- The editor after a key press, and whether it asks to be drawn again. -/
def press (t : LineEdit) (k : Key) : LineEdit × Bool :=
  if !t.focused then (t, false) else
  if k.fits ["ctrl+v"] then (t, true) else
  let t' :=
    if k.fits ["alt+backspace", "ctrl+w"] then t.deleteWordBackward
    else if k.fits ["backspace", "ctrl+h"] then t.backspace
    else if k.fits ["alt+left", "ctrl+left", "alt+b"] then t.wordBackward
    else if k.fits ["left", "ctrl+b"] then (if t.pos > 0 then t.setCursor (t.pos - 1) else t)
    else if k.fits ["alt+right", "ctrl+right", "alt+f"] then t.wordForward
    else if k.fits ["right", "ctrl+f"] then
      (if t.pos < t.value.length then t.setCursor (t.pos + 1) else t)
    else if k.fits ["home", "ctrl+a"] then t.setCursor 0
    else if k.fits ["delete", "ctrl+d"] then t.deleteForward
    else if k.fits ["end", "ctrl+e"] then t.setCursor t.value.length
    else if k.fits ["ctrl+k"] then t.deleteAfter
    else if k.fits ["ctrl+u"] then t.deleteBefore
    else if k.fits ["alt+delete", "alt+d"] then t.deleteWordForward
    else if k.fits ["down", "ctrl+n", "up", "ctrl+p"] then t
    else t.insert k.chars
  let t' := t'.settle
  (t', t'.pos != t.pos)

/-- The placeholder in the field, its first character under the cursor. -/
def placeholderView (t : LineEdit) : String :=
  let shown := t.placeholder.toList
  let room := t.width + 1
  let kept := min shown.length room
  let fill := if t.width + 1 > Screen.width t.placeholder then t.width + 1 - Screen.width t.placeholder else 0
  t.prompt ++ String.ofList (shown.take kept) ++ spaces fill

/-- The editor as shown. -/
def view (t : LineEdit) : String :=
  if t.value.isEmpty && !t.placeholder.isEmpty then t.placeholderView else
  let shown := (t.value.take t.offsetRight).drop t.offset
  let p := t.pos - t.offset
  let line := if p < shown.length then shown else shown ++ [' ']
  let used := Screen.width (String.ofList shown)
  let fill :=
    if t.width > 0 && used ≤ t.width then
      if p < shown.length then t.width - used + 1 else t.width - used
    else 0
  t.prompt ++ String.ofList line ++ spaces fill

end LineEdit

end NorStore.Screen
