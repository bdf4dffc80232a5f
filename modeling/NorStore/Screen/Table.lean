import NorStore.Screen.Style
import NorStore.Screen.Key

/-!
# A scrolling table

A table has columns of fixed widths, rows of texts and a cursor on one row. It shows a header
line with a rule under it, then `height` lines of rows.

*Cells.* A text wider than its column is cut with `…`; every cell is filled to its column's
width and has a space on either side.

*Rows on screen.* Only the rows within `height` of the cursor are laid out (`start` up to
`stop`), one line each, and `offset` is the first of those lines on screen. The cursor moves
by a row (`up`/`k`, `down`/`j`), a page (`pgup`/`b`, `pgdown`/`f`/space), half a page
(`ctrl+u`/`u`, `ctrl+d`/`d`) or to either end (`home`/`g`, `end`/`G`). Moving lays the rows
out again and shifts `offset` by the rules below, which keep the cursor's row in view in the
common cases; they are kept exactly, corner cases included, because they decide what is on
screen. The cursor stays within the rows, and is `-1` after a move in a table without rows.

Setting new rows keeps the cursor, moved up to the last row when the rows are fewer.
-/

namespace NorStore.Screen

/-- A column: its title and its width in cells. -/
structure Column where
  /-- The title. -/
  title : String
  /-- The width. -/
  width : Nat
  deriving Repr, Inhabited

/-- The value `v` kept within `[lo, hi]`, `hi` winning when they cross. -/
def clampTo (v lo hi : Int) : Int :=
  min (max v lo) hi

/-- A table with a cursor. -/
structure Table where
  /-- The columns. -/
  columns : List Column
  /-- The rows, a text per column each. -/
  rows : Array (List String) := #[]
  /-- The row the cursor is on. -/
  cursor : Int := 0
  /-- The first row laid out. -/
  start : Int := 0
  /-- The end of the rows laid out. -/
  stop : Int := 0
  /-- The first line of the laid-out rows on screen. -/
  offset : Int := 0
  /-- The lines of rows on screen. -/
  height : Nat
  /-- The laid-out rows, a line each. -/
  shown : List String := [""]
  deriving Repr, Inhabited

namespace Table

/-- A cell's text cut and filled to a width. -/
def fitCell (w : Nat) (s : String) : String :=
  ({ inline := true, width := w, maxWidth := w } : Style).render (truncate s w "…")

/-- The style of a header cell: a space on either side and a rule below. -/
def headerStyle : Style :=
  { padding := ⟨0, 1, 0, 1⟩, border := some Border.normal,
    borderSides := some ⟨false, false, true, false⟩ }

/-- The style of a cell: a space on either side. -/
def cellStyle : Style :=
  { padding := ⟨0, 1, 0, 1⟩ }

/-- The header: the titles with a rule under them. -/
def header (t : Table) : String :=
  joinHorizontal (t.columns.map fun c => headerStyle.render (fitCell c.width c.title))

/-- A row as one line. -/
def rowLine (t : Table) (row : List String) : String :=
  joinHorizontal ((t.columns.zip row).map fun (c, v) => cellStyle.render (fitCell c.width v))

/-- The last value `offset` can take: the laid-out lines less a screen, or 0. -/
def maxOffset (t : Table) : Int :=
  max 0 ((t.shown.length : Int) - t.height)

/-- Puts `offset` within the lines laid out. -/
def setOffset (t : Table) (n : Int) : Table :=
  { t with offset := min t.maxOffset (max 0 n) }

/-- Lays out the rows around the cursor again; `offset` goes to the last screen when it is
past the lines. -/
def layout (t : Table) : Table :=
  let h : Int := t.height
  let start := if t.cursor ≥ 0 then clampTo (t.cursor - h) 0 t.cursor else 0
  let stop := clampTo (t.cursor + h) t.cursor t.rows.size
  let laid := ((List.range (stop - start).toNat).map fun (i : Nat) => (start + (i : Int)).toNat).map fun i =>
    t.rowLine (t.rows.getD i [])
  let t := { t with start, stop, shown := lines (joinVertical laid) }
  if t.offset > (t.shown.length : Int) - 1 then t.setOffset t.maxOffset else t

/-- A new table with the columns and `height` lines of rows. -/
def create (columns : List Column) (height : Nat) : Table :=
  layout { columns, height }

/-- Replaces the rows. -/
def setRows (t : Table) (rows : Array (List String)) : Table :=
  let t := { t with rows }
  let t := if t.cursor > (rows.size : Int) - 1 then { t with cursor := max 0 ((rows.size : Int) - 1) } else t
  t.layout

/-- Moves the cursor up `n` rows. -/
def moveUp (t : Table) (n : Int) : Table :=
  let t := { t with cursor := clampTo (t.cursor - n) 0 ((t.rows.size : Int) - 1) }
  let h : Int := t.height
  let t :=
    if t.start == 0 then t.setOffset (clampTo t.offset 0 t.cursor)
    else if t.start < h then { t with offset := clampTo (clampTo (t.offset + n) 0 t.cursor) 0 h }
    else if t.offset ≥ 1 then { t with offset := clampTo (t.offset + n) 1 h }
    else t
  t.layout

/-- Moves the cursor down `n` rows. -/
def moveDown (t : Table) (n : Int) : Table :=
  let t := ({ t with cursor := clampTo (t.cursor + n) 0 ((t.rows.size : Int) - 1) } : Table).layout
  let h : Int := t.height
  if t.stop == t.rows.size && t.offset > 0 then t.setOffset (clampTo (t.offset - n) 1 h)
  else if t.cursor > (t.stop - t.start) / 2 && t.offset > 0 then
    t.setOffset (clampTo (t.offset - n) 1 t.cursor)
  else if t.offset > 1 then t
  else if t.cursor > t.offset + h - 1 then t.setOffset (clampTo (t.offset + 1) 0 1)
  else t

/-- The table after a key press. -/
def press (t : Table) (k : Key) : Table :=
  let h : Int := t.height
  if k.fits ["up", "k"] then t.moveUp 1
  else if k.fits ["down", "j"] then t.moveDown 1
  else if k.fits ["b", "pgup"] then t.moveUp h
  else if k.fits ["f", "pgdown", " "] then t.moveDown h
  else if k.fits ["u", "ctrl+u"] then t.moveUp (h / 2)
  else if k.fits ["d", "ctrl+d"] then t.moveDown (h / 2)
  else if k.fits ["home", "g"] then t.moveUp t.cursor
  else if k.fits ["end", "G"] then t.moveDown t.rows.size
  else t

/-- The table as shown: the header, then a screen of row lines filled to `height`. -/
def view (t : Table) : String :=
  let top := max 0 t.offset
  let visible := (t.shown.drop top.toNat).take t.height
  let screen : Style := { height := t.height, maxHeight := t.height }
  t.header ++ "\n" ++ screen.render ("\n".intercalate visible)

end Table

end NorStore.Screen
