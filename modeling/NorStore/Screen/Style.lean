import NorStore.Screen.Cells

/-!
# Blocks of text

The inspector draws its screen from blocks: texts of one or more lines. A *style* turns a text
into a block in fixed steps:

1. tabs become four spaces, a carriage return before a line feed is dropped, and an *inline*
   style joins the lines into one;
2. padding: spaces on the left and right of every line, empty lines above and below
   (not inline);
3. a height: empty lines below up to that many lines;
4. the lines are filled with spaces on the right up to the widest line, or up to the style's
   width when it is wider; a single line with no width set stays as it is;
5. a border around the lines, on the sides the style names (not inline);
6. margins: spaces left and right, lines of spaces above and below (not inline);
7. hard limits: every line cut to the maximum width, and only as many lines as the maximum
   height kept.

A style with no property at all leaves the text as it is, but for the tabs. Colours and bold
type take no cells and this screen has none, so they are not part of a style here. Nor is
wrapping: no block of the inspector has a width without being inline.

Blocks are put side by side with their tops aligned (every line of a block filled to the
block's width, and shorter blocks continued with empty lines), or one above the other with
their left edges aligned (every line filled to the widest line of all).
-/

namespace NorStore.Screen

/-- The characters of a border. -/
structure Border where
  /-- The edge along the top. -/
  top : Char
  /-- The edge along the bottom. -/
  bottom : Char
  /-- The edge on the left. -/
  left : Char
  /-- The edge on the right. -/
  right : Char
  /-- The top left corner. -/
  topLeft : Char
  /-- The top right corner. -/
  topRight : Char
  /-- The bottom left corner. -/
  bottomLeft : Char
  /-- The bottom right corner. -/
  bottomRight : Char

namespace Border

/-- A border of thin lines with rounded corners. -/
def rounded : Border :=
  ⟨'─', '─', '│', '│', '╭', '╮', '╰', '╯'⟩

/-- A border of thin lines with square corners. -/
def normal : Border :=
  ⟨'─', '─', '│', '│', '┌', '┐', '└', '┘'⟩

end Border

/-- One value for each side of a block. -/
structure Sides (α : Type) where
  /-- Above. -/
  top : α
  /-- On the right. -/
  right : α
  /-- Below. -/
  bottom : α
  /-- On the left. -/
  left : α

/-- No space on any side. -/
def Sides.zero : Sides Nat :=
  ⟨0, 0, 0, 0⟩

/-- How a text is made into a block. -/
structure Style where
  /-- Whether any property is set: a style without one leaves the text as it is. -/
  active : Bool := true
  /-- Space inside the border. -/
  padding : Sides Nat := Sides.zero
  /-- Space outside the border. -/
  margin : Sides Nat := Sides.zero
  /-- The border, if there is one. -/
  border : Option Border := none
  /-- The sides the border is drawn on; all four when none are named. -/
  borderSides : Option (Sides Bool) := none
  /-- The width lines are filled to; 0 for none. -/
  width : Nat := 0
  /-- The number of lines the block is filled to; 0 for none. -/
  height : Nat := 0
  /-- The width lines are cut at; 0 for none. -/
  maxWidth : Nat := 0
  /-- The number of lines kept; 0 for all. -/
  maxHeight : Nat := 0
  /-- Whether the text is kept on one line, without padding, border or margins. -/
  inline : Bool := false

/-- The style with no property. -/
def Style.bare : Style :=
  { active := false }

/-- Every line filled with spaces up to the widest line, or up to `w` when that is wider. -/
def fillLines (ls : List String) (w : Nat) : List String :=
  let target := max (widest ls) w
  ls.map fun l => l ++ spaces (target - width l)

/-- The edge of a border: the corners and the edge character between them, for a block whose
lines are `w` cells wide counting the left edge. -/
def edgeLine (left : String) (middle : Char) (right : String) (w : Nat) : String :=
  left ++ String.ofList (List.replicate (w - width left) middle) ++ right

/-- The lines with a border on the given sides. A corner is drawn only where both of its
sides are. -/
def framed (b : Border) (on : Sides Bool) (ls : List String) : List String :=
  let w := widest ls + (if on.left then 1 else 0)
  let corner (vertical other : Bool) (c : Char) : String :=
    if vertical && other then c.toString else ""
  let top := edgeLine (corner on.left on.top b.topLeft) b.top (corner on.right on.top b.topRight) w
  let bottom :=
    edgeLine (corner on.left on.bottom b.bottomLeft) b.bottom (corner on.right on.bottom b.bottomRight) w
  let sides := ls.map fun l =>
    (if on.left then b.left.toString else "") ++ l ++ (if on.right then b.right.toString else "")
  (if on.top then [top] else []) ++ sides ++ (if on.bottom then [bottom] else [])

/-- The lines with margins around them. -/
def withMargins (m : Sides Nat) (ls : List String) : List String :=
  let ls := ls.map fun l => spaces m.left ++ l ++ spaces m.right
  let w := widest ls
  List.replicate m.top (spaces w) ++ ls ++ List.replicate m.bottom (spaces w)

/-- Tabs as four spaces each. -/
def expandTabs (s : String) : String :=
  s.replace "\t" "    "

/-- The block a style makes of a text. -/
def Style.render (st : Style) (text : String) : String :=
  let text := expandTabs text
  if !st.active then text else
  let text := text.replace "\r\n" "\n"
  let text := if st.inline then text.replace "\n" "" else text
  let ls := lines text
  let ls := if st.inline then ls else
    let p := st.padding
    List.replicate p.top "" ++ ls.map (fun l => spaces p.left ++ l ++ spaces p.right) ++
      List.replicate p.bottom ""
  let ls := if ls.length < st.height then ls ++ List.replicate (st.height - ls.length) "" else ls
  let ls := if ls.length == 1 && st.width == 0 then ls else fillLines ls st.width
  let ls := if st.inline then ls else
    let ls := match st.border with
      | some b => framed b (st.borderSides.getD ⟨true, true, true, true⟩) ls
      | Option.none => ls
    withMargins st.margin ls
  let ls := if st.maxWidth > 0 then ls.map (truncate · st.maxWidth "") else ls
  let ls := if st.maxHeight > 0 then ls.take st.maxHeight else ls
  "\n".intercalate ls

/-- Blocks side by side, tops aligned. -/
def joinHorizontal (blocks : List String) : String :=
  match blocks with
  | [] => ""
  | [b] => b
  | _ =>
    let split := blocks.map lines
    let tallest := split.foldl (fun acc ls => max acc ls.length) 0
    let columns := split.map fun ls => (ls, widest ls)
    let row (i : Nat) : String :=
      String.join (columns.map fun (ls, w) => let l := ls.getD i ""; l ++ spaces (w - width l))
    "\n".intercalate ((List.range tallest).map row)

/-- Blocks one above the other, left edges aligned. -/
def joinVertical (blocks : List String) : String :=
  match blocks with
  | [] => ""
  | [b] => b
  | _ =>
    let split := blocks.flatMap lines
    "\n".intercalate (fillLines split 0)

end NorStore.Screen
