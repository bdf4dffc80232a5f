/-!
# Key presses

A key press is either a special key, named as the terminal names it (`enter`, `tab`,
`shift+tab`, `ctrl+c`, `up`, `pgdown`, ...), or characters typed. Either may come with the alt
key held. Bindings match a press by its name: the special key's name, or the characters
themselves, after `alt+` when alt is held. The space bar is a special key named by a space,
and it types a space.
-/

namespace NorStore.Screen

/-- One key press. -/
structure Key where
  /-- The special key's name, or none for typed characters. -/
  special : Option String := none
  /-- The characters the press types. -/
  chars : List Char := []
  /-- Whether alt was held. -/
  alt : Bool := false
  deriving Repr, Inhabited, DecidableEq

namespace Key

/-- A press of a special key, by name. -/
def named (name : String) (alt : Bool := false) : Key :=
  if name == "space" then { special := some name, chars := [' '], alt }
  else { special := some name, alt }

/-- Characters typed at once. -/
def typed (s : String) (alt : Bool := false) : Key :=
  { chars := s.toList, alt }

/-- The name bindings match a press by. -/
def name (k : Key) : String :=
  (if k.alt then "alt+" else "") ++
    match k.special with
    | some "space" => " "
    | some n => n
    | none => String.ofList k.chars

/-- The special keys, by name. -/
def specialNames : List String :=
  ["tab", "shift+tab", "enter", "ctrl+c", "up", "down", "left", "right", "backspace", "delete",
   "esc", "home", "end", "pgup", "pgdown", "space", "ctrl+a", "ctrl+e", "ctrl+k", "ctrl+u",
   "ctrl+w", "ctrl+d", "ctrl+h"]

/-- A press given by name: a special key when it names one, else the characters typed. -/
def ofName (name : String) (alt : Bool := false) : Key :=
  if specialNames.contains name then named name alt else typed name alt

/-- Whether a press matches any of the names of a binding. -/
def fits (k : Key) (names : List String) : Bool :=
  names.contains k.name

end Key

end NorStore.Screen
