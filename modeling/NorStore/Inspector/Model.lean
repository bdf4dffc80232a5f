import NorStore.Screen.LineEdit
import NorStore.Screen.Table
import NorStore.Storage.Manager

/-!
# The inspector

The inspector is a full-screen view of an open storage manager with four pages: an
*overview* of both partitions and the cache, the *keys* of one partition, an *editor* for
the user partition and the engine's *metrics*. It is a state (`Model`) changed by messages:
key presses, a new window size and the refresh timer.

*Refreshing* reads the statistics of both partitions, the key table of the partition shown and,
when there are meters, the metrics. A failure is shown as the message and stops the refresh
where it is, except that a failure to list the keys still lets the metrics be read.

*Keys.* The key table lists the keys on flash, newest first, with their length, the address of
their entry and their value; a value comes through the manager, so a value still waiting in
the cache shows instead of the one on flash, and a key that has no value after all is left out.

*Keys pressed.* `ctrl+c` quits, and so does `q` outside the editor; `tab` and `shift+tab`
turn the pages, and the editor has the focus exactly while its page is shown; `enter` in the
editor applies its line; outside the editor `p` switches the partition of the key table and
`r` refreshes. Every other press goes to the editor or the table of the page shown.

*Applying* a line: `-key` deletes the key, `key=value` writes the value through the cache (a
value may hold `=`), and anything else, or nothing, is refused with a message. After a change
the line is cleared and the inspector refreshes.

An update answers whether it asks for more work: quitting, the next timer tick, or the
editor's cursor starting to blink again.
-/

namespace NorStore.Inspector

open Storage Screen

/-- The pages, in the order `tab` turns them. -/
inductive Page where
  | overview
  | keys
  | edit
  | metrics
  deriving Repr, DecidableEq, Inhabited

namespace Page

/-- The pages in order. -/
def all : List Page :=
  [.overview, .keys, .edit, .metrics]

/-- The position of a page. -/
def index : Page → Nat
  | .overview => 0
  | .keys => 1
  | .edit => 2
  | .metrics => 3

/-- The page at a position, counted round. -/
def ofIndex (n : Nat) : Page :=
  match n % 4 with
  | 0 => .overview
  | 1 => .keys
  | 2 => .edit
  | _ => .metrics

/-- The title on a page's tab. -/
def title : Page → String
  | .overview => "Overview"
  | .keys => "Keys"
  | .edit => "Edit"
  | .metrics => "Metrics"

end Page

/-- The inspector's state. The manager it shows is not part of it: every change runs on the
manager in `SiteM`. -/
structure Model where
  /-- The page shown. -/
  page : Page := .overview
  /-- The partition of the key table. -/
  partition : Partition := .user
  /-- Keys: key, length, address and value. -/
  keyTable : Table
  /-- Metrics: name with labels, and value. -/
  metricTable : Table
  /-- The editor of the edit page. -/
  input : LineEdit
  /-- The window's width in cells; 0 until the first size is known. -/
  width : Nat := 0
  /-- The window's height in lines. -/
  height : Nat := 0
  /-- The message under the page; empty for none. -/
  message : String := ""
  /-- Whether the message reports a failure. -/
  failed : Bool := false
  /-- The last statistics read of each partition. -/
  stats : List (Partition × Stat) := []
  /-- Whether the inspector reads meters. -/
  metered : Bool
  deriving Inhabited

/-- A message to the inspector. -/
inductive Msg where
  | key (k : Key)
  | resize (width height : Nat)
  | tick

/-- Lines of rows a table shows: twelve lines asked for, less the one of its header. -/
def tableRows : Nat :=
  11

/-- The key table's columns. -/
def keyColumns : List Column :=
  [⟨"Key", 24⟩, ⟨"Len", 6⟩, ⟨"ATE", 12⟩, ⟨"Value", 40⟩]

/-- The metric table's columns. -/
def metricColumns : List Column :=
  [⟨"Metric", 64⟩, ⟨"Value", 12⟩]

/-- The editor of a new inspector. -/
def editor : LineEdit :=
  { width := 60, limit := 200, placeholder := "key=value, or -key to delete" }

/-- Runs an operation, answering its failure instead of failing. -/
def attempt (act : SiteM α) : SiteM (Except Fault α) :=
  tryCatch (.ok <$> act) fun f => pure (.error f)

/-- The rows of the key table for a partition. -/
def keyRows (p : Partition) : SiteM (Array (List String)) := do
  let q ← SiteM.resolve p.index
  let first ← SiteM.onStore q StoreM.iterator
  let mut it := first
  let mut rows : Array (List String) := #[]
  for _ in [0:first.walker.limit + 2] do
    let (next, r) ← SiteM.onStore q (StoreM.advance it)
    it := next
    match r with
    | .error f => if f.is .notFound then return rows else throw f
    | .ok () =>
      let info ← match it.info with
        | .ok i => pure i
        | .error f => throw f
      match ← attempt (SiteM.getPlain p.index info.key) with
      | .error f => if f.is .notFound then continue else throw f
      | .ok v =>
        rows := rows.push
          [Utf8.lossy info.key, toString v.size, info.addr.render, SiteM.formatValue v]
  pure rows

/-- The rows of the metric table: the engine's series, by name. -/
def metricRows (samples : List (String × Int)) : Array (List String) :=
  ((samples.filter fun (id, _) => id.startsWith "nvs_").map fun (id, v) =>
    [id, Metrics.showValue v]).toArray

namespace Model

/-- The model with a message. -/
def say (m : Model) (text : String) (failed : Bool) : Model :=
  { m with message := text, failed }

/-- The statistics last read for a partition. -/
def statOf (m : Model) (p : Partition) : Option Stat :=
  m.stats.lookup p

/-- Reads the statistics, the key table and the metrics again. -/
def refresh (m : Model) : SiteM Model := do
  let mut m := m
  for p in Partition.all do
    match ← attempt (do SiteM.onStore (← SiteM.resolve p.index) StoreM.stat) with
    | .error f => return m.say f.message true
    | .ok st => m := { m with stats := (p, st) :: m.stats.filter (·.1 != p) }
  match ← attempt (keyRows m.partition) with
  | .error f => m := m.say f.message true
  | .ok rows => m := { m with keyTable := m.keyTable.setRows rows }
  if m.metered then
    let samples := ((← get).rig.meters.map Metrics.Registry.samples).getD []
    m := { m with metricTable := m.metricTable.setRows (metricRows samples) }
  pure m

/-- A new inspector, refreshed. -/
def create (metered : Bool) : SiteM Model :=
  refresh { keyTable := Table.create keyColumns tableRows,
            metricTable := Table.create metricColumns tableRows, input := editor, metered }

/-- Shows a page; the editor has the focus exactly on its own page. -/
def turnTo (m : Model) (p : Page) : Model :=
  { m with page := p, input := { m.input with focused := p == .edit } }

/-- Applies the editor's line to the user partition. -/
def apply (m : Model) : SiteM Model := do
  let line := Blank.trim (String.ofList m.input.value)
  if line.isEmpty then return m.say "Nothing to apply" true
  let done ← if line.startsWith "-" then
      let key := (line.drop 1).toString
      attempt (do SiteM.delete Partition.user.index key.toUTF8; pure ("Deleted " ++ key))
    else
      match line.splitOn "=" with
      | key :: first :: more =>
        let value := "=".intercalate (first :: more)
        attempt (do
          discard (SiteM.writeCached Partition.user.index key.toUTF8 value.toUTF8)
          pure ("Set " ++ key ++ " (" ++ toString value.utf8ByteSize ++ " bytes), sync pending"))
      | _ => return m.say "Expected key=value" true
  match done with
  | .error f => pure (m.say f.message true)
  | .ok text => refresh { m.say text false with input := m.input.setValue "" }

/-- The other partition. -/
def otherPartition : Partition → Partition
  | .user => .factory
  | .factory => .user

/-- The inspector after a message, and whether it asks for more work. -/
def update (m : Model) : Msg → SiteM (Model × Bool)
  | .resize w h => pure ({ m with width := w, height := h }, false)
  | .tick => do pure (← m.refresh, true)
  | .key k => do
    let editing := m.page == .edit && m.input.focused
    if k.special == some "ctrl+c" || (k.fits ["ctrl+c", "q"] && !editing) then return (m, true)
    if k.fits ["tab"] then return (m.turnTo (Page.ofIndex (m.page.index + 1)), false)
    if k.fits ["shift+tab"] then return (m.turnTo (Page.ofIndex (m.page.index + 3)), false)
    if k.fits ["enter"] && editing then return (← m.apply, false)
    if k.fits ["p"] && !editing then
      return (← refresh { m with partition := otherPartition m.partition }, false)
    if k.fits ["r"] && !editing then return (← m.refresh, false)
    match m.page with
    | .edit =>
      let (input, more) := m.input.press k
      pure ({ m with input }, more)
    | .keys => pure ({ m with keyTable := m.keyTable.press k }, false)
    | .metrics => pure ({ m with metricTable := m.metricTable.press k }, false)
    | .overview => pure (m, false)

/-- Whether a new inspector asks for work: it does, the cursor's blinking and the timer. -/
def starts : Bool :=
  true

end Model

end NorStore.Inspector
