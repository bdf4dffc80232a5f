import NorStore.Inspector.Model
import NorStore.Decimal.Notation
import NorStore.Time.Duration

/-!
# Drawing the inspector

Before the window's size is known the inspector shows `Initializing...`. After that it
shows, from the top: the title, the tabs, the page, the message if there is one (`✓` before
a report, `✗` before a failure) and a line of help, with an empty line between them.

* The *overview* has three boxes side by side: a box of statistics for each partition (a
  partition never read shows zeros) and one for the cache, with the time the inspector has
  been running.
* The *keys* page has a boxed heading naming the partition, the key table (or
  `No entry found`) and a hint.
* The *edit* page has a boxed heading, the editor and examples.
* The *metrics* page has a boxed heading and the metric table (or a note that there are no
  metrics yet).

The help line names a key and what it does for each binding, separated by ` • `; when the next
binding would make the line wider than the window and an ellipsis still fits, the line ends
with ` …` instead.
-/

namespace NorStore.Inspector

open Storage Screen

/-- The title: a line above it and two spaces before it. -/
def titleStyle : Style :=
  { margin := ⟨1, 0, 0, 2⟩ }

/-- A boxed heading. -/
def headingStyle : Style :=
  { border := some Border.rounded, padding := ⟨0, 1, 0, 1⟩ }

/-- The tab of the page shown, and of the others. -/
def tabStyle : Style :=
  { padding := ⟨0, 2, 0, 2⟩ }

/-- A page: a line above it and two spaces before it. -/
def pageStyle : Style :=
  { margin := ⟨1, 0, 0, 2⟩ }

/-- A box of figures. -/
def boxStyle : Style :=
  { border := some Border.rounded, padding := ⟨1, 2, 1, 2⟩, margin := ⟨0, 2, 0, 0⟩ }

/-- A message. -/
def messageStyle : Style :=
  {}

/-- Help: a line above it and two spaces before it. -/
def helpStyle : Style :=
  { margin := ⟨1, 0, 0, 2⟩ }

/-- The bindings the help line names. -/
def helpItems : List (String × String) :=
  [("tab", "next view"), ("p", "switch partition"), ("r", "refresh"), ("q", "quit")]

/-- The help line for a window `limit` cells wide (0 for no limit). -/
def shortHelp (limit : Nat) (items : List (String × String)) : String :=
  go items 0 ""
where
  /-- Adds the bindings one by one while they fit. -/
  go : List (String × String) → Nat → String → String
    | [], _, out => out
    | (key, what) :: rest, used, out =>
      let item := (if used > 0 then " • " else "") ++ key ++ " " ++ what
      let w := width item
      if limit > 0 && used + w > limit && used + width " …" < limit then out ++ " …"
      else go rest (used + w) (out ++ item)

/-- The tabs. The tab of the page shown differs from the others only in colour. -/
def tabs : String :=
  joinHorizontal (Page.all.map fun p => tabStyle.render p.title)

/-- A partition's box. -/
def partitionBox (p : Partition) (st : Option Stat) : String :=
  let figure (f : Stat → String) : String := (st.map f).getD "0"
  let address (f : Stat → Address) : String := (st.map fun s => (f s).render).getD "0:0x0000"
  boxStyle.render (p.name.toUpper ++ " partition\n" ++
    "Sectors:     " ++ figure (fun s => toString s.config.sectorCount.toNat) ++ " x " ++
      figure (fun s => toString s.config.sectorSize.toNat) ++ "\n" ++
    "Active:      sector " ++ figure (fun s => toString s.activeSector.toNat) ++ "\n" ++
    "ATE cursor:  " ++ address (·.ateCursor) ++ "\n" ++
    "Data cursor: " ++ address (·.dataCursor) ++ "\n" ++
    "Live keys:   " ++ figure (fun s => toString s.usage.live) ++ "\n" ++
    "Free:        " ++ figure (fun s => toString s.usage.free) ++ "\n" ++
    "Reclaimable: " ++ figure (fun s => toString s.usage.reclaimable) ++ "\n" ++
    "Available:   " ++ figure (fun s => toString (s.usage.free - s.usage.reclaimable)))

/-- A duration rounded to whole seconds, halves away from zero. -/
def roundSeconds (ns : Int) : Int :=
  let s : Int := 1000000000
  let r := ns % s
  if ns ≥ 0 then (if r + r < s then ns - r else ns + s - r)
  else
    let r := s - r
    if r == s then ns else if r + r < s then ns + r else ns - s + r

/-- The cache's box, or a note that there is no cache. -/
def cacheBox (mgr : Manager) (uptime : Int) : String :=
  boxStyle.render <| match mgr.cache with
    | none => "Cache disabled"
    | some c =>
      "User cache\n" ++
      "Entries:  " ++ toString c.size ++ "/" ++ toString mgr.options.cacheEntries ++ "\n" ++
      "Dirty:    " ++ toString c.dirtyCount ++ "\n" ++
      "Hits:     " ++ toString c.hits ++ "\n" ++
      "Misses:   " ++ toString c.misses ++ "\n" ++
      "Hit rate: " ++ Decimal.ofFloatFixed (c.hitRate * 100) 1 ++ "%\n" ++
      "Uptime:   " ++ Duration.render (roundSeconds uptime)

/-- The overview page. -/
def overview (m : Model) (mgr : Manager) (uptime : Int) : String :=
  pageStyle.render (joinHorizontal
    ((Partition.all.map fun p => partitionBox p (m.statOf p)) ++ [cacheBox mgr uptime]))

/-- The keys page. -/
def keysPage (m : Model) : String :=
  pageStyle.render (headingStyle.render ("Keys: " ++ m.partition.name ++ " partition") ++ "\n\n" ++
    (if m.keyTable.rows.isEmpty then "No entry found" else m.keyTable.view) ++ "\n\n" ++
    helpStyle.render "Navigate with ↑/↓ • 'p' switches partition • 'r' refreshes")

/-- The edit page. -/
def editPage (m : Model) : String :=
  pageStyle.render (headingStyle.render "Edit user partition" ++ "\n\n" ++ m.input.view ++ "\n\n" ++
    helpStyle.render "Examples:\n  wifi_ssid=home\n  -wifi_ssid\n")

/-- The metrics page. -/
def metricsPage (m : Model) : String :=
  pageStyle.render (headingStyle.render "Metrics" ++ "\n\n" ++
    (if m.metricTable.rows.isEmpty then helpStyle.render "No metrics recorded yet"
     else m.metricTable.view))

/-- The screen, for the manager in its present state and the time the inspector has been
running, in nanoseconds. -/
def view (m : Model) (mgr : Manager) (uptime : Int) : String :=
  if m.width == 0 then "Initializing..." else
  let page := match m.page with
    | .overview => overview m mgr uptime
    | .keys => keysPage m
    | .edit => editPage m
    | .metrics => metricsPage m
  let message := if m.message.isEmpty then "" else
    "\n\n" ++ messageStyle.render ((if m.failed then "✗ " else "✓ ") ++ m.message)
  titleStyle.render "NVS Inspector" ++ "\n\n" ++ tabs ++ "\n\n" ++ page ++ message ++ "\n\n" ++
    helpStyle.render (shortHelp m.width helpItems)

end NorStore.Inspector
