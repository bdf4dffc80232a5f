import NorStore.Fault
import NorStore.Storage.Cache
import NorStore.Store.Usage

/-!
# Health checks

A check grades one component as healthy, degraded or unhealthy, with a message and named
details. A checker holds checks by name (a later check of the same name replaces the earlier
one), runs them in name order and grades the whole by the worst grade.

* A partition is graded by how much of its data capacity is used: the capacity is one sector
  fewer than it has, times the sector size less one table entry (both as 32-bit words, so they
  wrap), and what is not free is used. Over 95 % is unhealthy, over 80 % degraded. A partition
  that cannot report its state is unhealthy, with the fault's text.
* The cache is degraded when as many entries as it may hold are dirty, since it can then take
  no new value until the next write-back.
-/

namespace NorStore.Health

/-- How well a component is doing. -/
inductive Status where
  | healthy | degraded | unhealthy
  deriving Repr, DecidableEq, Inhabited

namespace Status

/-- The name of a grade. -/
def name : Status → String
  | healthy => "healthy"
  | degraded => "degraded"
  | unhealthy => "unhealthy"

/-- The worse of two grades. -/
def worst : Status → Status → Status
  | unhealthy, _ | _, unhealthy => unhealthy
  | degraded, _ | _, degraded => degraded
  | healthy, healthy => healthy

end Status

/-- A detail of a check: a count or a fraction. -/
inductive Detail where
  | count (n : Int)
  | ratio (x : Float)
  deriving Inhabited

/-- The outcome of one check. -/
structure Check where
  /-- The component checked. -/
  name : String := ""
  /-- Its grade. -/
  status : Status
  /-- What is wrong, or a summary. -/
  message : String
  /-- Named figures behind the grade. -/
  details : List (String × Detail) := []
  deriving Inhabited

/-- The outcome of every check of a checker. -/
structure Report where
  /-- The worst grade. -/
  status : Status
  /-- The checks in name order. -/
  checks : List Check
  deriving Inhabited

/-- Named checks that run in a monad. -/
structure Checker (m : Type → Type) where
  /-- The checks, in the order they were first registered. -/
  checks : List (String × m Check) := []

namespace Checker

variable {m : Type → Type} [Monad m]

/-- Adds a check, replacing one of the same name. -/
def register (c : Checker m) (name : String) (check : m Check) : Checker m :=
  if c.checks.any (·.1 == name) then
    { checks := c.checks.map fun (n, k) => if n == name then (n, check) else (n, k) }
  else { checks := c.checks ++ [(name, check)] }

/-- Runs every check in name order and grades the whole by the worst. -/
def run (c : Checker m) : m Report := do
  let sorted := c.checks.mergeSort fun a b => a.1 ≤ b.1
  let checks ← sorted.mapM fun (n, k) => do
    let r ← k
    pure { r with name := n }
  pure { status := checks.foldl (fun s k => s.worst k.status) .healthy, checks }

end Checker

/-- Usage above this share of capacity, in percent, is degraded. -/
def degradedUsage : Float := 80

/-- Usage above this share of capacity, in percent, is unhealthy. -/
def unhealthyUsage : Float := 95

/-- A signed 64-bit word's value of an integer (wrapping). -/
def wrap64 (x : Int) : Int :=
  (x + Nat.pow 2 63) % Nat.pow 2 64 - Nat.pow 2 63

/-- The figures a partition is graded by. -/
structure Figures where
  /-- Sectors of the partition. -/
  sectorCount : UInt32
  /-- Bytes of a sector. -/
  sectorSize : UInt32
  /-- Bytes of a table entry. -/
  entrySize : UInt32
  /-- Bytes free. -/
  free : Int
  /-- Bytes that a collection would free. -/
  reclaimable : Int
  /-- Keys with a value. -/
  live : Int

/-- The figures of a store's summary. -/
def Figures.ofStat (st : Stat) : Figures :=
  { sectorCount := st.config.sectorCount, sectorSize := st.config.sectorSize,
    entrySize := st.entrySize, free := st.usage.free, reclaimable := st.usage.reclaimable,
    live := st.usage.live }

/-- Grades a partition from its figures, or from the fault that kept it from reporting. -/
def partitionCheck (figures : Except Fault Figures) : Check :=
  match figures with
  | .error f => { status := .unhealthy, message := f.message }
  | .ok st =>
    let sectors := (st.sectorCount - 1).toNat
    let room := (st.sectorSize - st.entrySize).toNat
    let capacity := wrap64 (sectors * room)
    let used := wrap64 (capacity - st.free)
    let usage := Float.ofInt used / Float.ofInt capacity * 100
    let details := [("capacity_bytes", Detail.count capacity), ("used_bytes", .count used),
      ("reclaimable_bytes", .count st.reclaimable), ("live_entries", .count st.live),
      ("usage_percent", .ratio usage)]
    if usage > unhealthyUsage then
      { status := .unhealthy, message := "Partition almost full", details }
    else if usage > degradedUsage then
      { status := .degraded, message := "Partition filling up", details }
    else
      { status := .healthy, message := toString st.free ++ " bytes free", details }

/-- Grades the write-back backlog of a cache that may hold `capacity` entries. -/
def cacheCheck (cache : Option Storage.Cache) (capacity : Int) : Check :=
  match cache with
  | none => { status := .healthy, message := "Cache disabled" }
  | some c =>
    if capacity == 0 then { status := .healthy, message := "Cache disabled" }
    else
      let dirty := c.dirtyCount
      let details := [("entries", Detail.count c.size), ("dirty", .count dirty),
        ("hits", .count c.hits), ("misses", .count c.misses), ("hit_rate", .ratio c.hitRate)]
      if (dirty : Int) ≥ capacity then
        { status := .degraded, message := "Every cache entry awaits write-back", details }
      else
        { status := .healthy,
          message := toString dirty ++ " of " ++ toString capacity ++ " entries dirty", details }

end NorStore.Health
