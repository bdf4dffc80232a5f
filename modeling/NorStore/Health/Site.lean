import NorStore.Health.Check
import NorStore.Storage.Manager

/-!
# Health of a storage manager

The checker of a manager grades both partitions by their state and the user partition's cache
by its backlog, against the number of entries the options allow.
-/

namespace NorStore.Health

open Storage

/-- The state of a partition, or why it cannot be had. -/
def partitionState (p : Partition) : SiteM (Except Fault Figures) :=
  tryCatch (do
      let q ← SiteM.resolve p.index
      pure (.ok (Figures.ofStat (← SiteM.onStore q StoreM.stat))))
    fun f => pure (.error f)

/-- The checks of a manager: one per partition, and the cache. -/
def siteChecker : SiteM (Checker SiteM) := do
  let m ← SiteM.manager
  let c : Checker SiteM := {}
  let c := Partition.all.foldl (fun c p =>
    c.register p.name (partitionCheck <$> partitionState p)) c
  pure (c.register "cache" (pure (cacheCheck m.cache m.options.cacheEntries)))

/-- Runs the checks of a manager. -/
def siteReport : SiteM Report := do
  (← siteChecker).run

end NorStore.Health
