import NorStore.Health.Check
import NorStore.Storage.WriteBack

/-!
# A cache on the bench

The steps a write-back cache offers, applied to a cache on its own: to the cache as it is kept
(`runOn`, on a `WriteBack`), and to its list of entries (`run`, on a `Cache`, the view the
manager holds).
-/

namespace NorStore.Bench

open Storage

/-- One step on a cache. -/
inductive CacheStep where
  | fits (n : Int)
  | get (key : ByteArray)
  | peek (key : ByteArray)
  | equal (key data : ByteArray)
  | victim (key : ByteArray)
  | put (key data : ByteArray) (dirty : Bool)
  | markClean (key data : ByteArray)
  | dirty
  | remove (key : ByteArray)
  | clear
  | stats
  /-- The health check of the cache against a capacity. -/
  | health (capacity : Int)

/-- What a cache step answers. -/
inductive CacheReply where
  | unit
  | flag (b : Bool)
  | lookup (value : Option ByteArray)
  | entry (e : Option CacheEntry)
  | entries (es : List CacheEntry)
  | stats (hits misses : Nat) (rate : Float) (size dirty : Nat)
  | check (c : Health.Check)

/-- The statistics of a cache. -/
def Cache.statsReply (c : Cache) : CacheReply :=
  .stats c.hits c.misses c.hitRate c.size c.dirtyCount

/-- Applies one step. -/
def CacheStep.run (c : Cache) : CacheStep → Cache × CacheReply
  | .fits n => (c, .flag (c.fits n))
  | .get key => let (c, v) := c.get key; (c, .lookup v)
  | .peek key => (c, .entry (c.find? key))
  | .equal key data => (c, .flag (c.holds key data))
  | .victim key => (c, .entry (c.victim key))
  | .put key data d => let (c, ok) := c.put key data d; (c, .flag ok)
  | .markClean key data => (c.markClean key data, .unit)
  | .dirty => (c, .entries c.dirtyEntries)
  | .remove key => (c.remove key, .unit)
  | .clear => (c.clear, .unit)
  | .stats => (c, Cache.statsReply c)
  | .health capacity => (c, .check (Health.cacheCheck (some c) capacity))

/-- Applies one step to the cache as it is kept. The health check grades its list of entries. -/
def CacheStep.runOn (w : WriteBack) : CacheStep → WriteBack × CacheReply
  | .fits n => (w, .flag (w.fits n))
  | .get key => let (w, v) := w.get key; (w, .lookup v)
  | .peek key => (w, .entry (w.peek key))
  | .equal key data => (w, .flag (w.holds key data))
  | .victim key => (w, .entry (w.victim key))
  | .put key data d => let (w, ok) := w.put key data d; (w, .flag ok)
  | .markClean key data => (w.markClean key data, .unit)
  | .dirty => (w, .entries w.dirtyEntries)
  | .remove key => (w.remove key, .unit)
  | .clear => (w.clear, .unit)
  | .stats => (w, .stats w.hits w.misses w.hitRate w.size w.dirty.toNat)
  | .health capacity => (w, .check (Health.cacheCheck (some w.toCache) capacity))

end NorStore.Bench
