import NorStore.Store.Iterator

/-!
# Space accounting

Free space is what the ring holds when one sector is kept empty for collection, less the cost
of every live value: a value costs its length rounded up to write blocks plus one entry.
Superseded values and deletions cost the same and are *reclaimable*: a collection would win them
back; so is every slot that holds garbage (an entry each). What is *available* is the free space
less what is reclaimable.
-/

namespace NorStore

/-- The space a store uses. -/
structure Usage where
  /-- Bytes not taken by live values. -/
  free : Int
  /-- Bytes taken by superseded values, deletions and garbage. -/
  reclaimable : Int := 0
  /-- Keys with a value. -/
  live : Nat := 0
  deriving Inhabited, Repr

/-- A summary of a mounted store. -/
structure Stat where
  /-- The configuration. -/
  config : Config
  /-- Bytes of a table entry. -/
  entrySize : UInt32
  /-- The sector being filled. -/
  activeSector : UInt32
  /-- The entry cursor. -/
  ateCursor : Address
  /-- The data cursor. -/
  dataCursor : Address
  /-- The space used. -/
  usage : Usage
  deriving Inhabited

namespace StoreM

/-- The space the store uses, found by walking the whole table. -/
def usage : StoreM Usage := do
  let s ← store
  let ate : Int := s.entrySize.toNat
  let capacity : Int :=
    ((s.config.sectorCount - 1).toNat : Int) * ((s.config.sectorSize - s.entrySize).toNat : Int)
  let w := Walker.start s
  go s ate (w.limit + 1) w [] { free := capacity }
where
  /-- Accounts for the rest of the walk. -/
  go (s : Store) (ate : Int) : Nat → Walker → List (Vector UInt8 24) → Usage → StoreM Usage
    | 0, _, _, u => pure u
    | fuel + 1, w, seen, u => do
      let (slot, _, w) ← w.next
      let (seen, u) := match slot with
        | .erased => (seen, u)
        | .invalid _ => (seen, { u with reclaimable := u.reclaimable + ate })
        | .valid e =>
          let cost : Int := (alignUp e.length.toUInt32 s.config.writeBlock).toNat + ate
          if seen.contains e.key || e.length = 0 then
            (e.key :: seen, { u with reclaimable := u.reclaimable + cost })
          else (e.key :: seen, { u with free := u.free - cost, live := u.live + 1 })
      if ← w.done then return u
      go s ate fuel w seen u

/-- The free space, also recorded in the meters. -/
def freeSpace : StoreM Int :=
  observed "free_space" do
    if !(← store).mounted then
      throw (.store "free space" ByteArray.empty none "" (some (.kind .notMounted)))
    let u ← tryCatch usage fun f => throw (.store "free space" ByteArray.empty none "" (some f))
    meter fun r p => r.setFreeSpace p u.free
    pure u.free

/-- A summary of the store. -/
def stat : StoreM Stat := do
  let s ← store
  if !s.mounted then throw (.store "stat" ByteArray.empty none "" (some (.kind .notMounted)))
  let u ← tryCatch usage fun f => throw (.store "stat" ByteArray.empty none "" (some f))
  pure ⟨s.config, s.entrySize, s.ateCursor.sector, s.ateCursor, s.dataCursor, u⟩

end StoreM

end NorStore
