import NorStore.Store.Collect

/-!
# Mounting

Mounting finds the active sector and recovers both cursors from what is on flash.

*Finding the active sector.* Sectors are examined in order. A sector whose close slot is erased
is skipped; a closed sector whose successor is not closed makes that successor active. If no
closed sector is followed by an open one, either all sectors are closed (the table is damaged)
or none is, and then sector 0 is active unless the ring's last sector already holds an entry
below its close slot. A region where every sector is closed cannot be mounted.

*Recovering the cursors.* The entry cursor walks down the active sector's table to the first
erased slot; the data cursor goes just past the value of the lowest valid entry. Slots that hold
garbage are skipped and counted as torn. An entry whose value would reach its own slot means the
table is corrupt. Values whose entries were never written (a write cut by power loss) are skipped
a write block at a time until the rest of the free gap reads as erased.

*Finishing a collection.* If the sector after the active one is not erased, a collection was
cut short: the active sector is erased and the collection is done again from scratch.

Each repair is logged as a warning and counted in the meters by kind.
-/

namespace NorStore.StoreM

/-- Sets whether the store is mounted. -/
def setMounted (b : Bool) : StoreM Unit :=
  modifyStore fun s => { s with mounted := b }

/-- Scans sectors from `i` for a closed sector followed by an open one; answers the sector
index where the scan stopped, the address it stopped at and how many closed sectors it saw. -/
def scanRing (n : UInt32) (i : Nat) (addr : Address) (closed : Nat) :
    StoreM (Nat × Address × Nat) := do
  if i ≥ n.toNat then return (i, addr, closed)
  let s ← store
  let addr := Address.make i.toUInt32 s.closeSlot
  if ← isErased addr s.entrySize then
    return ← scanRing n (i + 1) addr closed
  let addr := addr.advance n
  if ← isErased addr s.entrySize then return (i, addr, closed + 1)
  scanRing n (i + 1) addr (closed + 1)
termination_by n.toNat - i

/-- Walks the active sector's table down from the entry cursor, moving the data cursor past
each valid entry's value; answers how many slots held garbage. -/
def recoverTable (top : Address) : StoreM Nat := do
  let s ← store
  go top.sectorStart (s.config.sectorSize.toNat / s.entrySize.toNat + 1) 0
where
  /-- One step of the walk down, with `torn` garbage slots seen so far. -/
  go (base : Address) : Nat → Nat → StoreM Nat
    | 0, torn => pure torn
    | fuel + 1, torn => do
      let s ← store
      if s.ateCursor < s.dataCursor then return torn
      let slot ← readSlot s.ateCursor
      if let .erased := slot then return torn
      let torn := if let .invalid _ := slot then torn + 1 else torn
      if let .valid e := slot then
        let data := (base.plus e.offset.toUInt32).plus
          (alignUp e.length.toUInt32 s.config.writeBlock)
        modifyStore fun s => { s with dataCursor := data }
        if s.ateCursor == data && e.length != 0 then
          throw (.store "mount" ByteArray.empty (some s.ateCursor) "entry overlaps its data"
            (some (.kind .corrupt)))
      let s ← store
      if s.ateCursor.offset < s.entrySize then return torn
      modifyStore fun s => { s with ateCursor := s.ateCursor.minus s.entrySize }
      go base fuel torn

/-- Moves the data cursor a write block at a time until the rest of the free gap reads as
erased. -/
def skipOrphans : StoreM Unit := do
  let s ← store
  go (s.config.sectorSize.toNat / s.config.writeBlock.toNat + 2)
where
  /-- One step. -/
  go : Nat → StoreM Unit
    | 0 => pure ()
    | fuel + 1 => do
      let s ← store
      if s.ateCursor ≤ s.dataCursor then return
      if ← isErased s.dataCursor (s.ateCursor.raw - s.dataCursor.raw) then return
      modifyStore fun s => { s with dataCursor := s.dataCursor.plus s.config.writeBlock }
      go fuel

/-- Finds the active sector and answers the address of its close slot. A region whose sectors
are all closed cannot be mounted. -/
def locateActive : StoreM Address := do
  let s ← store
  let n := s.config.sectorCount
  let (i, addr, closed) ← scanRing n 0 ⟨0⟩ 0
  if closed = n.toNat then
    throw (.store "mount" ByteArray.empty none "" (some (.kind .allClosed)))
  if i = n.toNat then
    -- nothing is closed: the last sector is active only if it already holds an entry
    if ← isErased (addr.minus s.entrySize) s.entrySize then return addr.advance n
  return addr

/-- Redoes a collection that was cut short: when the sector after the active one is not erased,
the active sector is erased and the collection done again from scratch. -/
def finishCollection : StoreM Unit := do
  let s ← store
  let next := s.ateCursor.sectorStart.advance s.config.sectorCount
  if !(← isErased next s.config.sectorSize) then
    logAt .warn "sector after active sector is not erased, redoing garbage collection"
      [("sector", .int next.sector.toNat)]
    meter fun r p => r.recordRecovery p "gc_restart"
    eraseSector s.ateCursor
    modifyStore fun s =>
      let start := s.ateCursor.sectorStart
      { s with ateCursor := start.plus (s.config.sectorSize - 2 * s.entrySize),
               dataCursor := start }
    collect

/-- Recovers the cursors from flash. -/
def startup : StoreM Unit := do
  let addr ← locateActive
  modifyStore fun s => { s with ateCursor := addr.minus s.entrySize, dataCursor := addr.sectorStart }
  let torn ← recoverTable addr
  if torn > 0 then
    logAt .warn "skipped torn allocation table entries" [("count", .int torn)]
    meter fun r p => r.recordRecovery p "torn_entry"
  let dataEnd := (← store).dataCursor
  skipOrphans
  let s ← store
  if s.dataCursor != dataEnd then
    logAt .warn "skipped orphaned data"
      [("from", .text dataEnd.render), ("to", .text s.dataCursor.render)]
    meter fun r p => r.recordRecovery p "orphaned_data"
  finishCollection

/-- Checks the configuration, recovers the cursors and marks the store mounted. -/
def mount : StoreM Unit := observed "mount" do
  if let .error f := (← store).config.validate then
    throw (.store "mount" ByteArray.empty none "" (some f))
  setMounted false
  tryCatch startup fun f => do
    logAt .error "mount failed" [Log.errorField f.message]
    throw f
  setMounted true
  let s ← store
  logAt .info "mounted"
    [("sector", .int s.ateCursor.sector.toNat), ("ate_cursor", .text s.ateCursor.render),
     ("data_cursor", .text s.dataCursor.render), ("latency", .text Log.elapsed)]

end NorStore.StoreM
