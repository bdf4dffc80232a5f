import NorStore.Store.Walk

/-!
# Closing and collecting sectors

When the active sector has no room left, it is *closed*: an entry with the all-`0xFF` key is
written into its close slot, recording the offset of the sector's newest entry, and the next
sector of the ring becomes active with both cursors at its ends.

The sector after the new active one is then *collected* before it can be needed: every entry
in it that is still the newest valid entry of its key and holds a value is copied, value and
entry, into the active sector; then the sector is erased. A sector that was never closed is
simply erased.
-/

namespace NorStore.StoreM

/-- Closes the active sector and makes the next one active. The cursors move on even when the
close entry fails to be written, and the failure is reported afterwards. -/
def closeSector : StoreM Unit := do
  let s ← store
  let close := Entry.sealed
    { key := Entry.closeKey, offset := (s.ateCursor.plus s.entrySize).offset.toUInt16, length := 0 }
  let closed := s.ateCursor.sector
  modifyStore fun s => { s with ateCursor := s.ateCursor.sectorStart.plus s.closeSlot }
  let r ← tryCatch (do writeEntry close; pure none) fun f => pure (some f)
  modifyStore fun s =>
    let a := s.ateCursor.advance s.config.sectorCount
    { s with ateCursor := a, dataCursor := a.sectorStart }
  let s ← store
  logAt .debug "sector closed"
    [("sector", .int closed.toNat), ("next_sector", .int s.ateCursor.sector.toNat)]
  meter fun r p => r.recordRotation p
  if let some f := r then throw f

/-- Copies one entry of the collected sector, found at `here`, if it is still its key's newest
valid entry and holds a value; answers whether it was copied. -/
def relocate (here : Address) (slot : Slot) : StoreM Bool := do
  let .valid e := slot | return false
  if e.length = 0 then return false
  let some (_, newest) ← findNewest e.key | return false
  if newest != here then return false
  let s ← store
  let moved := Entry.sealed { e with offset := s.dataCursor.offset.toUInt16 }
  copyData (valueAddr here e) e.length.toUInt32
  writeEntry moved
  pure true

/-- Collects the sector after the active one. -/
def collect : StoreM Unit := do
  let s ← store
  let sector := s.ateCursor.sectorStart.advance s.config.sectorCount
  let closeAt := sector.plus s.closeSlot
  let closeSlotContent ← readSlot closeAt
  if let .erased := closeSlotContent then
    eraseSector sector
    return
  let stop := closeAt.minus s.entrySize
  let first ← match closeSlotContent with
    | .valid c =>
      if s.closeOffsetValid c.offset then pure (sector.plus c.offset.toUInt32)
      else recoverNewest closeAt
    | _ => recoverNewest closeAt
  let relocated ← go stop (s.config.sectorSize.toNat / s.entrySize.toNat + 2) first 0
  logAt .debug "garbage collected sector"
    [("sector", .int sector.sector.toNat), ("count", .int relocated)]
  meter fun r p => r.recordCollection p relocated
  eraseSector sector
where
  /-- Visits the collected sector's entries from `at` up to `stop`, counting copies. -/
  go (stop : Address) : Nat → Address → Nat → StoreM Nat
    | 0, _, n => pure n
    | fuel + 1, here, n => do
      let (slot, next) ← stepBack here
      let n := if ← relocate here slot then n + 1 else n
      if here == stop then return n
      go stop fuel next n

end NorStore.StoreM
