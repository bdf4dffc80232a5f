import NorStore.Store.Basic

/-!
# Walking the allocation table

A walk visits table slots from the newest entry back to the oldest. Inside a sector that is
upwards, from the entry cursor (or a closed sector's newest entry) to the slot below the close
slot. From there the walk continues in the previous sector of the ring: if that sector was
never closed (its close slot is erased) the walk is back at the entry cursor and over; if its
close entry is valid and names a plausible slot, the walk goes to that slot; otherwise the
newest valid entry of the sector is searched for from the top (`recoverNewest`).

A walk is done when it is back at the entry cursor. A walk that takes more steps than the ring
has slots is declared endless and fails as corrupt, so every walk ends.
-/

namespace NorStore.StoreM

/-- The newest valid entry of the sector just below `addr` (the close slot), searched from the
top: the highest slot holding a valid entry whose value ends below it. When none is found, the
slot below the close slot. -/
def recoverNewest (addr : Address) : StoreM Address := do
  let s ← store
  let start := addr.minus s.entrySize
  go s (s.config.sectorSize.toNat / s.entrySize.toNat + 1) start start start.sectorStart
where
  /-- Scans down from `top` while it lies above `dataEnd`; `best` is the newest found so far. -/
  go (s : Store) : Nat → Address → Address → Address → StoreM Address
    | 0, best, _, _ => pure best
    | fuel + 1, best, top, dataEnd => do
      if top ≤ dataEnd then return best
      let (best, dataEnd) ← match ← readSlot top with
        | .valid e =>
          pure (top, (top.sectorStart.plus e.offset.toUInt32).plus e.length.toUInt32)
        | _ => pure (best, dataEnd)
      if top.offset < s.entrySize then return best
      go s fuel best (top.minus s.entrySize) dataEnd

/-- The slot at `addr` and the slot a walk visits after it. -/
def stepBack (addr : Address) : StoreM (Slot × Address) := do
  let slot ← readSlot addr
  let s ← store
  let next := addr.plus s.entrySize
  if next.offset != s.closeSlot then return (slot, next)
  let prev := next.retreat s.config.sectorCount
  match ← readSlot prev with
  | .erased => pure (slot, s.ateCursor)
  | .valid c =>
    if s.closeOffsetValid c.offset then pure (slot, prev.sectorStart.plus c.offset.toUInt32)
    else pure (slot, ← recoverNewest prev)
  | .invalid _ => pure (slot, ← recoverNewest prev)

end StoreM

/-- A walk in progress: where it is and how many steps it has taken of how many allowed. -/
structure Walker where
  /-- The next slot to visit. -/
  addr : Address
  /-- Steps taken. -/
  steps : Nat
  /-- Steps allowed. -/
  limit : Nat
  deriving Inhabited, Repr

namespace Walker

/-- A walk from `addr` in store `s`. -/
def fromAddr (s : Store) (addr : Address) : Walker :=
  ⟨addr, 0, s.walkLimit⟩

/-- A walk from the entry cursor of `s`. -/
def start (s : Store) : Walker :=
  fromAddr s s.ateCursor

/-- Visits the next slot: what it holds, where it is, and the walk after it. -/
def next (w : Walker) : StoreM (Slot × Address × Walker) := do
  if w.steps ≥ w.limit then
    throw (.store "walk" ByteArray.empty (some w.addr) "chain walk did not terminate"
      (some (.kind .corrupt)))
  let (slot, addr) ← StoreM.stepBack w.addr
  pure (slot, w.addr, { w with addr := addr, steps := w.steps + 1 })

/-- Whether the walk is back at the entry cursor. -/
def done (w : Walker) : StoreM Bool := do
  pure (w.addr == (← StoreM.store).ateCursor)

end Walker

namespace StoreM

/-- The newest valid entry with key `k` and where it is, if any. -/
def findNewest (k : Vector UInt8 24) : StoreM (Option (Entry × Address)) := do
  let w := Walker.start (← store)
  go (w.limit + 1) w
where
  /-- Walks on from `w`. -/
  go : Nat → Walker → StoreM (Option (Entry × Address))
    | 0, _ => pure none
    | fuel + 1, w => do
      let (slot, here, w) ← w.next
      if let .valid e := slot then
        if e.key = k then return some (e, here)
      if ← w.done then return none
      go fuel w

/-- The `n`-th newest entry with key `k` (deletions count), which must hold a value. -/
def findVersion (k : Vector UInt8 24) (n : Nat) : StoreM (Entry × Address) := do
  let w := Walker.start (← store)
  go (w.limit + 1) w 0
where
  /-- Walks on from `w`, having seen `seen` entries of the key. -/
  go : Nat → Walker → Nat → StoreM (Entry × Address)
    | 0, _, _ => throw (.kind .notFound)
    | fuel + 1, w, seen => do
      let (slot, here, w) ← w.next
      let mut seen := seen
      if let .valid e := slot then
        if e.key = k then
          if seen = n then
            if e.length = 0 then throw (.kind .notFound)
            return (e, here)
          seen := seen + 1
      if ← w.done then throw (.kind .notFound)
      go fuel w seen

/-- Where the value of the entry stored at `here` starts. -/
def valueAddr (here : Address) (e : Entry) : Address :=
  here.sectorStart.plus e.offset.toUInt32

end StoreM

end NorStore
