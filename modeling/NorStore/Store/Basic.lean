import NorStore.Store.Config
import NorStore.Flash.Chip
import NorStore.Log.Logger
import NorStore.Metrics.Registry

/-!
# Stores and their device access

A store keeps a log of key/value entries in a region of a NOR flash part. The region is a ring
of sectors. The *active* sector is being filled from both ends: values grow upwards from its
start at the *data cursor*, table entries grow downwards from just below its last slot at the
*entry cursor*. The last slot of a sector (its *close slot*) is written once, when the sector is
closed; its entry records where the sector's newest table entry is.

`Store` holds the configuration, the two cursors and whether the store is mounted, together
with the logger and the partition name it reports under. Everything else its operations touch
(the flash part, the journal of log records and the meters) is the `Rig`, which several
stores on one part share. Operations run in `StoreM`: they may fail with a `Fault`, and what
they did to the store and the rig before failing stays done.

Device access goes through a few primitives. Reads and comparisons go in chunks of 32 bytes.
Programming pads a trailing partial write block with the erase value, lifts write protection
for the operation and restores it afterwards. Erasing skips a sector that already reads as
erased. A failed device access is reported as a store fault naming the access (`flash read`,
`flash write`, `flash erase`) and the address it was made at.
-/

namespace NorStore

/-- What store operations touch besides the store itself. -/
structure Rig where
  /-- The flash part. -/
  chip : Flash.Chip
  /-- The log records written so far. -/
  journal : Log.Journal := #[]
  /-- The meters, when operations are measured. -/
  meters : Option Metrics.Registry := none
  deriving Inhabited

/-- A key/value store on a region of a flash part. -/
structure Store where
  /-- Where the store lives and how its region is cut. -/
  config : Config
  /-- The next table entry is written here. -/
  ateCursor : Address := ⟨0⟩
  /-- The next value is written here. -/
  dataCursor : Address := ⟨0⟩
  /-- Whether the cursors have been recovered from flash. -/
  mounted : Bool := false
  /-- Where the store's records go. -/
  log : Log.Logger := .silent
  /-- The partition name the store's meters carry. -/
  partition : String := "default"
  deriving Inhabited

namespace Store

/-- A new, unmounted store; its logger tags records with the component and partition. -/
def create (c : Config) (log : Log.Logger) (partition : String) : Store :=
  { config := c, partition := partition,
    log := log.child [("component", .text "nvs"), ("partition", .text partition)] }

/-- Bytes of one table entry. -/
def entrySize (s : Store) : UInt32 :=
  s.config.entrySize

/-- Offset of the close slot in every sector. -/
def closeSlot (s : Store) : UInt32 :=
  s.config.sectorSize - s.entrySize

/-- The device offset of an address of the region. -/
def physical (s : Store) (a : Address) : UInt32 :=
  s.config.offset + s.config.sectorSize * a.sector + a.offset

/-- The most steps a walk of the table takes before it is declared endless: one per slot of
the ring, and one more. -/
def walkLimit (s : Store) : Nat :=
  (s.config.sectorCount * (s.config.sectorSize / s.entrySize)).toNat + 1

/-- Whether a close entry's offset can name the newest entry of its sector: below the close
slot and a whole number of entries under the sector's end. -/
def closeOffsetValid (s : Store) (off : UInt16) : Bool :=
  let o := off.toUInt32
  o < s.closeSlot && (s.config.sectorSize - o) % s.entrySize == 0

end Store

/-- A store together with its rig. -/
structure Engine where
  /-- The store. -/
  store : Store
  /-- What its operations touch. -/
  rig : Rig
  deriving Inhabited

/-- Store operations: they may fail, and keep their effects when they do. -/
abbrev StoreM := ExceptT Fault (StateM Engine)

namespace StoreM

/-- The store as it is now. -/
def store : StoreM Store := do
  pure (← get).store

/-- Changes the store. -/
def modifyStore (f : Store → Store) : StoreM Unit :=
  modify fun e => { e with store := f e.store }

/-- Runs a device operation on the rig's part. -/
def onChip (act : Flash.ChipM α) : StoreM α := do
  let e ← get
  let (r, c) := (act.run).run e.rig.chip
  set { e with rig := { e.rig with chip := c } }
  match r with
  | .ok v => pure v
  | .error f => throw f

/-- Writes a log record through the store's logger. -/
def logAt (l : Log.Level) (msg : String) (fs : List Log.Field) : StoreM Unit :=
  modify fun e => { e with rig := { e.rig with journal := e.store.log.emit l msg fs e.rig.journal } }

/-- Updates the meters, when there are any, with the store's partition name. -/
def meter (f : Metrics.Registry → String → Metrics.Registry) : StoreM Unit :=
  modify fun e =>
    { e with rig := { e.rig with meters := e.rig.meters.map fun r => f r e.store.partition } }

/-- Runs `act`, then counts it in the meters as operation `op` with its outcome. -/
def observed (op : String) (act : StoreM α) : StoreM α :=
  tryCatch (do
      let v ← act
      meter fun r p => r.recordOperation p op "ok"
      pure v)
    fun f => do
      meter fun r p => r.recordOperation p op (if f.is .notFound then "not_found" else "error")
      throw f

/-- The fault of a failed device access `op` at `a`. -/
def deviceFault (op : String) (a : Address) (f : Fault) : Fault :=
  .store op ByteArray.empty (some a) "" (some f)

/-- The `n` bytes at `a`. -/
def read (a : Address) (n : Nat) : StoreM ByteArray := do
  let s ← store
  tryCatch (onChip (Flash.Chip.read (s.physical a).toNat n)) fun f =>
    throw (deviceFault "flash read" a f)

/-- Runs a device change with write protection lifted, putting protection back afterwards
even when the change fails; a failure to lift protection fails the whole operation. -/
def unprotected (act : Flash.ChipM Unit) : Flash.ChipM Unit := do
  Flash.Chip.setProtection false
  tryCatch act fun f => do
    tryCatch (Flash.Chip.setProtection true) fun _ => pure ()
    throw f
  Flash.Chip.setProtection true

/-- The bytes `p` padded with the erase value to a whole number of `block`s. -/
def padded (p : ByteArray) (block : Nat) (erased : UInt8) : ByteArray :=
  p ++ ByteArray.mk (Array.replicate ((block - p.size % block) % block) erased)

/-- Programs `p` at `a`: the whole write blocks first, then the rest padded to a block. -/
def program (a : Address) (p : ByteArray) : StoreM Unit := do
  if p.size = 0 then return
  let s ← store
  let wbs := s.config.writeBlock
  let off := (s.physical a).toNat
  let whole := (p.size.toUInt32 &&& ~~~(wbs - 1)).toNat
  let rest := p.extract whole p.size
  let act : Flash.ChipM Unit := do
    if whole > 0 then Flash.Chip.write off (p.extract 0 whole)
    if rest.size > 0 then
      Flash.Chip.write (off + whole) (padded rest wbs.toNat s.config.eraseValue)
  tryCatch (onChip (unprotected act)) fun f => do
    logAt .error "flash write failed" [("address", .text a.render), Log.errorField f.message]
    throw (deviceFault "flash write" a f)

/-- Appends a value at the data cursor; the cursor moves past it even when programming fails. -/
def writeData (p : ByteArray) : StoreM Unit := do
  let s ← store
  let a := s.dataCursor
  modifyStore fun s =>
    { s with dataCursor := s.dataCursor.plus (alignUp p.size.toUInt32 s.config.writeBlock) }
  program a p

/-- Appends a table entry at the entry cursor; the cursor moves down even when programming
fails. -/
def writeEntry (e : Entry) : StoreM Unit := do
  let s ← store
  let a := s.ateCursor
  modifyStore fun s => { s with ateCursor := s.ateCursor.minus s.entrySize }
  program a e.encode.toByteArray

/-- What the table slot at `a` holds. -/
def readSlot (a : Address) : StoreM Slot := do
  let s ← store
  let raw ← read a s.entrySize.toNat
  pure (Slot.classify raw s.config.eraseValue)

/-- Whether the flash at `a` holds `data`, compared 32 bytes at a time. -/
def holds (a : Address) (data : ByteArray) : StoreM Bool :=
  go (data.size / 32 + 1) a 0
where
  /-- Compares from byte `i` of `data` on. -/
  go : Nat → Address → Nat → StoreM Bool
    | 0, _, _ => pure true
    | fuel + 1, a, i => do
      if i ≥ data.size then return true
      let n := min 32 (data.size - i)
      let got ← read a n
      if got.toList != (data.extract i (i + n)).toList then return false
      go fuel (a.plus n.toUInt32) (i + n)

/-- Whether the `length` bytes at `a` all read as erased, checked 32 bytes at a time. -/
def isErased (a : Address) (length : UInt32) : StoreM Bool := do
  let s ← store
  go s.config.eraseValue (length.toNat / 32 + 1) a length
where
  /-- Checks the remaining `left` bytes from `a`. -/
  go (erased : UInt8) : Nat → Address → UInt32 → StoreM Bool
    | 0, _, _ => pure true
    | fuel + 1, a, left => do
      if left = 0 then return true
      let n := min 32 left
      let got ← read a n.toNat
      if !got.toList.all (· == erased) then return false
      go erased fuel (a.plus n) (left - n)

/-- Copies `length` bytes from `a` to the data cursor, 32 bytes at a time. -/
def copyData (a : Address) (length : UInt32) : StoreM Unit :=
  go (length.toNat / 32 + 1) a length
where
  /-- Copies the remaining `left` bytes from `a`. -/
  go : Nat → Address → UInt32 → StoreM Unit
    | 0, _, _ => pure ()
    | fuel + 1, a, left => do
      if left = 0 then return
      let n := min 32 left
      let chunk ← read a n.toNat
      writeData chunk
      go fuel (a.plus n) (left - n)

/-- Erases the sector of `a` unless it already reads as erased. -/
def eraseSector (a : Address) : StoreM Unit := do
  let s ← store
  let start := a.sectorStart
  if ← isErased start s.config.sectorSize then return
  logAt .debug "erasing sector" [("sector", .int start.sector.toNat)]
  let act := Flash.Chip.erase (s.physical start).toNat s.config.sectorSize.toNat
  tryCatch (onChip (unprotected act)) fun f => do
    logAt .error "flash erase failed" [("sector", .int start.sector.toNat), Log.errorField f.message]
    throw (deviceFault "flash erase" start f)
  meter fun r p => r.recordErase p

end StoreM

end NorStore
