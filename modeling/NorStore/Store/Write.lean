import NorStore.Store.Mount

/-!
# Writing and deleting

`write key value` appends a new version of a key; an empty value is a deletion, and the
operation is then called `delete` in reports. The key must be usable and the value no larger
than the configuration allows.

A write that would change nothing is skipped: when the newest entry of the key holds exactly
these bytes, or when a deletion finds the key absent or already deleted. Otherwise the entry
needs its own slot plus the value rounded up to write blocks. While the active sector's free gap
is too small, the sector is closed and the next one collected; after as many rotations as there
are sectors without room, the write fails for lack of space. A written value is programmed
before its entry, so an entry never names bytes that were not written.
-/

namespace NorStore.StoreM

/-- The usable key field for `key`, or the fault of operation `op`. -/
def keyField (op : String) (key : ByteArray) : StoreM (Vector UInt8 24) :=
  match Entry.padKey? key with
  | some k => pure k
  | none => throw (.store op key none "" (some (.kind .invalidKey)))

/-- Re-raises a fault as the failure of operation `op` on `key`. -/
def wrapFault (op : String) (key : ByteArray) (act : StoreM α) : StoreM α :=
  tryCatch act fun f => throw (.store op key none "" (some f))

/-- Whether writing `data` under `k` would leave the store's content as it is. -/
def unchanged (k : Vector UInt8 24) (data : ByteArray) : StoreM Bool := do
  match ← findNewest k with
  | none => pure (data.size = 0)
  | some (e, here) =>
    if data.size = 0 then pure (e.length = 0)
    else if e.length.toNat != data.size then pure false
    else holds (valueAddr here e) data

/-- Appends an entry for `k` holding `data`: the value first, then the entry. -/
def append (k : Vector UInt8 24) (data : ByteArray) : StoreM Unit := do
  let s ← store
  let e := Entry.sealed
    { key := k, offset := s.dataCursor.offset.toUInt16, length := data.size.toUInt16 }
  writeData data
  writeEntry e

/-- Writes `data` under `key`, or deletes `key` when `data` is empty; answers how many bytes
were written (zero when nothing changed). -/
def write (key data : ByteArray) : StoreM Nat := do
  let op := if data.size = 0 then "delete" else "write"
  observed op do
    let k ← keyField op key
    let s ← store
    if (data.size : Int) > s.config.maxValueSize then
      throw (.store op key none ("max " ++ toString s.config.maxValueSize)
        (some (.kind .valueTooLarge)))
    if !s.mounted then throw (.store op key none "" (some (.kind .notMounted)))
    if ← wrapFault op key (unchanged k data) then return 0
    let need := if data.size = 0 then s.entrySize
      else s.entrySize + alignUp data.size.toUInt32 s.config.writeBlock
    rotate op key k data need 0 (s.config.sectorCount.toNat + 1)
where
  /-- Tries to fit the entry, rotating sectors while there is no room. -/
  rotate (op : String) (key : ByteArray) (k : Vector UInt8 24) (data : ByteArray) (need : UInt32)
      (rotations : Nat) : Nat → StoreM Nat
    | 0 => throw (.store op key none "" (some (.kind .noSpace)))
    | fuel + 1 => do
      let s ← store
      if rotations = s.config.sectorCount.toNat then
        logAt .warn "no space for entry" [Log.Field.bytes "key" key, ("len", .int data.size)]
        throw (.store op key none "" (some (.kind .noSpace)))
      if s.ateCursor ≥ s.dataCursor.plus need then
        wrapFault op key (append k data)
        return data.size
      wrapFault op key closeSector
      wrapFault op key collect
      rotate op key k data need (rotations + 1) fuel

/-- Deletes `key`. -/
def delete (key : ByteArray) : StoreM Unit := do
  let _ ← write key ByteArray.empty

end NorStore.StoreM
