import NorStore.Settings.Basic
import NorStore.Storage.Cache
import NorStore.Storage.Partition
import NorStore.Store.Reset

/-!
# The storage manager

A manager owns the two stores of one device and the cache in front of the user partition.

*Opening* checks the options, then mounts the factory and then the user partition. A partition
that fails to mount is erased and mounted again when the options say so; otherwise, or when
that fails too, opening fails.

*Partitions are named by number* (0 factory, 1 user); any other number is refused, and once the
manager is closed every store access is refused first.

*Plain access* goes to flash. A write to the user partition drops the key's cached copy; a
read of the user partition answers a dirty cached value first, since it is newer than flash.

*Cached access* serves the user partition through the cache and passes everything else, and
values the cache cannot take, to plain access:

* a cached write of a value the cache already holds writes nothing and answers 0; otherwise a
  dirty least recently used entry is written back to make room, and the value is cached dirty;
  when the cache is full of dirty entries the value goes straight to flash;
* a cached read answers a cached value, or reads flash and caches what it read.

*Flushing* writes the dirty entries back, least recently used first. An entry that fails stays
dirty; the failures are reported together after every entry has been tried. *Closing*
flushes and then refuses further store access.

A manager's work runs in `SiteM`: the manager and the rig (flash part, journal, meters) it
shares with its stores, and a console that collects what is written for a reader, such as
`dump`'s listing.
-/

namespace NorStore.Storage

/-- The stores of a device, their cache and options. -/
structure Manager where
  /-- What the manager was opened with. -/
  options : Options
  /-- The factory partition's store. -/
  factory : Store
  /-- The user partition's store. -/
  user : Store
  /-- The cache of the user partition, if it has one. -/
  cache : Option Cache
  /-- Whether the manager has been closed. -/
  closed : Bool := false
  /-- The manager's own logger. -/
  log : Log.Logger
  deriving Inhabited

namespace Manager

/-- The store of a partition. -/
def store (m : Manager) : Partition → Store
  | .factory => m.factory
  | .user => m.user

/-- The manager with the store of a partition replaced. -/
def setStore (m : Manager) (p : Partition) (s : Store) : Manager :=
  match p with
  | .factory => { m with factory := s }
  | .user => { m with user := s }

end Manager

/-- A manager and the rig it works on, with the text written for a reader so far. -/
structure Site where
  /-- The manager. -/
  manager : Manager
  /-- The flash part, journal and meters. -/
  rig : Rig
  /-- Text written for a reader, as bytes: keys need not be UTF-8. -/
  console : ByteArray := .empty
  deriving Inhabited

/-- A manager operation: it may fail, and keeps what it did before failing. -/
abbrev SiteM := ExceptT Fault (StateM Site)

namespace SiteM

/-- The manager as it is now. -/
def manager : SiteM Manager := do
  pure (← get).manager

/-- Changes the manager. -/
def modifyManager (f : Manager → Manager) : SiteM Unit :=
  modify fun s => { s with manager := f s.manager }

/-- Writes bytes for the reader. -/
def out (b : ByteArray) : SiteM Unit :=
  modify fun s => { s with console := s.console ++ b }

/-- Writes a log record through the manager's logger. -/
def logAt (l : Log.Level) (msg : String) (fs : List Log.Field) : SiteM Unit :=
  modify fun s => { s with rig := { s.rig with journal := s.manager.log.emit l msg fs s.rig.journal } }

/-- Updates the meters, when there are any. -/
def meter (f : Metrics.Registry → Metrics.Registry) : SiteM Unit :=
  modify fun s => { s with rig := { s.rig with meters := s.rig.meters.map f } }

/-- Runs a store operation on a partition's store. -/
def onStore (p : Partition) (act : StoreM α) : SiteM α := do
  let s ← get
  let (r, e) := (act.run).run ⟨s.manager.store p, s.rig⟩
  set { s with manager := s.manager.setStore p e.store, rig := e.rig }
  match r with
  | .ok v => pure v
  | .error f => throw f

/-- The partition a number names, refused once the manager is closed. -/
def resolve (n : Int) : SiteM Partition := do
  if (← manager).closed then throw (.kind .closed)
  match Partition.ofIndex? n with
  | some p => pure p
  | none => throw (.noPartition n)

/-- The cache, when the partition number is the user partition's and there is one. -/
def userCache? (n : Int) : SiteM (Option Cache) := do
  if n == Partition.user.index then pure (← manager).cache else pure none

/-- Changes the cache. -/
def modifyCache (f : Cache → Cache) : SiteM Unit :=
  modifyManager fun m => { m with cache := m.cache.map f }

/-- Publishes the number of dirty cache entries. -/
def publishDirty : SiteM Unit := do
  if let some c := (← manager).cache then
    meter fun r => r.setDirty Partition.user.name c.dirtyCount

/-- Counts `n` entries written back. -/
def recordFlush (n : Nat) : SiteM Unit := do
  if let some c := (← manager).cache then
    meter fun r => r.recordFlush Partition.user.name n c.dirtyCount

/-- A dirty cached value of the user partition. -/
def dirtyValue (n : Int) (key : ByteArray) : SiteM (Option ByteArray) := do
  match ← userCache? n with
  | some c =>
    match c.find? key with
    | some e => pure (if e.dirty then some e.value else none)
    | none => pure none
  | none => pure none

/-! ## Plain access -/

/-- Stores a value on flash, dropping a cached copy of the key. -/
def writePlain (n : Int) (key data : ByteArray) : SiteM Nat := do
  let p ← resolve n
  if (← userCache? n).isSome then modifyCache (·.remove key)
  onStore p (StoreM.write key data)

/-- The stored length of a key and its first `size` bytes; a dirty cached value wins. -/
def readPlain (n : Int) (key : ByteArray) (size : Nat) : SiteM (Nat × ByteArray) := do
  if let some v ← dirtyValue n key then return (v.size, v.extract 0 size)
  let p ← resolve n
  onStore p (StoreM.readVersion key size 0)

/-- The value of a key; a dirty cached value wins. -/
def getPlain (n : Int) (key : ByteArray) : SiteM ByteArray := do
  if let some v ← dirtyValue n key then return v
  let p ← resolve n
  onStore p (StoreM.get key)

/-- Deletes a key. -/
def delete (n : Int) (key : ByteArray) : SiteM Unit := do
  discard (writePlain n key ByteArray.empty)

/-- Drops the cache of the user partition before it is erased. -/
def dropCache (n : Int) : SiteM Unit := do
  if (← userCache? n).isSome then
    modifyCache Cache.clear
    publishDirty

/-- Empties a partition by running `act` on its store, once its cache is dropped. -/
def emptyWith (act : StoreM Unit) (n : Int) : SiteM Unit := do
  let p ← resolve n
  dropCache n
  onStore p act

/-- Erases every entry of a partition. -/
def clear (n : Int) : SiteM Unit :=
  emptyWith StoreM.clear n

/-- Erases a partition whatever its state and mounts it again. -/
def format (n : Int) : SiteM Unit :=
  emptyWith StoreM.format n

/-! ## Flushing -/

/-- Writes one dirty entry back to flash: a failure is logged and added to the failures so far,
a success marks the entry clean and is counted. -/
def writeBackEntry (p : Partition) (acc : List Fault × Nat) (e : CacheEntry) :
    SiteM (List Fault × Nat) := do
  let r ← tryCatch (do discard (onStore p (StoreM.write e.key e.value)); pure none)
    fun f => pure (some f)
  match r with
  | some f =>
    logAt .error "cache write-back failed" [Log.Field.bytes "key" e.key, Log.errorField (some f.message)]
    pure (acc.1 ++ [f], acc.2)
  | none =>
    modifyCache (·.markClean e.key e.value)
    pure (acc.1, acc.2 + 1)

/-- Writes the dirty cache entries of a partition back to flash. -/
def flush (n : Int) : SiteM Unit := do
  if (Partition.ofIndex? n).isNone then throw (.kind .invalidPartition)
  let some c ← userCache? n | return
  let p ← resolve n
  let (failures, written) ← c.dirtyEntries.foldlM (writeBackEntry p) ([], 0)
  recordFlush written
  if written > 0 then logAt .debug "cache flushed" [("count", .int written)]
  if !failures.isEmpty then throw (.joined failures)

/-- Flushes every partition; a closed manager's refusal is not a failure. -/
def flushAll : SiteM Unit := do
  let mut failures : List Fault := []
  for p in Partition.all do
    let r ← tryCatch (do flush p.index; pure none) fun f => pure (some f)
    if let some f := r then
      if !f.is .closed then failures := failures ++ [f]
  if !failures.isEmpty then throw (.joined failures)

/-- Flushes, then refuses further store access. -/
def close : SiteM Unit := do
  let r ← tryCatch (do flushAll; pure none) fun f => pure (some f)
  modifyManager fun m => { m with closed := true }
  if let some f := r then throw f

/-! ## Cached access -/

/-- Drops the cached value of a key and writes the value to flash. -/
def writeThrough (p : Partition) (key data : ByteArray) : SiteM Nat := do
  modifyCache (·.remove key)
  onStore p (StoreM.write key data)

/-- Writes back the entry that putting `key` into `c` would push out, when it is dirty. -/
def makeRoom (p : Partition) (c : Cache) (key : ByteArray) : SiteM Unit := do
  if let some v := c.victim key then
    if v.dirty then
      discard (onStore p (StoreM.write v.key v.value))
      modifyCache (·.markClean v.key v.value)
      recordFlush 1

/-- Caches a value dirty; a cache full of dirty entries does not take it, and it goes to flash. -/
def cacheDirty (p : Partition) (key data : ByteArray) : SiteM Nat := do
  let some c ← pure (← manager).cache | return 0
  let (c', ok) := c.put key data true
  if ok then
    modifyManager fun m => { m with cache := some c' }
    publishDirty
    pure data.size
  else writeThrough p key data

/-- Writes a value into the cache, writing it back later; answers how many bytes were taken,
0 when the cache already held the value. -/
def writeCached (n : Int) (key data : ByteArray) : SiteM Nat := do
  let some c ← userCache? n | writePlain n key data
  if !c.fits data.size then return ← writePlain n key data
  let p ← resolve n
  if (Entry.padKey? key).isNone then throw (.store "write" key none "" (some (.kind .invalidKey)))
  if c.holds key data then return 0
  makeRoom p c key
  cacheDirty p key data

/-- Reads a key the cache `c` does not hold from flash, and caches it clean when it fits: the
stored length and the first `size` bytes. -/
def readMiss (p : Partition) (c : Cache) (key : ByteArray) (size : Nat) :
    SiteM (Nat × ByteArray) := do
  let v ← onStore p (StoreM.get key)
  if c.fits v.size then modifyCache fun c => (c.put key v false).1
  pure (v.size, v.extract 0 size)

/-- Reads a value through the cache: the stored length and the first `size` bytes. -/
def readCached (n : Int) (key : ByteArray) (size : Nat) : SiteM (Nat × ByteArray) := do
  let some c ← userCache? n | readPlain n key size
  let p ← resolve n
  let (c, hit) := c.get key
  modifyManager fun m => { m with cache := some c }
  if let some v := hit then
    meter fun r => r.recordLookup Partition.user.name true
    return (v.size, v.extract 0 size)
  meter fun r => r.recordLookup Partition.user.name false
  if let some e := c.find? key then return (e.value.size, e.value.extract 0 size)
  readMiss p c key size

/-- The value of a key through the cache. -/
def getCached (n : Int) (key : ByteArray) : SiteM ByteArray := do
  if (← userCache? n).isNone then return ← getPlain n key
  let room := (← manager).options.cacheValueSize.toNat
  let (length, bytes) ← readCached n key room
  if length > room then getPlain n key else pure bytes

/-- A partition as a key-value store for settings: cached writes and reads, plain deletes. -/
def view (n : Int) : Settings.Backend SiteM :=
  { write := writeCached n, get := getCached n, delete := delete n }

/-! ## Listing -/

/-- The text of a stored value: without a trailing NUL, as it is when every byte is printable
ASCII, otherwise every byte (the NUL included) in hexadecimal. -/
def formatValue (v : ByteArray) : String :=
  let text := if v.size > 0 && v[v.size - 1]? == some 0 then v.extract 0 (v.size - 1) else v
  if text.toList.all fun b => 0x20 ≤ b && b ≤ 0x7E then String.ofList (text.toList.map fun b => Char.ofNat b.toNat)
  else Hex.ofBytes v

/-- The line that lists a key and its value. -/
def listLine (k v : ByteArray) : ByteArray :=
  "Key: ".toUTF8 ++ k ++ (", Value: " ++ formatValue v ++ "\n").toUTF8

/-- Writes the line of one key; a key that no longer holds a value is left out. -/
def listKey (p : Partition) (k : ByteArray) : SiteM Unit := do
  let r ← tryCatch (some <$> onStore p (StoreM.get k)) fun f =>
    if f.is .notFound then pure none else throw f
  if let some v := r then out (listLine k v)

/-- Writes every live key of a partition with its value, newest first, one per line. -/
def dump (n : Int) : SiteM Unit := do
  if n == Partition.user.index then flush n
  let p ← resolve n
  let keys ← onStore p StoreM.keys
  if keys.isEmpty then out "No entry found\n".toUTF8
  keys.forM (listKey p)

/-! ## Opening -/

/-- Mounts a partition's store, erasing and mounting it again after a failure when the options
say so. -/
def mountPartition (p : Partition) (storeLog : Log.Logger) : SiteM Unit := do
  let m ← manager
  let metered := (← get).rig.meters.isSome
  modifyManager fun m => m.setStore p
    (Store.create (m.options.storeConfig p) storeLog (if metered then p.name else "default"))
  let r ← tryCatch (do onStore p StoreM.mount; pure none) fun f => pure (some f)
  meter fun reg => reg.recordMount p.name r.isNone
  match r with
  | none => logAt .info "partition mounted" [("partition", .text p.name), ("latency", .text Log.elapsed)]
  | some f =>
    if !m.options.reformat then throw (.mountFailed p.name f)
    logAt .warn "partition mount failed, erasing" [("partition", .text p.name), Log.errorField (some f.message)]
    meter fun reg => reg.recordReformat p.name
    tryCatch (onStore p StoreM.format) fun g => throw (.reformatFailed p.name f g)

end SiteM

/-- Opens the partitions of the rig's device: answers the rig as left behind, and the site on
success. `storeLog` is what the stores log through (silent when there is no logger). -/
def openSite (o : Options) (logger : Option Log.Logger) (rig : Rig) : Rig × Except Fault Site :=
  match o.validate with
  | .error f => (rig, .error f)
  | .ok () =>
    let storeLog := logger.getD .silent
    let m : Manager :=
      { options := o, factory := default, user := default,
        cache := if o.cacheEntries > 0 then some (Cache.create o.cacheEntries o.cacheValueSize)
          else none,
        log := storeLog.child [("component", .text "storage")] }
    let act : SiteM Unit := do
      SiteM.mountPartition .factory storeLog
      SiteM.mountPartition .user storeLog
    let (r, s) := (act.run).run { manager := m, rig := rig }
    match r with
    | .ok () => (s.rig, .ok s)
    | .error f => (s.rig, .error f)

end NorStore.Storage
