import NorStore.Profile.Decode

/-!
# Checking a profile

A profile is checked in two rounds. The first checks single fields against their bounds and
stops at the first field that fails, in the order the fields are declared:

* the sector size is required and lies in `64 ..= 65535`;
* the write block is required and one of 1, 2, 4, 8, 16 and 32;
* the erase value is 0 or 255;
* both partitions have a size;
* the cache holds `0 ..= 1024` entries of at most 65535 bytes, and its interval is not
  negative;
* the log level is one of `debug`, `info`, `warn`, `warning` and `error`.

The second round checks the layout as a whole and reports every failure: the partitions
must be usable (`Storage.Options.validate`); a device size, when given, must be whole
sectors and reach past both partitions; and an enabled cache needs a value size.
-/

namespace NorStore.Profile

/-- The first field that is out of its bounds. -/
def fieldFault (p : Profile) : Option Fault :=
  let checks : List (Option Fault) :=
    [ if p.part.sectorSize == 0 then some (.fieldRequired "Flash.SectorSize")
      else if p.part.sectorSize < 64 then some (.fieldBelow "Flash.SectorSize" "64")
      else if p.part.sectorSize > 65535 then some (.fieldAbove "Flash.SectorSize" "65535")
      else none,
      if p.part.writeBlock == 0 then some (.fieldRequired "Flash.WriteBlockSize")
      else if !([1, 2, 4, 8, 16, 32].contains p.part.writeBlock.toNat) then
        some (.fieldNotOneOf "Flash.WriteBlockSize" "1 2 4 8 16 32" (toString p.part.writeBlock.toNat))
      else none,
      if p.part.eraseValue != 0 && p.part.eraseValue != 255 then
        some (.fieldNotOneOf "Flash.EraseValue" "0 255" (toString p.part.eraseValue.toNat))
      else none,
      if p.factory.size == 0 then some (.fieldRequired "Partitions.Factory.Size") else none,
      if p.user.size == 0 then some (.fieldRequired "Partitions.User.Size") else none,
      if p.cache.entries < 0 then some (.fieldBelow "Cache.Entries" "0")
      else if p.cache.entries > 1024 then some (.fieldAbove "Cache.Entries" "1024")
      else none,
      if p.cache.valueSize < 0 then some (.fieldBelow "Cache.ValueSize" "0")
      else if p.cache.valueSize > 65535 then some (.fieldAbove "Cache.ValueSize" "65535")
      else none,
      if p.cache.syncInterval < 0 then some (.fieldBelow "Cache.SyncInterval" "0") else none,
      if !(["debug", "info", "warn", "warning", "error"].contains p.level) then
        some (.fieldNotOneOf "Logging.Level" "debug info warn warning error" p.level)
      else none ]
  checks.findSome? id

/-- Every failure of the layout as a whole, in order. -/
def layoutFaults (p : Profile) : List Fault :=
  let o := p.options
  let partitions := match o.validate with
    | .error f => [Fault.fieldCheck "Partitions" f]
    | .ok () => []
  let size := p.part.size
  let device :=
    if size > 0 then
      (if size % p.part.sectorSize != 0 then
        [Fault.fieldCheck "Flash.Size" (.sizeNotWhole size.toNat p.part.sectorSize.toNat)]
       else []) ++
      (if o.deviceSize > size then
        [Fault.fieldCheck "Flash.Size" (.partitionsPastDevice o.deviceSize.toNat size.toNat)]
       else [])
    else []
  let cache :=
    if p.cache.entries > 0 && p.cache.valueSize == 0 then
      [Fault.fieldCheck "Cache.ValueSize" .cacheValueSizeUnset]
    else []
  partitions ++ device ++ cache

/-- Checks a profile: the first field out of bounds, else every layout failure. -/
def validate (p : Profile) : Except Fault Unit :=
  match fieldFault p with
  | some f => .error f
  | none =>
    match layoutFaults p with
    | [] => .ok ()
    | [f] => .error f
    | fs => .error (.fieldsInvalid fs)

/-- Reads and checks a profile file's contents. -/
def parse (data : ByteArray) : Except Fault Profile := do
  let p ← match decode data with
    | .ok p => pure p
    | .error e => throw (.configSyntax e)
  validate p
  pure p

end NorStore.Profile
