import NorStore.Text.Quoted
import NorStore.Store.Address
import NorStore.Flash.Geometry

/-!
# Faults

Every operation of the library that can fail fails with a `Fault`, a value that says why.
Each constructor is one cause; a fault built around another (a store operation that failed
because the device did, a partition that failed to mount) keeps the inner one, so callers can
ask what a fault *is*: `Fault.kinds` lists the named classes (`FaultKind`) it belongs to,
through every layer of wrapping, and `Fault.message` gives its one-line text.

Which classes survive wrapping is part of each cause: a fault that only *mentions* another in
its text (a partition that is invalid because of its configuration) does not belong to the inner
fault's classes, while one that *wraps* it (a store operation failing because the device did)
belongs to all of them.
-/

namespace NorStore

/-- The named classes a fault can belong to; each has a fixed text. -/
inductive FaultKind where
  | notMounted | invalidConfig | invalidArgument | invalidKey | valueTooLarge | notFound
  | noSpace | allClosed | corrupt
  | outOfRange | unaligned | writeProtected | powerLoss | notErased
  | invalidPartition | invalidLayout | closed
  | malformed | notProvisioned | conflict
  | usage
  deriving DecidableEq, Repr, Inhabited

namespace FaultKind

/-- The text of a class, which is also the whole message of a fault of that class alone. -/
def text : FaultKind → String
  | notMounted => "nvs not mounted"
  | invalidConfig => "invalid configuration"
  | invalidArgument => "invalid argument"
  | invalidKey => "invalid key"
  | valueTooLarge => "value too large"
  | notFound => "key not found"
  | noSpace => "no space left"
  | allClosed => "all sectors closed"
  | corrupt => "corrupt allocation table"
  | outOfRange => "flash: access out of range"
  | unaligned => "flash: unaligned access"
  | writeProtected => "flash: write protected"
  | powerLoss => "flash: power lost"
  | notErased => "flash: programming non-erased bits"
  | invalidPartition => "invalid partition"
  | invalidLayout => "invalid partition layout"
  | closed => "storage closed"
  | malformed => "malformed setting"
  | notProvisioned => "device not provisioned"
  | conflict => "identity already provisioned with different values"
  | usage => "usage"

end FaultKind

/-- Why an operation failed. -/
inductive Fault where
  /-- A failure of one class with nothing more to say. -/
  | kind (k : FaultKind)
  /-- A device access past the end: bytes `[start, stop)` of a part of `size` bytes. -/
  | outOfRange (start stop size : Nat)
  /-- A device access of `length` bytes at `start` that does not cover whole `block`s. -/
  | unaligned (start length block : Nat)
  /-- A strict program operation that would have to set bits of the byte at `position`. -/
  | notErased (position : Nat)
  /-- A geometry with a zero dimension. -/
  | zeroGeometry (g : Flash.Geometry)
  /-- A geometry whose units do not divide one another. -/
  | unnested (g : Flash.Geometry)
  /-- A flash image file that could not be opened. -/
  | imageOpen (path : String) (cause : Fault)
  /-- A flash image file whose size differs from the geometry's. -/
  | imageSize (path : String) (actual expected : Nat)
  /-- A write block that is zero, larger than 32 or not a power of two. -/
  | writeBlockUnsupported (writeBlock : Nat)
  /-- A sector size of zero. -/
  | sectorSizeZero
  /-- A sector size past `65535`. -/
  | sectorSizeTooLarge (sectorSize : Nat)
  /-- A sector size that is not whole write blocks. -/
  | sectorSizeMisfit (sectorSize writeBlock : Nat)
  /-- A sector too small for four table entries. -/
  | sectorTooSmall (sectorSize : Nat)
  /-- Fewer than two sectors. -/
  | tooFewSectors (count : Nat)
  /-- More than `65535` sectors. -/
  | tooManySectors (count : Nat)
  /-- A region that ends past the 32-bit address space. -/
  | regionTooLarge
  /-- A store operation `op` that failed, with the key, address and remark it concerned
  (an empty key or remark is absent) and the fault behind it, if any. -/
  | store (op : String) (key : ByteArray) (addr : Option Address) (context : String)
      (cause : Option Fault)
  /-- A partition name that names no partition. -/
  | unknownPartition (name : ByteArray)
  /-- A partition number that names no partition. -/
  | noPartition (n : Int)
  /-- A partition whose bounds are not whole sectors. -/
  | partitionUnaligned (name : String) (offset size : Nat)
  /-- A partition whose store configuration is invalid; the inner fault is only quoted. -/
  | partitionInvalid (name : String) (inner : Fault)
  /-- Two partitions that share bytes. -/
  | partitionsOverlap
  /-- Negative cache dimensions. -/
  | negativeCache
  /-- A partition that failed to mount. -/
  | mountFailed (name : String) (inner : Fault)
  /-- A partition that could not be reformatted after failing to mount with `first`. -/
  | reformatFailed (name : String) (first inner : Fault)
  /-- Several faults at once; an empty list is no fault. -/
  | joined (items : List Fault)
  /-- A string setting that holds a NUL byte. -/
  | nulInString (key : ByteArray)
  /-- A stored setting whose text does not read as the requested type. -/
  | malformedSetting (key text : ByteArray)
  /-- An empty blob setting. -/
  | emptyBlob (key : ByteArray)
  /-- A stored blob that does not decompress. -/
  | badBlob (key : ByteArray) (reason : String)
  /-- A stored identity whose identifier does not read as one. -/
  | badIdentifier (raw : ByteArray) (reason : String)
  /-- An identity field that already holds a different value. -/
  | identityConflict (field : String) (stored wanted : ByteArray)
  /-- A configuration file that could not be read. -/
  | configUnreadable (inner : Fault)
  /-- A configuration file whose content failed to load. -/
  | configFile (path : String) (inner : Fault)
  /-- A configuration text that failed to parse. -/
  | configSyntax (reason : String)
  /-- A configuration field that must be set. -/
  | fieldRequired (field : String)
  /-- A configuration field below its least value. -/
  | fieldBelow (field bound : String)
  /-- A configuration field above its greatest value. -/
  | fieldAbove (field bound : String)
  /-- A configuration field outside its allowed values. -/
  | fieldNotOneOf (field choices got : String)
  /-- A configuration field that fails a cross-field check. -/
  | fieldCheck (field : String) (inner : Fault)
  /-- Several configuration checks that failed, in order. -/
  | fieldsInvalid (items : List Fault)
  /-- A device size that is not whole sectors. -/
  | sizeNotWhole (size sectorSize : Nat)
  /-- Partitions that end past the device. -/
  | partitionsPastDevice (stop size : Nat)
  /-- A cache that holds entries of no size. -/
  | cacheValueSizeUnset
  /-- A command with the wrong arguments; the text shows the right ones. -/
  | usage (text : String)
  /-- A command name that names no command. -/
  | unknownCommand (name : ByteArray)
  /-- A failure known only by its text. -/
  | note (text : String)
  deriving Inhabited

namespace Fault

/-- The one-line text of a fault. -/
def message : Fault → String
  | kind k => k.text
  | outOfRange a b s =>
    FaultKind.outOfRange.text ++ ": [" ++ toString a ++ ", " ++ toString b ++ ") beyond " ++
      toString s
  | unaligned a n b =>
    FaultKind.unaligned.text ++ ": [" ++ toString a ++ ", +" ++ toString n ++ ") on " ++
      toString b ++ " byte blocks"
  | notErased a => FaultKind.notErased.text ++ " at " ++ toString a
  | zeroGeometry g => "flash: zero geometry " ++ g.render
  | unnested g =>
    "flash: size " ++ toString g.size ++ ", erase block " ++ toString g.eraseBlock ++
      " and write block " ++ toString g.writeBlock ++ " do not nest"
  | imageOpen p c => "flash: open image " ++ p ++ ": " ++ message c
  | imageSize p a e =>
    "flash: image " ++ p ++ " is " ++ toString a ++ " bytes, geometry says " ++ toString e
  | writeBlockUnsupported w =>
    FaultKind.invalidConfig.text ++ ": unsupported write block size " ++ toString w
  | sectorSizeZero => FaultKind.invalidConfig.text ++ ": sector size is zero"
  | sectorSizeTooLarge s =>
    FaultKind.invalidConfig.text ++ ": sector size " ++ toString s ++ " exceeds 65535"
  | sectorSizeMisfit s w =>
    FaultKind.invalidConfig.text ++ ": sector size " ++ toString s ++
      " is not a multiple of write block size " ++ toString w
  | sectorTooSmall s =>
    FaultKind.invalidConfig.text ++ ": sector size " ++ toString s ++
      " holds fewer than 4 entries"
  | tooFewSectors n =>
    FaultKind.invalidConfig.text ++ ": sector count " ++ toString n ++ ", need at least 2"
  | tooManySectors n =>
    FaultKind.invalidConfig.text ++ ": sector count " ++ toString n ++ " exceeds 65535"
  | regionTooLarge => FaultKind.invalidConfig.text ++ ": region does not fit a 32-bit device"
  | store op key addr ctx cause =>
    "nvs " ++ op ++ (if key.isEmpty then "" else " key " ++ Quoted.ofBytes key) ++
      (match addr with | some a => " at " ++ a.render | none => "") ++
      (if ctx.isEmpty then "" else " (" ++ ctx ++ ")") ++ ": " ++
      (match cause with | some c => message c | none => "<nil>")
  | unknownPartition s =>
    FaultKind.invalidPartition.text ++ ": unknown partition " ++ Quoted.ofBytes s
  | noPartition n => FaultKind.invalidPartition.text ++ ": " ++ toString n
  | partitionUnaligned p o s =>
    FaultKind.invalidLayout.text ++ ": " ++ p ++ " partition [" ++ Hex.marked o ++ ", +" ++
      Hex.marked s ++ ") is not sector aligned"
  | partitionInvalid p f => FaultKind.invalidLayout.text ++ ": " ++ p ++ " partition: " ++ message f
  | partitionsOverlap => FaultKind.invalidLayout.text ++ ": factory and user partitions overlap"
  | negativeCache => FaultKind.invalidLayout.text ++ ": negative cache bounds"
  | mountFailed p f => "mount " ++ p ++ " partition: " ++ message f
  | reformatFailed p f g => "reformat " ++ p ++ " partition after " ++ message f ++ ": " ++ message g
  | joined items => "\n".intercalate (items.map message)
  | nulInString k =>
    "setting " ++ Quoted.ofBytes k ++ ": string contains NUL: " ++ FaultKind.invalidArgument.text
  | malformedSetting k t =>
    "setting " ++ Quoted.ofBytes k ++ " = " ++ Quoted.ofBytes t ++ ": " ++ FaultKind.malformed.text
  | emptyBlob k =>
    "setting " ++ Quoted.ofBytes k ++ ": empty blob: " ++ FaultKind.invalidArgument.text
  | badBlob k r => "setting " ++ Quoted.ofBytes k ++ ": " ++ FaultKind.malformed.text ++ ": " ++ r
  | badIdentifier raw r => "identity uuid " ++ Quoted.ofBytes raw ++ ": " ++ r
  | identityConflict f s w =>
    f ++ " is " ++ Quoted.ofBytes s ++ ", not " ++ Quoted.ofBytes w ++ ": " ++
      FaultKind.conflict.text
  | configUnreadable f => "failed to read config: " ++ message f
  | configFile p f => "config " ++ p ++ ": " ++ message f
  | configSyntax r => "failed to parse config: " ++ r
  | fieldRequired f => f ++ ": field is required"
  | fieldBelow f b => f ++ ": must be at least " ++ b
  | fieldAbove f b => f ++ ": must not exceed " ++ b
  | fieldNotOneOf f c g => f ++ ": must be one of [" ++ c ++ "], got " ++ g
  | fieldCheck f g => f ++ ": " ++ message g
  | fieldsInvalid items =>
    "config validation failed with " ++ toString items.length ++ " errors: " ++
      "\n".intercalate (items.map message)
  | sizeNotWhole s ss => toString s ++ " is not a multiple of the sector size " ++ toString ss
  | partitionsPastDevice e s =>
    FaultKind.invalidLayout.text ++ ": partitions end at " ++ Hex.marked e ++
      " past the device size " ++ Hex.marked s
  | cacheValueSizeUnset => "must be set when the cache is enabled"
  | usage t => FaultKind.usage.text ++ ": " ++ t
  | unknownCommand c => "unknown command " ++ Quoted.ofBytes c ++ ", type 'help'"
  | note t => t

/-- The classes a fault belongs to, through every fault it wraps. -/
def kinds : Fault → List FaultKind
  | kind k => [k]
  | outOfRange .. => [.outOfRange]
  | unaligned .. => [.unaligned]
  | notErased _ => [.notErased]
  | imageOpen _ c => kinds c
  | writeBlockUnsupported _ | sectorSizeZero | sectorSizeTooLarge _ | sectorSizeMisfit .. |
    sectorTooSmall _ | tooFewSectors _ | tooManySectors _ | regionTooLarge => [.invalidConfig]
  | store _ _ _ _ (some c) => kinds c
  | unknownPartition _ | noPartition _ => [.invalidPartition]
  | partitionUnaligned .. | partitionInvalid .. | partitionsOverlap | negativeCache |
    partitionsPastDevice .. => [.invalidLayout]
  | mountFailed _ f => kinds f
  | reformatFailed _ _ g => kinds g
  | joined items => (items.map kinds).flatten
  | nulInString _ | emptyBlob _ => [.invalidArgument]
  | malformedSetting .. | badBlob .. => [.malformed]
  | identityConflict .. => [.conflict]
  | configUnreadable f => kinds f
  | configFile _ f => kinds f
  | fieldCheck _ f => kinds f
  | fieldsInvalid items => (items.map kinds).flatten
  | usage _ => [.usage]
  | _ => []

/-- Whether a fault belongs to class `k`. -/
def is (f : Fault) (k : FaultKind) : Bool :=
  f.kinds.contains k

/-- Whether a fault says the allocation table is damaged: corrupt, or every sector closed. -/
def isCorrupt (f : Fault) : Bool :=
  f.is .corrupt || f.is .allClosed

end Fault

end NorStore
