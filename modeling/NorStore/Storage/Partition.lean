import NorStore.Fault
import NorStore.Store.Config
import NorStore.Text.Blank

/-!
# Partitions and their layout

A device holds two stores: the *factory* partition, written once when a device is provisioned,
and the *user* partition for everything else. `Options` places both on the device and bounds
the cache in front of the user partition.

`Options.validate` checks, in order, for each partition (factory first) that its offset and
size are whole sectors and that its store configuration is valid; then that the partitions do
not overlap; then that the cache bounds are not negative. Offsets and sizes are 32-bit words,
and sums of them wrap as such words do.
-/

namespace NorStore.Storage

/-- One of the two partitions of a device. -/
inductive Partition where
  | factory
  | user
  deriving Repr, DecidableEq, Inhabited

namespace Partition

/-- Every partition, in mount order. -/
def all : List Partition := [.factory, .user]

/-- The name of a partition. -/
def name : Partition → String
  | factory => "factory"
  | user => "user"

/-- The number of a partition: 0 for factory, 1 for user. -/
def index : Partition → Int
  | factory => 0
  | user => 1

/-- The partition with a number, if any. -/
def ofIndex? (n : Int) : Option Partition :=
  if n = 0 then some .factory else if n = 1 then some .user else none

/-- The name of a partition number: a partition's name, or `partition(n)`. -/
def nameOfIndex (n : Int) : String :=
  match ofIndex? n with
  | some p => p.name
  | none => "partition(" ++ toString n ++ ")"

/-- Reads a partition name, in any case and with white space around it; `fact` is short for
factory. -/
def parse (s : ByteArray) : Except Fault Partition :=
  match (String.fromUTF8? s).map Blank.fold with
  | some "factory" | some "fact" => .ok .factory
  | some "user" => .ok .user
  | _ => .error (.unknownPartition s)

end Partition

/-- Where a partition lies on the device. -/
structure Layout where
  /-- Its first byte. -/
  offset : UInt32
  /-- Its length in bytes. -/
  size : UInt32
  deriving Repr, DecidableEq, Inhabited

/-- How a device is divided, and the cache of the user partition. -/
structure Options where
  /-- The sector size of both stores. -/
  sectorSize : UInt32 := 4096
  /-- The write block of both stores. -/
  writeBlock : UInt32 := 4
  /-- What an erased byte reads as. -/
  eraseValue : UInt8 := 0xFF
  /-- Where the factory partition lies. -/
  factory : Layout := ⟨0, 32 * 1024⟩
  /-- Where the user partition lies. -/
  user : Layout := ⟨32 * 1024, 32 * 1024⟩
  /-- How many values the cache holds; zero turns it off. -/
  cacheEntries : Int := 32
  /-- The longest value the cache takes. -/
  cacheValueSize : Int := 128
  /-- Nanoseconds between background write-backs; zero for none. -/
  syncInterval : Int := 5000000000
  /-- Whether a partition that fails to mount is erased and mounted again. -/
  reformat : Bool := true
  deriving Repr, Inhabited

namespace Options

/-- The smallest device that holds both partitions. -/
def deviceSize (o : Options) : UInt32 :=
  max (o.factory.offset + o.factory.size) (o.user.offset + o.user.size)

/-- Where a partition lies. -/
def layout (o : Options) : Partition → Layout
  | .factory => o.factory
  | .user => o.user

/-- The store configuration of a partition: its whole sectors from its offset. -/
def storeConfig (o : Options) (p : Partition) : Config :=
  let l := o.layout p
  { offset := l.offset, sectorSize := o.sectorSize,
    sectorCount := if o.sectorSize > 0 then l.size / o.sectorSize else 0,
    writeBlock := o.writeBlock, eraseValue := o.eraseValue }

/-- Checks one partition: whole sectors, and a valid store configuration. -/
def validatePartition (o : Options) (p : Partition) : Except Fault Unit := do
  let l := o.layout p
  if o.sectorSize == 0 || l.size % o.sectorSize != 0 || l.offset % o.sectorSize != 0 then
    throw (.partitionUnaligned p.name l.offset.toNat l.size.toNat)
  match (o.storeConfig p).validate with
  | .error f => throw (.partitionInvalid p.name f)
  | .ok () => pure ()

/-- Checks that both partitions are usable, apart, and that the cache bounds are not
negative. -/
def validate (o : Options) : Except Fault Unit := do
  validatePartition o .factory
  validatePartition o .user
  let f := o.factory
  let u := o.user
  if f.offset < u.offset + u.size && u.offset < f.offset + f.size then
    throw .partitionsOverlap
  if o.cacheEntries < 0 || o.cacheValueSize < 0 then throw .negativeCache

end Options

end NorStore.Storage
