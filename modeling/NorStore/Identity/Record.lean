import NorStore.Identity.Uuid
import NorStore.Settings.Basic

/-!
# The device identity record

The factory partition holds who a device is, in four settings: its identifier (`dev_uuid`,
a string), serial number (`dev_info_serial`), hardware revision (`dev_info_hw_ver`) and the
time it was provisioned (`dev_prov_time`, Unix seconds). The record is written once and
survives resets of the user partition.

* `load` reads the record. Without an identifier the device is *not provisioned*; an
  identifier that does not parse is reported with the reason; a missing serial or revision
  reads as empty, a missing time as unknown.
* `provision` writes a record if there is none and answers the stored one. A fresh record
  takes its identifier and time from the caller: the time goes first, then serial and
  revision, and the identifier last, so that its presence marks a complete record. A device
  already provisioned keeps its identifier; an empty serial or revision may be filled in, and
  asking for a different value of a filled one is a *conflict*. An empty wish asks nothing.

Both read and write the identifier's text with a `Uuid.Codec`; the tools use `Uuid.codec`.
-/

namespace NorStore.Identity

open Settings

/-- Key of the identifier. -/
def uuidKey : ByteArray := "dev_uuid".toUTF8

/-- Key of the serial number. -/
def serialKey : ByteArray := "dev_info_serial".toUTF8

/-- Key of the hardware revision. -/
def hardwareKey : ByteArray := "dev_info_hw_ver".toUTF8

/-- Key of the provisioning time. -/
def provisionedKey : ByteArray := "dev_prov_time".toUTF8

/-- Who a device is. -/
structure Record where
  /-- The identifier. -/
  uuid : Uuid
  /-- The serial number, empty when unknown. -/
  serial : ByteArray
  /-- The hardware revision, empty when unknown. -/
  hardware : ByteArray
  /-- When the device was provisioned, in Unix seconds, if known. -/
  provisionedAt : Option Int

/-- What a fresh record is made of: a new identifier and the current time. -/
structure Fresh where
  /-- The identifier to give the device. -/
  uuid : Uuid
  /-- The current time in Unix seconds. -/
  now : Int

/-- A stored 64-bit count of seconds read as a signed 64-bit time. -/
def signedSeconds (v : UInt64) : Int :=
  if v.toNat < Nat.pow 2 63 then v.toNat else (v.toNat : Int) - Nat.pow 2 64

variable {m : Type → Type} [Monad m] [MonadExceptOf Fault m] (codec : Uuid.Codec) (b : Backend m)

/-- The text under a key, or nothing when the key is missing. -/
def optionalText (key : ByteArray) : m ByteArray :=
  tryCatchThe Fault (b.storedText key) fun f =>
    if f.is .notFound then pure ByteArray.empty else throw f

/-- Reads the identity record. -/
def load : m Record := do
  let raw ← tryCatchThe Fault (b.storedText uuidKey) fun f =>
    if f.is .notFound then throw (Fault.kind .notProvisioned) else throw f
  let uuid ← match codec.parse raw with
    | .ok u => pure u
    | .error reason => throw (Fault.badIdentifier raw reason)
  let serial ← optionalText b serialKey
  let hardware ← optionalText b hardwareKey
  let provisionedAt ← tryCatchThe Fault
    (do
      match ← b.read .u64 provisionedKey with
      | .u64 v => pure (some (signedSeconds v))
      | _ => pure none)
    fun f => if f.is .notFound then pure none else throw f
  pure { uuid, serial, hardware, provisionedAt }

/-- Sets a field to `want` unless it already holds it: an empty wish keeps what is stored,
and a stored value other than the wish is a conflict. -/
def fill (key : ByteArray) (field : String) (stored want : ByteArray) : m ByteArray := do
  if want.isEmpty || want == stored then pure stored
  else if !stored.isEmpty then throw (Fault.identityConflict field stored want)
  else
    b.set key (.text want)
    pure want

/-- Writes the identity record if the device has none, and answers the stored record. -/
def provision (serial hardware : ByteArray) (fresh : Fresh) : m Record := do
  let found ← tryCatchThe Fault (some <$> load codec b) fun f =>
    if f.is .notProvisioned then pure none else throw f
  let start ← match found with
    | some r => pure r
    | none => do
      b.set provisionedKey (.u64 (UInt64.ofInt fresh.now))
      pure { uuid := fresh.uuid, serial := .empty, hardware := .empty,
             provisionedAt := some fresh.now }
  let serial ← fill b serialKey "dev_info_serial" start.serial serial
  let hardware ← fill b hardwareKey "dev_info_hw_ver" start.hardware hardware
  if found.isNone then b.set uuidKey (.text (codec.render fresh.uuid).toUTF8)
  pure { start with serial, hardware }

end NorStore.Identity
