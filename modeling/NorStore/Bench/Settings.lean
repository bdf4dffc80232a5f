import NorStore.Identity.Record

/-!
# Settings steps

The steps that read and write typed settings and the identity record, over any key-value
store (`Settings.Backend`). A store bench runs them on its store; a manager bench runs them on
a partition.
-/

namespace NorStore.Bench

open Settings

/-- One settings or identity step. -/
inductive SettingStep where
  | set (key : ByteArray) (v : Value)
  | read (kind : Kind) (key : ByteArray)
  | readOr (key : ByteArray) (dflt : Value)
  | has (key : ByteArray)
  | remove (key : ByteArray)
  | setBlob (key data : ByteArray)
  | blob (key : ByteArray)
  | u32Array (keyPrefix : ByteArray) (n : Nat) (defaults : List UInt32)
  | load
  /-- Provisions with the given serial and revision; a fresh record takes `fresh`. -/
  | provision (serial hardware : ByteArray) (fresh : Identity.Fresh)

/-- What a settings step answers. -/
inductive SettingReply where
  | unit
  | value (v : Value)
  | has (b : Bool)
  | bytes (b : ByteArray)
  | values (vs : List UInt32)
  | identity (r : Identity.Record)

/-- Runs a settings step on a backend. -/
def SettingStep.run {m : Type → Type} [Monad m] [MonadExceptOf Fault m] (b : Backend m) :
    SettingStep → m SettingReply
  | .set key v => do b.set key v; pure .unit
  | .read k key => .value <$> b.read k key
  | .readOr key d => .value <$> b.readOr key d
  | .has key => .has <$> b.has key
  | .remove key => do b.remove key; pure .unit
  | .setBlob key data => do b.setBlob key data; pure .unit
  | .blob key => .bytes <$> b.blob key
  | .u32Array p n ds => .values <$> b.u32Array p n ds
  | .load => .identity <$> Identity.load Uuid.codec b
  | .provision s h fresh => .identity <$> Identity.provision Uuid.codec b s h fresh

end NorStore.Bench
