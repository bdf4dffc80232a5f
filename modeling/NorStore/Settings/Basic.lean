import NorStore.Compress.Decode
import NorStore.Compress.Encode
import NorStore.Fault
import NorStore.Settings.Value
import NorStore.Store.Entry

/-!
# Settings over a key-value store

Settings live in any store that can write, read and delete a key: a mounted store, or a
partition seen through the storage manager. `Backend` is that surface, in a monad that can
fail with a `Fault`.

* `set` stores a setting's text; a string with a NUL byte is refused, since its NUL would end
  the text early.
* `get` reads a setting of a type; stored text that does not read as the type is *malformed*.
* `getOr` is the loader used at boot: a missing or malformed setting takes the default, which
  is written back so that the next boot finds it.
* `has` tells whether a key holds a value; only a missing key answers no, other failures pass.
* `setBlob` stores bytes compressed (`NorStore.Compress`), `blob` expands them.
* `u32Array` loads the elements of an array kept under the keys `prefix0`, `prefix1`, ….
-/

namespace NorStore.Settings

/-- A key-value store that settings can live in. -/
structure Backend (m : Type → Type) where
  /-- Stores bytes under a key, answering how many bytes were written. -/
  write : ByteArray → ByteArray → m Nat
  /-- The live value of a key. -/
  get : ByteArray → m ByteArray
  /-- Removes a key. -/
  delete : ByteArray → m Unit

/-- The key of element `i` of the array under `prefix`: the prefix and the index in decimal.
It must be usable as a key. -/
def indexedKey (keyPrefix : ByteArray) (i : Int) : Except Fault ByteArray :=
  let key := keyPrefix ++ (toString i).toUTF8
  match Entry.padKey? key with
  | some _ => .ok key
  | none => .error (.kind .invalidKey)

/-- The text a damaged blob is reported with. -/
def corruptBlob : String := "snappy: corrupt input"

namespace Backend

variable {m : Type → Type} [Monad m] [MonadExceptOf Fault m] (b : Backend m)

/-- Stores a setting. -/
def set (key : ByteArray) (v : Value) : m Unit := do
  if let .text t := v then
    if t.toList.contains 0 then throw (Fault.nulInString key)
  discard (b.write key v.encode)

/-- The stored text of a key: its bytes before the first NUL. -/
def storedText (key : ByteArray) : m ByteArray := do
  return beforeNul (← b.get key)

/-- The setting of type `k` stored under a key. -/
def read (k : Kind) (key : ByteArray) : m Value := do
  let t ← b.storedText key
  match k.read t with
  | some v => pure v
  | none => throw (Fault.malformedSetting key t)

/-- The setting under a key, or `default` (then stored) when it is missing or malformed. -/
def readOr (key : ByteArray) (dflt : Value) : m Value :=
  tryCatchThe Fault (b.read dflt.kind key) fun f => do
    if f.is .notFound || f.is .malformed then
      b.set key dflt
      pure dflt
    else throw f

/-- Whether a key holds a value. -/
def has (key : ByteArray) : m Bool :=
  tryCatchThe Fault (do discard (b.get key); pure true) fun f =>
    if f.is .notFound then pure false else throw f

/-- Removes a setting. -/
def remove (key : ByteArray) : m Unit :=
  b.delete key

/-- Stores bytes compressed; there must be at least one. -/
def setBlob (key data : ByteArray) : m Unit := do
  if data.isEmpty then throw (Fault.emptyBlob key)
  discard (b.write key (Compress.compress data))

/-- The bytes of a compressed setting. -/
def blob (key : ByteArray) : m ByteArray := do
  match Compress.decompress (← b.get key) with
  | some data => pure data
  | none => throw (Fault.badBlob key corruptBlob)

/-- The `n` elements of the array under `prefix`; element `i` defaults to `defaults[i]`, or
to zero past their end. -/
def u32Array (keyPrefix : ByteArray) (n : Nat) (defaults : List UInt32) : m (List UInt32) :=
  (List.range n).mapM fun i => do
    let key ← match indexedKey keyPrefix (Int.ofNat i) with
      | .ok key => pure key
      | .error f => throw f
    match ← b.readOr key (.u32 (defaults.getD i 0)) with
    | .u32 v => pure v
    | _ => pure 0

end Backend

end NorStore.Settings
