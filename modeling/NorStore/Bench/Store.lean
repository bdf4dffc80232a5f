import NorStore.Store.Reset
import NorStore.Bench.Device
import NorStore.Bench.Settings

/-!
# A store on the bench

A bench that holds one flash part and one store on it, with the steps a store offers: mounting,
writing, reading, iterating, accounting, clearing and formatting, replacing the store by a fresh
one over the same part, the settings steps with the store as their backend, and the device
steps. Iterators are kept by number; an iterator keeps
reading the store it was opened on even after that store has been replaced.
-/

namespace NorStore.Bench

/-- One step on a store bench. -/
inductive StoreStep where
  | mount
  | format
  | clear
  | mounted
  /-- Replaces the store by a new, unmounted one, with another configuration if given. -/
  | renew (config : Option Config)
  | write (key data : ByteArray)
  | delete (key : ByteArray)
  /-- Reads version `version` (the newest when absent) into a buffer of `size` bytes. -/
  | read (key : ByteArray) (size : Nat) (version : Option Int)
  | get (key : ByteArray)
  | keys
  | free
  | stat
  | config
  | iterOpen (id : Int)
  | iterNext (id : Int)
  | iterInfo (id : Int)
  | iterClose (id : Int)
  | metrics
  | metricValue (name : String) (labels : List (String × String))
  | device (s : DeviceStep)
  | setting (s : SettingStep)

/-- What a store step answers. -/
inductive StoreReply where
  | unit
  | mounted (b : Bool)
  | written (n : Nat)
  /-- The stored length and the bytes copied. -/
  | read (length : Nat) (bytes : ByteArray)
  | value (bytes : ByteArray)
  | keys (ks : List ByteArray)
  | free (n : Int)
  | stat (s : Stat)
  | config (c : Config)
  | info (i : EntryInfo)
  | samples (l : List (String × Int))
  | metric (v : Int)
  | device (r : DeviceReply)
  | setting (r : SettingReply)

/-- An iterator and, once the store it was opened on has been replaced, that store. -/
structure OpenIterator where
  /-- The iterator. -/
  iterator : Iterator
  /-- The replaced store it reads, if it no longer reads the current one. -/
  frozen : Option Store := none
  deriving Inhabited

/-- A flash part, a store on it and the iterators opened on it. -/
structure StoreBench where
  /-- The store and its rig. -/
  engine : Engine
  /-- The configuration new stores get. -/
  config : Config
  /-- The logger new stores get. -/
  logger : Log.Logger
  /-- The partition name new stores get. -/
  partition : String
  /-- Iterators by number. -/
  iterators : List (Int × OpenIterator) := []
  deriving Inhabited

/-- The store as a backend for settings. -/
def StoreM.backend : Settings.Backend StoreM :=
  { write := StoreM.write, get := StoreM.get, delete := StoreM.delete }

namespace StoreBench

/-- A bench with a new, unmounted store. -/
def create (chip : Flash.Chip) (c : Config) (logger : Log.Logger) (partition : String)
    (meters : Option Metrics.Registry) : StoreBench :=
  { engine := ⟨Store.create c logger partition, { chip := chip, meters := meters }⟩,
    config := c, logger := logger, partition := partition }

/-- Runs a store operation. -/
def exec (b : StoreBench) (act : StoreM α) : StoreBench × Outcome α :=
  let (r, e) := (act.run).run b.engine
  ({ b with engine := e }, Outcome.ofExcept r)

/-- Runs a store operation and maps its result to a reply. -/
def execAs (b : StoreBench) (act : StoreM α) (f : α → StoreReply) : StoreBench × Outcome StoreReply :=
  let (b, o) := b.exec act
  (b, o.map f)

/-- The iterator numbered `id`. -/
def iterator? (b : StoreBench) (id : Int) : Option OpenIterator :=
  (b.iterators.find? (·.1 == id)).map (·.2)

/-- The bench with iterator `id` set. -/
def setIterator (b : StoreBench) (id : Int) (it : OpenIterator) : StoreBench :=
  { b with iterators := (id, it) :: b.iterators.filter (·.1 != id) }

/-- Moves iterator `id` on. -/
def advanceIterator (b : StoreBench) (id : Int) (oi : OpenIterator) :
    StoreBench × Outcome StoreReply :=
  let store := oi.frozen.getD b.engine.store
  let (r, e) := (StoreM.advance oi.iterator).run.run ⟨store, b.engine.rig⟩
  let (it, r) := match r with
    | .ok v => v
    | .error f => (oi.iterator.finish, .error f)
  let b := { b with engine := { b.engine with rig := e.rig } }
  let b := b.setIterator id { oi with iterator := it }
  (b, match r with | .ok () => .done .unit | .error f => .failed f)

/-- Applies one step. -/
def run (b : StoreBench) (step : StoreStep) : StoreBench × Outcome StoreReply :=
  match step with
  | .mount => b.execAs StoreM.mount fun _ => .unit
  | .format => b.execAs StoreM.format fun _ => .unit
  | .clear => b.execAs StoreM.clear fun _ => .unit
  | .mounted => (b, .done (.mounted b.engine.store.mounted))
  | .renew c =>
    let old := b.engine.store
    let fresh := Store.create (c.getD b.config) b.logger b.partition
    let its := b.iterators.map fun (id, oi) => (id, { oi with frozen := oi.frozen.orElse fun _ => some old })
    ({ b with engine := { b.engine with store := fresh }, iterators := its }, .done .unit)
  | .write key data => b.execAs (StoreM.write key data) .written
  | .delete key => b.execAs (StoreM.delete key) fun _ => .unit
  | .read key size version =>
    b.execAs (StoreM.readVersion key size (version.getD 0)) fun (n, bytes) => .read n bytes
  | .get key => b.execAs (StoreM.get key) .value
  | .keys => b.execAs StoreM.keys .keys
  | .free => b.execAs StoreM.freeSpace .free
  | .stat => b.execAs StoreM.stat .stat
  | .config => (b, .done (.config b.engine.store.config))
  | .iterOpen id =>
    let (b, o) := b.exec StoreM.iterator
    match o with
    | .done it => (b.setIterator id { iterator := it }, .done .unit)
    | .failed f => (b, .failed f)
    | .refused w => (b, .refused w)
  | .iterNext id =>
    match b.iterator? id with
    | some oi => b.advanceIterator id oi
    | none => (b, .refused ("no iterator " ++ toString id))
  | .iterInfo id =>
    match b.iterator? id with
    | some oi => (b, (Outcome.ofExcept oi.iterator.info).map .info)
    | none => (b, .refused ("no iterator " ++ toString id))
  | .iterClose id =>
    match b.iterator? id with
    | some oi => (b.setIterator id { oi with iterator := oi.iterator.finish }, .done .unit)
    | none => (b, .refused ("no iterator " ++ toString id))
  | .metrics =>
    match b.engine.rig.meters with
    | some r => (b, .done (.samples r.samples))
    | none => (b, .refused "metrics not enabled for this session")
  | .metricValue name labels =>
    match b.engine.rig.meters with
    | some r => (b, .done (.metric (r.valueOf name labels)))
    | none => (b, .refused "metrics not enabled for this session")
  | .device s =>
    let (c, o) := s.run b.engine.rig.chip
    ({ b with engine := { b.engine with rig := { b.engine.rig with chip := c } } }, o.map .device)
  | .setting s => b.execAs (s.run StoreM.backend) .setting

end StoreBench

end NorStore.Bench
