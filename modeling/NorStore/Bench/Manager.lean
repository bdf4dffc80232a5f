import NorStore.Bench.Cache
import NorStore.Bench.Store
import NorStore.Health.Site

/-!
# A storage manager on the bench

A bench with one flash part and, once opened, a storage manager over it. The steps are the
manager's plain and cached access, flushing, listing, the cache's state, the health report,
the engine steps of one partition's store, and the settings steps on a partition's view.
Device and meter steps work before the manager is opened; every other step needs it open.
-/

namespace NorStore.Bench

open Storage

/-- One step on a manager bench. Partitions are given by number. -/
inductive ManagerStep where
  | openManager
  | write (p : Int) (key data : ByteArray)
  | writeCached (p : Int) (key data : ByteArray)
  | viewWrite (p : Int) (key data : ByteArray)
  | read (p : Int) (key : ByteArray) (size : Nat)
  | readCached (p : Int) (key : ByteArray) (size : Nat)
  | get (p : Int) (key : ByteArray)
  | getCached (p : Int) (key : ByteArray)
  | viewGet (p : Int) (key : ByteArray)
  | delete (p : Int) (key : ByteArray)
  | viewDelete (p : Int) (key : ByteArray)
  | clear (p : Int)
  | format (p : Int)
  | flush (p : Int)
  | flushAll
  | close
  | dump (p : Int)
  | cache (s : CacheStep)
  | health
  | options
  /-- An engine step on the store of partition `p`. -/
  | store (p : Int) (s : StoreStep)
  /-- A settings step on the view of partition `p`. -/
  | setting (p : Int) (s : SettingStep)
  | device (s : DeviceStep)
  | metrics
  | metricValue (name : String) (labels : List (String × String))

/-- What a manager step answers. -/
inductive ManagerReply where
  | unit
  | written (n : Nat)
  | read (length : Nat) (bytes : ByteArray)
  | value (bytes : ByteArray)
  /-- A listing, and the fault that cut it short, if any. -/
  | listing (text : ByteArray) (fault : Option Fault)
  | cache (r : CacheReply)
  | noCache
  | report (r : Health.Report)
  | options (o : Options)
  | store (r : StoreReply)
  | setting (r : SettingReply)
  | device (r : DeviceReply)
  | samples (l : List (String × Int))
  | metric (v : Int)

/-- A flash part and the manager opened over it, if any. -/
structure ManagerBench where
  /-- The flash part, journal and meters. -/
  rig : Rig
  /-- What the manager is opened with. -/
  options : Options
  /-- The logger given to the manager and its stores. -/
  logger : Option Log.Logger
  /-- The manager, once opened. -/
  manager : Option Manager := none
  /-- Engine iterators, by partition number and iterator number. -/
  iterators : List ((Int × Int) × OpenIterator) := []

namespace ManagerBench

/-- Runs a manager operation on an open manager. -/
def exec (b : ManagerBench) (m : Manager) (act : SiteM α) : ManagerBench × Except Fault α × ByteArray :=
  let (r, s) := (act.run).run { manager := m, rig := b.rig }
  ({ b with rig := s.rig, manager := some s.manager }, r, s.console)

/-- Runs a manager operation and maps its result to a reply. -/
def execAs (b : ManagerBench) (m : Manager) (act : SiteM α) (f : α → ManagerReply) :
    ManagerBench × Outcome ManagerReply :=
  let (b, r, _) := b.exec m act
  (b, (Outcome.ofExcept r).map f)

/-- Runs an engine step on the store of a partition. -/
def storeStep (b : ManagerBench) (m : Manager) (n : Int) (s : StoreStep) :
    ManagerBench × Outcome ManagerReply :=
  let (b, r, _) := b.exec m (SiteM.resolve n)
  match r with
  | .error f => (b, .failed f)
  | .ok p =>
    let m := b.manager.getD m
    let st := m.store p
    let sb : StoreBench :=
      { engine := ⟨st, b.rig⟩, config := st.config, logger := st.log, partition := st.partition,
        iterators := b.iterators.filterMap fun ((q, id), it) => if q == n then some (id, it) else none }
    let (sb, o) := sb.run s
    let others := b.iterators.filter fun ((q, _), _) => q != n
    ({ b with rig := sb.engine.rig, manager := some (m.setStore p sb.engine.store),
              iterators := others ++ sb.iterators.map fun (id, it) => ((n, id), it) },
     o.map .store)

/-- Applies a step that needs the manager open. -/
def runOpen (b : ManagerBench) (m : Manager) : ManagerStep → ManagerBench × Outcome ManagerReply
  | .write p k d => b.execAs m (SiteM.writePlain p k d) .written
  | .writeCached p k d => b.execAs m (SiteM.writeCached p k d) .written
  | .viewWrite p k d => b.execAs m ((SiteM.view p).write k d) .written
  | .read p k n => b.execAs m (SiteM.readPlain p k n) fun (l, bs) => .read l bs
  | .readCached p k n => b.execAs m (SiteM.readCached p k n) fun (l, bs) => .read l bs
  | .get p k => b.execAs m (SiteM.getPlain p k) .value
  | .getCached p k => b.execAs m (SiteM.getCached p k) .value
  | .viewGet p k => b.execAs m ((SiteM.view p).get k) .value
  | .delete p k => b.execAs m (SiteM.delete p k) fun _ => .unit
  | .viewDelete p k => b.execAs m ((SiteM.view p).delete k) fun _ => .unit
  | .clear p => b.execAs m (SiteM.clear p) fun _ => .unit
  | .format p => b.execAs m (SiteM.format p) fun _ => .unit
  | .flush p => b.execAs m (SiteM.flush p) fun _ => .unit
  | .flushAll => b.execAs m SiteM.flushAll fun _ => .unit
  | .close => b.execAs m SiteM.close fun _ => .unit
  | .dump p =>
    let (b, r, text) := b.exec m (SiteM.dump p)
    (b, .done (.listing text (match r with | .ok () => none | .error f => some f)))
  | .cache s =>
    match m.cache with
    | some c =>
      let (c, r) := s.run c
      ({ b with manager := some { m with cache := some c } }, .done (.cache r))
    | none => (b, .done .noCache)
  | .health => b.execAs m Health.siteReport .report
  | .options => (b, .done (.options m.options))
  | .store p s => b.storeStep m p s
  | .setting p s => b.execAs m (s.run (SiteM.view p)) .setting
  | _ => (b, .refused "manager not open")

/-- Applies one step. -/
def run (b : ManagerBench) (step : ManagerStep) : ManagerBench × Outcome ManagerReply :=
  match step with
  | .openManager =>
    let (rig, r) := openSite b.options b.logger b.rig
    match r with
    | .ok s => ({ b with rig := rig, manager := some s.manager, iterators := [] }, .done .unit)
    | .error f => ({ b with rig := rig }, .failed f)
  | .device s =>
    let (c, o) := s.run b.rig.chip
    ({ b with rig := { b.rig with chip := c } }, o.map .device)
  | .metrics =>
    match b.rig.meters with
    | some r => (b, .done (.samples r.samples))
    | none => (b, .refused "metrics not enabled for this session")
  | .metricValue name labels =>
    match b.rig.meters with
    | some r => (b, .done (.metric (r.valueOf name labels)))
    | none => (b, .refused "metrics not enabled for this session")
  | step =>
    match b.manager with
    | some m => b.runOpen m step
    | none => (b, .refused "manager not open")

end ManagerBench

end NorStore.Bench
