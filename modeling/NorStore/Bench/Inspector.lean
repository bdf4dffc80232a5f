import NorStore.Bench.Manager
import NorStore.Inspector.View

/-!
# The inspector on the bench

A manager bench with an inspector over its manager. Manager and device steps change the state
under the inspector; the inspector's own steps create it (the manager must be open), start
it, send it key presses, typed text (one press per character), a window size or a timer tick,
and draw it. The inspector reads meters when the bench has them; it is drawn as if it had just
started, with no time gone by.
-/

namespace NorStore.Bench

open Storage

/-- One step on an inspector bench. -/
inductive InspectorStep where
  | create
  | start
  | press (k : Screen.Key)
  | typeText (text : String)
  | resize (width height : Nat)
  | tick
  | draw
  | manager (s : ManagerStep)

/-- What an inspector step answers. -/
inductive InspectorReply where
  | unit
  /-- Whether the inspector asked for more work. -/
  | asks (more : Bool)
  /-- The same, for each character typed. -/
  | asksEach (more : List Bool)
  | screen (text : String)
  | manager (r : ManagerReply)

/-- A manager bench and the inspector over it, once created. -/
structure InspectorBench where
  /-- The manager bench. -/
  bench : ManagerBench
  /-- The inspector. -/
  model : Option Inspector.Model := none

namespace InspectorBench

/-- Runs an inspector update on the manager. -/
def update (b : InspectorBench) (mgr : Manager) (m : Inspector.Model) (msg : Inspector.Msg) :
    InspectorBench × Bool :=
  let (bench, r, _) := b.bench.exec mgr (m.update msg)
  match r with
  | .ok (m, more) => ({ b with bench, model := some m }, more)
  | .error _ => ({ b with bench }, false)

/-- Applies one step. -/
def run (b : InspectorBench) : InspectorStep → InspectorBench × Outcome InspectorReply
  | .manager s =>
    let (bench, o) := b.bench.run s
    ({ b with bench }, o.map .manager)
  | .create =>
    match b.bench.manager with
    | none => (b, .refused "manager not open")
    | some mgr =>
      let (bench, r, _) := b.bench.exec mgr (Inspector.Model.create b.bench.rig.meters.isSome)
      match r with
      | .ok m => ({ b with bench, model := some m }, .done .unit)
      | .error f => ({ b with bench }, .failed f)
  | step =>
    match b.model, b.bench.manager with
    | some m, some mgr =>
      match step with
      | .start => (b, .done (.asks Inspector.Model.starts))
      | .press k => let (b, more) := b.update mgr m (.key k); (b, .done (.asks more))
      | .resize w h => let (b, more) := b.update mgr m (.resize w h); (b, .done (.asks more))
      | .tick => let (b, more) := b.update mgr m .tick; (b, .done (.asks more))
      | .typeText text =>
        let (b, mores) := text.toList.foldl (fun (b, acc) c =>
          match b.model, b.bench.manager with
          | some m, some mgr => let (b, more) := b.update mgr m (.key (Screen.Key.typed c.toString)); (b, acc ++ [more])
          | _, _ => (b, acc)) (b, [])
        (b, .done (.asksEach mores))
      | .draw => (b, .done (.screen (Inspector.view m mgr 0)))
      | _ => (b, .done .unit)
    | _, _ => (b, .refused "model not created")

end InspectorBench

end NorStore.Bench
