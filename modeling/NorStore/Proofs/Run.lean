import NorStore.Proofs.Cells
import NorStore.Store.Reset

/-!
# Running store operations

A store operation is an exception monad over the engine, so the lemmas on running such
programs apply to it: `run_bind_ok` goes on after a step that succeeded and `run_bind_error`
stops at a step that failed. This module adds the combinators the store's operations are
written with: reading and changing the store, running a device operation, logging, metering
and reporting.

*Quiet steps.* Logging and metering touch only the journal and the meters of the rig. Two
engines that agree on the store and on the flash part are `Quiet` variants of each other; every
fact about a store that the proofs need survives the change.
-/

namespace NorStore

/-- Two engines that differ at most in the journal and the meters. -/
def Engine.Quiet (e e' : Engine) : Prop :=
  e'.store = e.store ∧ e'.rig.chip = e.rig.chip

theorem Engine.Quiet.refl (e : Engine) : e.Quiet e := ⟨rfl, rfl⟩

theorem Engine.Quiet.trans {e e' e'' : Engine} (h : e.Quiet e') (h' : e'.Quiet e'') :
    e.Quiet e'' :=
  ⟨h'.1.trans h.1, h'.2.trans h.2⟩

namespace StoreM

variable {α β : Type}

/-! ## State -/

@[simp] theorem run_store (e : Engine) : store.run.run e = (.ok e.store, e) := rfl

@[simp] theorem run_modifyStore (f : Store → Store) (e : Engine) :
    (modifyStore f).run.run e = (.ok (), { e with store := f e.store }) := rfl

theorem run_logAt (l : Log.Level) (msg : String) (fs : List Log.Field) (e : Engine) :
    ∃ e', (logAt l msg fs).run.run e = (.ok (), e') ∧ e.Quiet e' :=
  ⟨_, rfl, rfl, rfl⟩

theorem run_meter (f : Metrics.Registry → String → Metrics.Registry) (e : Engine) :
    ∃ e', (meter f).run.run e = (.ok (), e') ∧ e.Quiet e' :=
  ⟨_, rfl, rfl, rfl⟩

/-- A device operation runs on the rig's part and leaves everything else as it was. -/
theorem run_onChip (act : Flash.ChipM α) (e : Engine) :
    (onChip act).run.run e =
      ((act.run.run e.rig.chip).1, { e with rig := { e.rig with chip := (act.run.run e.rig.chip).2 } }) := by
  simp only [onChip, run_bind, run_monadGet]
  rcases act.run.run e.rig.chip with ⟨r, c⟩
  cases r <;> rfl

/-- An observed operation that succeeds gives its value; only the meters change on top. -/
theorem run_observed_ok {op : String} {act : StoreM α} {e e' : Engine} {v : α}
    (h : act.run.run e = (.ok v, e')) :
    ∃ e'', (observed op act).run.run e = (.ok v, e'') ∧ e'.Quiet e'' := by
  obtain ⟨e1, h1, q1⟩ := run_meter (fun r p => r.recordOperation p op "ok") e'
  refine ⟨e1, ?_, q1⟩
  simp only [observed]
  rw [run_tryCatch_ok (by rw [run_bind_ok h, run_bind_ok h1]; rfl)]

/-- An observed operation that fails gives its fault; only the meters change on top. -/
theorem run_observed_error {op : String} {act : StoreM α} {e e' : Engine} {ε : Fault}
    (h : act.run.run e = (.error ε, e')) :
    ∃ e'', (observed op act).run.run e = (.error ε, e'') ∧ e'.Quiet e'' := by
  obtain ⟨e1, h1, q1⟩ := run_meter
    (fun r p => r.recordOperation p op (if ε.is .notFound then "not_found" else "error")) e'
  refine ⟨e1, ?_, q1⟩
  simp only [observed]
  rw [run_tryCatch_error (run_bind_error h), run_bind_ok h1]
  rfl

/-- Re-raising under another name changes only the fault. -/
theorem run_wrapFault_ok {op : String} {key : ByteArray} {act : StoreM α} {e e' : Engine} {v : α}
    (h : act.run.run e = (.ok v, e')) : (wrapFault op key act).run.run e = (.ok v, e') :=
  run_tryCatch_ok h

theorem run_observed (op : String) {act : StoreM α} {e e' : Engine} {r : Except Fault α}
    (h : act.run.run e = (r, e')) :
    ∃ e'', (observed op act).run.run e = (r, e'') ∧ e'.Quiet e'' := by
  cases r with
  | ok v => exact run_observed_ok h
  | error f => exact run_observed_error h

/-- What a run of an operation establishes holds of the observed operation too, when it does
not depend on the journal and the meters. -/
theorem run_observed_of {op : String} {act : StoreM α} {e : Engine}
    {P : Except Fault α → Engine → Prop} (hP : ∀ r e' e'', P r e' → e'.Quiet e'' → P r e'')
    (h : ∃ r e', act.run.run e = (r, e') ∧ P r e') :
    ∃ r e', (observed op act).run.run e = (r, e') ∧ P r e' := by
  obtain ⟨r, e', hrun, hp⟩ := h
  obtain ⟨e'', hobs, hq⟩ := run_observed op hrun
  exact ⟨r, e'', hobs, hP r e' e'' hp hq⟩

theorem run_wrapFault_error {op : String} {key : ByteArray} {act : StoreM α} {e e' : Engine}
    {f : Fault} (h : act.run.run e = (.error f, e')) :
    (wrapFault op key act).run.run e = (.error (.store op key none "" (some f)), e') := by
  unfold wrapFault
  rw [run_tryCatch_error h]
  rfl

end StoreM

end NorStore
