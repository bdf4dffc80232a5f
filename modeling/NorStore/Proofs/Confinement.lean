import NorStore.Proofs.History
import NorStore.Proofs.Reads

/-!
# The store stays inside its region

A store owns the sectors of its region and nothing else of the part: another store, or another
partition of the same device, may hold the bytes before and after it. `Config.Confined` says that
a change of the part kept every byte beyond the region, and each run lemma of the store carries it
(`run_program` and `run_eraseSector` at the bottom, where the address a store programs or erases
is computed from its cursors; the ring invariant keeps those inside the region).

* Every call on a faithful session changes the part inside the region only
  (`Faithful.call_confined`): writes and deletions with all their collections, clearing and
  formatting, and mounting a new store, which only reads.
* Reading a key, a version of a key, or the live keys only reads the part
  (`Faithful.get_reads`, `Faithful.readVersion_reads`, `StoreM.keys_onlyReads`).
* From a new store on an erased region, every byte beyond the region holds after any sequence of
  calls what it held on the part the store was started on (`Reachable.confined_to_region`).

The faithful session is what makes this hold: a part whose region holds crafted entries, with
offsets and lengths that run past their sector, can drive a collection to copy bytes past the
end of the region.
-/

namespace NorStore

namespace Session

variable {c : Config}

/-- The engine after a call is the one the call leaves, whether it succeeded or not. -/
theorem engine_step (s : Session) (call : Call) :
    (s.step call).engine = (call.run s.engine).2 := by
  simp only [step]
  rcases call.run s.engine with ⟨r, e'⟩
  cases r <;> rfl

/-- A new store on an erased region only reads the part while it mounts. -/
theorem start_confined (hv : c.validate = .ok ()) (hpol : Flash.Polar c.eraseValue)
    (log : Log.Logger) (partition : String) {rig : Rig} (hpl : c.Placed rig.chip)
    (herased : c.Hosts rig.chip fun _ _ => c.eraseValue) :
    c.Confined rig.chip (start c log partition rig).engine.rig.chip := by
  obtain ⟨e', hrun, -, hchip⟩ := run_start hv hpol log partition hpl herased
  intro q _
  rw [start, hrun]
  show e'.rig.chip.cells.get! q = _
  rw [hchip]

namespace Faithful

variable {s : Session} {R : Ring} (hv : c.validate = .ok ()) (hpol : Flash.Polar c.eraseValue)
include hv hpol

/-- A write on a faithful session, whether it appends, rotates, only reads or is refused, changes
the part inside the region only. -/
theorem write_confined (h : s.Faithful c R) (key data : ByteArray) :
    c.Confined s.engine.rig.chip ((Call.write key data).run s.engine).2.rig.chip := by
  obtain ⟨res, e', hrun, R', -, -, -, -, hcf⟩ := StoreM.run_write_ends
    (Config.usable_of_validate hv) hpol h.stored h.atRest h.mounted key data
  simp only [Call.run, hrun]
  exact hcf

/-- Every call on a faithful session changes the part inside the region only. -/
theorem call_confined (h : s.Faithful c R) (call : Call) :
    c.Confined s.engine.rig.chip (call.run s.engine).2.rig.chip := by
  have hc := Config.usable_of_validate hv
  cases call with
  | write key data => exact h.write_confined hv hpol key data
  | delete key =>
    rw [Call.run_delete]
    exact h.write_confined hv hpol key ByteArray.empty
  | clear =>
    obtain ⟨e', hrun, -, -, hcf⟩ :=
      StoreM.run_clear hc hpol h.stored.config h.stored.placed h.mounted
    show c.Confined _ (StoreM.clear.run.run s.engine).2.rig.chip
    rw [hrun]
    exact hcf
  | format =>
    obtain ⟨e', hrun, -, -, hcf⟩ := StoreM.run_format hv hpol h.stored.config h.stored.placed
    show c.Confined _ (StoreM.format.run.run s.engine).2.rig.chip
    rw [hrun]
    exact hcf
  | remount log partition =>
    -- the new store finds the ring and only reads
    obtain ⟨e', hrun, -, -, hchip⟩ := StoreM.run_mount hv hpol
      (h.stored.toHosted.withStore (s := Store.create s.engine.store.config log partition)
        h.stored.config) h.atRest
    intro q _
    show ((StoreM.mount.run.run _).2).rig.chip.cells.get! q = _
    rw [hrun]
    show e'.rig.chip.cells.get! q = _
    rw [hchip]

/-- Reading a key of a faithful session only reads the part. -/
theorem get_reads (h : s.Faithful c R) (key : ByteArray) :
    s.engine.Reads ((StoreM.get key).run.run s.engine).2 := by
  cases hk : Entry.padKey? key with
  | none =>
    obtain ⟨e', hrun, hr⟩ := StoreM.run_get_invalid hk s.engine
    rw [hrun]
    exact hr
  | some k =>
    obtain ⟨e', hrun, hr⟩ := StoreM.run_get (Config.usable_of_validate hv) hpol h.stored h.mounted hk
    rw [hrun]
    exact hr

/-- Reading a version of a key of a faithful session, at any index, only reads the part. -/
theorem readVersion_reads (h : s.Faithful c R) (key : ByteArray) (size : Nat) (n : Int) :
    s.engine.Reads ((StoreM.readVersion key size n).run.run s.engine).2 := by
  cases hk : Entry.padKey? key with
  | none =>
    obtain ⟨e', hrun, hr⟩ := StoreM.run_readVersion_badKey hk size n s.engine
    rw [hrun]
    exact hr
  | some k =>
    rcases Int.lt_or_le n 0 with hn | hn
    · obtain ⟨e', hrun, hr⟩ := StoreM.run_readVersion_negative hk size hn s.engine
      rw [hrun]
      exact hr
    · obtain ⟨e', hrun, hr⟩ := StoreM.run_readVersion_versions (Config.usable_of_validate hv) hpol
        h.stored h.mounted hk size n.toNat
      rw [← Int.toNat_of_nonneg hn, hrun]
      exact hr

end Faithful

/-- Every call on a session a client reaches changes the part inside the region only. -/
theorem Reachable.call_confined (hv : c.validate = .ok ()) (hpol : Flash.Polar c.eraseValue)
    {s : Session} (hs : s.Reachable c) (call : Call) :
    c.Confined s.engine.rig.chip (s.step call).engine.rig.chip := by
  obtain ⟨R, h⟩ := hs.faithful hv hpol
  rw [engine_step]
  exact h.call_confined hv hpol call

/-- Along any sequence of calls from a session a client reaches, every byte beyond the region
keeps what it held. -/
theorem Reachable.calls_confined (hv : c.validate = .ok ()) (hpol : Flash.Polar c.eraseValue)
    {s : Session} (hs : s.Reachable c) (calls : List Call) :
    c.Confined s.engine.rig.chip (calls.foldl Session.step s).engine.rig.chip := by
  induction calls generalizing s with
  | nil => exact Config.Confined.refl _
  | cons call calls ih =>
    -- one call, then the rest from the session it reaches
    rw [List.foldl_cons]
    exact (hs.call_confined hv hpol call).trans (ih (hs.step call))

/-- The store writes and erases inside its region only. From a new store on an erased region,
every byte of the part before or after the region holds, after any sequence of writes,
deletions, clears, formats and remounts, what it held on the part the store was started on; and
in every session a client reaches, reading a key, a version of a key or the live keys only reads
the part. -/
theorem Reachable.confined_to_region (hv : c.validate = .ok ())
    (hpol : Flash.Polar c.eraseValue) :
    (∀ (log : Log.Logger) (partition : String) (rig : Rig), c.Placed rig.chip →
      c.Hosts rig.chip (fun _ _ => c.eraseValue) → ∀ calls : List Call,
        c.Confined rig.chip
          (calls.foldl Session.step (Session.start c log partition rig)).engine.rig.chip) ∧
    ∀ s : Session, s.Reachable c →
      (∀ key, s.engine.Reads ((StoreM.get key).run.run s.engine).2) ∧
      (∀ key size n, s.engine.Reads ((StoreM.readVersion key size n).run.run s.engine).2) ∧
      s.engine.Reads (StoreM.keys.run.run s.engine).2 := by
  refine ⟨fun log partition rig hpl herased calls => ?_, fun s hs => ?_⟩
  · exact (start_confined hv hpol log partition hpl herased).trans
      (Reachable.calls_confined hv hpol (.start log partition hpl herased) calls)
  obtain ⟨R, h⟩ := hs.faithful hv hpol
  exact ⟨h.get_reads hv hpol, h.readVersion_reads hv hpol, StoreM.keys_onlyReads s.engine⟩

/-- A store on the middle two sectors of a blank part of four: after a write, a deletion and a
clear, the first and the last sector of the part read as they did. -/
theorem confined_middle_sectors :
    Config.validate ⟨120, 120, 2, 1, 0xFF⟩ = .ok () ∧ Flash.Polar 0xFF ∧
      Config.Confined ⟨120, 120, 2, 1, 0xFF⟩
        { geometry := ⟨480, 120, 1, 0xFF⟩, cells := ⟨Array.replicate 480 0xFF⟩,
          wear := #[0, 0, 0, 0] }
        ([Call.write ⟨#[107]⟩ ⟨#[97]⟩, Call.delete ⟨#[107]⟩, Call.clear].foldl Session.step
          (Session.start ⟨120, 120, 2, 1, 0xFF⟩ .silent "default"
            { chip := { geometry := ⟨480, 120, 1, 0xFF⟩, cells := ⟨Array.replicate 480 0xFF⟩,
                        wear := #[0, 0, 0, 0] } })).engine.rig.chip := by
  have hpl : Config.Placed ⟨120, 120, 2, 1, 0xFF⟩
      { geometry := ⟨480, 120, 1, 0xFF⟩, cells := ⟨Array.replicate 480 0xFF⟩,
        wear := #[0, 0, 0, 0] } :=
    { erased := rfl
      size := Array.size_replicate
      region := by decide
      write_block := .inl (by decide)
      erase_block := .inr ⟨by decide, by decide⟩
      ready := ⟨rfl, by decide⟩ }
  exact ⟨rfl, .inr rfl,
    (Reachable.confined_to_region (c := ⟨120, 120, 2, 1, 0xFF⟩) rfl (.inr rfl)).1
      .silent "default" _ hpl (Config.hosts_replicate rfl (by decide)) _⟩

end Session

end NorStore
