import NorStore.Proofs.Raises
import NorStore.Proofs.Remount

/-!
# Locating the active sector on any region

Mounting starts by scanning the ring for a closed sector followed by an open one, counting the
closed sectors it passes; if it counted every sector, the region cannot be mounted. This module
follows the scan on a region that holds anything at all, with no assumption on how it was
written, and shows that the count is all that decides:

* with every close slot written, the scan counts every sector and locating the active sector
  fails as *all sectors closed* (`run_locateActive_allClosed`);
* with some close slot erased, the count falls short, and locating the active sector fails only
  as the part does (`locateActive_raises_of_open`); from there starting up fails only as the part
  does or for a corrupt table (`startup_raises_of_open`).

Mounting answers what starting up answers (`mount_result`), so it fails as *all sectors closed*
exactly when no close slot of the region reads as erased (`mount_allClosed_iff`).
-/

namespace NorStore

namespace StoreM

variable {c : Config} {img : Nat → Nat → UInt8}

/-! ## The scan -/

/-- Looking at a close slot answers whether it reads as erased, whatever the part holds. -/
theorem run_isErased_closeSlot (hc : c.Usable) {e : Engine} (hcfg : e.store.config = c)
    (hpl : c.Placed e.rig.chip) (hh : c.Hosts e.rig.chip img) {j : Nat}
    (hj : j < c.sectorCount.toNat) :
    ∃ b e', (isErased (Address.at j c.closeOffset) c.entrySize).run.run e = (.ok b, e') ∧
      e.Reads e' ∧
        (b = true ↔ Sector.Blank (img j) c.eraseValue c.closeOffset c.entrySize.toNat) := by
  have h4 := hc.four_entries
  exact run_isErased hc e hcfg hpl hh hj (by simp only [Config.closeOffset]; omega)

/-- With every close slot written, the scan counts each sector from `i` on as closed and runs to
the end of the ring. -/
theorem run_scanRing_allClosed (hc : c.Usable)
    (hall : ∀ j < c.sectorCount.toNat,
      ¬Sector.Blank (img j) c.eraseValue c.closeOffset c.entrySize.toNat) :
    ∀ (k i : Nat) (addr : Address) (closed : Nat) (e : Engine), e.store.config = c →
      c.Placed e.rig.chip → c.Hosts e.rig.chip img → c.sectorCount.toNat = i + k →
      ∃ addr' e', (scanRing c.sectorCount i addr closed).run.run e =
        (.ok (c.sectorCount.toNat, addr', closed + k), e') ∧ e.Reads e' := by
  intro k
  induction k with
  | zero =>
    intro i addr closed e _ _ _ hk
    have hi : c.sectorCount.toNat ≤ i := by omega
    exact ⟨addr, e, by rw [run_scanRing_end _ hi, Nat.add_zero, hk, Nat.add_zero], .refl e⟩
  | succ k ih =>
    intro i addr closed e hcfg hpl hh hk
    have hi : i < c.sectorCount.toNat := by omega
    have hnext : (i + 1) % c.sectorCount.toNat < c.sectorCount.toNat := Nat.mod_lt _ (by omega)
    -- sector `i` is closed, and so is the sector after it
    obtain ⟨b1, e1, hrun1, hr1, hb1⟩ := run_isErased_closeSlot hc hcfg hpl hh hi
    have hb1' : b1 = false := Bool.eq_false_iff.2 fun h => hall i hi (hb1.1 h)
    obtain ⟨b2, e2, hrun2, hr2, hb2⟩ := run_isErased_closeSlot hc (by rw [hr1.1]; exact hcfg)
      (hr1.placed hpl) (hr1.hosts hh) hnext
    have hb2' : b2 = false := Bool.eq_false_iff.2 fun h => hall _ hnext (hb2.1 h)
    obtain ⟨addr', e', hrun, hr⟩ := ih (i + 1) _ (closed + 1) e2
      (by rw [hr2.1, hr1.1]; exact hcfg) (hr2.placed (hr1.placed hpl)) (hr2.hosts (hr1.hosts hh))
      (by omega)
    refine ⟨addr', e', ?_, hr1.trans (hr2.trans hr)⟩
    rw [run_scanRing_step hc hcfg hi, run_bind, hrun1]
    simp only [hb1', Bool.false_eq_true, if_false, run_bind, hrun2, hb2']
    rw [hrun, Nat.add_right_comm, Nat.add_assoc]

/-- The scan counts at most one closed sector for each sector it passes, and fewer when one of
them has an erased close slot: an open sector is passed over, and a closed one followed by an
open one stops the scan early. -/
theorem run_scanRing_count (hc : c.Usable) :
    ∀ (k i : Nat) (addr : Address) (closed : Nat) (e : Engine), e.store.config = c →
      c.Placed e.rig.chip → c.Hosts e.rig.chip img → c.sectorCount.toNat = i + k →
      ∃ j' addr' cl e',
        (scanRing c.sectorCount i addr closed).run.run e = (.ok (j', addr', cl), e') ∧
        e.Reads e' ∧ cl ≤ closed + k ∧
        ∀ j, i ≤ j → j < c.sectorCount.toNat →
          Sector.Blank (img j) c.eraseValue c.closeOffset c.entrySize.toNat → cl < closed + k := by
  intro k
  induction k with
  | zero =>
    intro i addr closed e _ _ _ hk
    refine ⟨i, addr, closed, e, run_scanRing_end _ (by omega) _ _ _, .refl e, by omega,
      fun j hij hj _ => absurd hj (by omega)⟩
  | succ k ih =>
    intro i addr closed e hcfg hpl hh hk
    have hi : i < c.sectorCount.toNat := by omega
    obtain ⟨b1, e1, hrun1, hr1, hb1⟩ := run_isErased_closeSlot hc hcfg hpl hh hi
    have hcfg1 : e1.store.config = c := by rw [hr1.1]; exact hcfg
    cases b1 with
    | true =>
      -- an open sector is passed over without being counted
      obtain ⟨j', addr', cl, e', hrun, hr, hle, -⟩ := ih (i + 1) _ closed e1 hcfg1 (hr1.placed hpl)
        (hr1.hosts hh) (by omega)
      refine ⟨j', addr', cl, e', ?_, hr1.trans hr, by omega, fun _ _ _ _ => by omega⟩
      rw [run_scanRing_step hc hcfg hi, run_bind, hrun1]
      exact hrun
    | false =>
      -- a closed sector is counted; an open sector after it stops the scan
      have hclosed : ¬Sector.Blank (img i) c.eraseValue c.closeOffset c.entrySize.toNat :=
        fun h => Bool.false_ne_true (hb1.2 h)
      have hnext : (i + 1) % c.sectorCount.toNat < c.sectorCount.toNat := Nat.mod_lt _ (by omega)
      have hlater : ∀ j, i ≤ j → Sector.Blank (img j) c.eraseValue c.closeOffset c.entrySize.toNat →
          i + 1 ≤ j := fun j hij hj => by
        rcases Nat.eq_or_lt_of_le hij with rfl | hlt
        · exact absurd hj hclosed
        · exact hlt
      obtain ⟨b2, e2, hrun2, hr2, -⟩ := run_isErased_closeSlot hc hcfg1 (hr1.placed hpl)
        (hr1.hosts hh) hnext
      cases b2 with
      | true =>
        refine ⟨i, Address.at ((i + 1) % c.sectorCount.toNat) c.closeOffset, closed + 1, e2, ?_,
          hr1.trans hr2, by omega,
          fun j hij hj hb => by have := hlater j hij hb; omega⟩
        rw [run_scanRing_step hc hcfg hi, run_bind, hrun1]
        simp only [Bool.false_eq_true, if_false, run_bind, hrun2, if_true]
        rfl
      | false =>
        obtain ⟨j', addr', cl, e', hrun, hr, hle, hlt⟩ := ih (i + 1) _ (closed + 1) e2
          (by rw [hr2.1]; exact hcfg1) (hr2.placed (hr1.placed hpl)) (hr2.hosts (hr1.hosts hh))
          (by omega)
        refine ⟨j', addr', cl, e', ?_, hr1.trans (hr2.trans hr), by omega,
          fun j hij hj hb => by have := hlt j (hlater j hij hb) hj hb; omega⟩
        rw [run_scanRing_step hc hcfg hi, run_bind, hrun1]
        simp only [Bool.false_eq_true, if_false, run_bind, hrun2]
        exact hrun

/-! ## Locating the active sector and mounting -/

/-- With every close slot written, locating the active sector fails: every sector is closed. -/
theorem run_locateActive_allClosed (hc : c.Usable) {e : Engine} (hcfg : e.store.config = c)
    (hpl : c.Placed e.rig.chip) (hh : c.Hosts e.rig.chip img)
    (hall : ∀ j < c.sectorCount.toNat,
      ¬Sector.Blank (img j) c.eraseValue c.closeOffset c.entrySize.toNat) :
    ∃ e', locateActive.run.run e =
      (.error (.store "mount" ByteArray.empty none "" (some (.kind .allClosed))), e') := by
  obtain ⟨addr', e', hscan, -⟩ :=
    run_scanRing_allClosed hc hall c.sectorCount.toNat 0 ⟨0⟩ 0 e hcfg hpl hh (by omega)
  refine ⟨e', ?_⟩
  unfold locateActive
  simp only [run_bind, run_store, hcfg]
  rw [hscan]
  simp only [Nat.zero_add, if_true]
  rfl

/-- With some close slot erased, locating the active sector fails only as the part does. -/
theorem locateActive_raises_of_open (hc : c.Usable) {e : Engine} (hcfg : e.store.config = c)
    (hpl : c.Placed e.rig.chip) (hh : c.Hosts e.rig.chip img) {j : Nat}
    (hj : j < c.sectorCount.toNat)
    (hopen : Sector.Blank (img j) c.eraseValue c.closeOffset c.entrySize.toNat) :
    ∀ f, (locateActive.run.run e).1 = .error f → f.kinds ⊆ FaultKind.device := by
  obtain ⟨j', addr', cl, e', hscan, -, -, hlt⟩ :=
    run_scanRing_count hc c.sectorCount.toNat 0 ⟨0⟩ 0 e hcfg hpl hh (by omega)
  have hcl : cl ≠ c.sectorCount.toNat := by
    have := hlt j (Nat.zero_le j) hj hopen
    omega
  intro f hf
  unfold locateActive at hf
  simp only [run_bind, run_store, hcfg] at hf
  rw [hscan] at hf
  simp only [hcl, if_false] at hf
  -- past the count, only the check of the last sector's top slot reads the part
  refine (?_ : RaisesOnly FaultKind.device _) e' f hf
  split
  · refine (isErased_raises _ _).bind fun b => ?_
    split <;> exact Raises.pure _
  · exact Raises.pure _

/-- With some close slot erased, starting up fails only because the part failed or the table is
corrupt. -/
theorem startup_raises_of_open (hc : c.Usable) {e : Engine} (hcfg : e.store.config = c)
    (hpl : c.Placed e.rig.chip) (hh : c.Hosts e.rig.chip img) {j : Nat}
    (hj : j < c.sectorCount.toNat)
    (hopen : Sector.Blank (img j) c.eraseValue c.closeOffset c.entrySize.toNat) :
    ∀ f, (startup.run.run e).1 = .error f → f.kinds ⊆ FaultKind.table := by
  intro f hf
  rcases hloc : locateActive.run.run e with ⟨r, e1⟩
  cases r with
  | ok addr => exact startup_raises_of_located hloc f hf
  | error g =>
    have hrun : startup.run.run e = (.error g, e1) := by
      unfold startup
      exact run_bind_error hloc
    rw [hrun] at hf
    cases hf
    exact List.Subset.trans (locateActive_raises_of_open hc hcfg hpl hh hj hopen f (by rw [hloc]))
      FaultKind.device_subset_table

/-- Past the configuration check, mounting answers what starting up answers. -/
theorem mount_result {e : Engine} (hvalid : e.store.config.validate = .ok ()) :
    (mount.run.run e).1 =
      (startup.run.run { e with store := { e.store with mounted := false } }).1 := by
  have hobs : ∀ act : StoreM Unit, ((observed "mount" act).run.run e).1 = (act.run.run e).1 :=
    fun act => by
      rcases hrun : act.run.run e with ⟨r, e'⟩
      obtain ⟨e'', hrun', -⟩ := run_observed "mount" hrun
      rw [hrun']
  unfold mount
  rw [hobs]
  simp only [run_bind, run_store, hvalid, setMounted, run_modifyStore]
  rcases hst : startup.run.run { e with store := { e.store with mounted := false } } with ⟨r, e1⟩
  cases r with
  | ok u =>
    rw [run_tryCatch_ok hst]
    rfl
  | error g =>
    rw [run_tryCatch_error hst]
    rfl

/-- A region whose every sector is closed cannot be mounted, and it is the only kind of region
that fails so: mounting fails as *all sectors closed* exactly when no close slot of the region
reads as erased. -/
theorem mount_allClosed_iff (hv : c.validate = .ok ()) {e : Engine} (hcfg : e.store.config = c)
    (hpl : c.Placed e.rig.chip) :
    (∃ f, (mount.run.run e).1 = .error f ∧ f.is .allClosed) ↔
      ∀ j < c.sectorCount.toNat,
        ¬Sector.Blank (c.sectorOn e.rig.chip j) c.eraseValue c.closeOffset c.entrySize.toNat := by
  have hc := Config.usable_of_validate hv
  have hvalid : e.store.config.validate = .ok () := by rw [hcfg]; exact hv
  -- the part hosts its own bytes, also once the store is marked unmounted
  have hself : c.Hosts e.rig.chip (c.sectorOn e.rig.chip) := fun _ _ _ _ => rfl
  constructor
  · rintro ⟨f, hf, hk⟩ j hj hopen
    rw [mount_result hvalid] at hf
    -- with a close slot erased, startup fails only as the part does or for a corrupt table
    have hsub := startup_raises_of_open
      (e := { e with store := { e.store with mounted := false } }) hc hcfg hpl hself hj hopen f hf
    have hmem : FaultKind.allClosed ∈ f.kinds := by simpa [Fault.is] using hk
    exact absurd (hsub hmem) (by decide)
  · intro hall
    obtain ⟨e', hloc⟩ := run_locateActive_allClosed
      (e := { e with store := { e.store with mounted := false } }) hc hcfg hpl hself hall
    refine ⟨.store "mount" ByteArray.empty none "" (some (.kind .allClosed)), ?_,
      by simp [Fault.is, Fault.kinds]⟩
    rw [mount_result hvalid]
    unfold startup
    rw [run_bind_error hloc]

/-- A region of two sectors programmed to zeros throughout, close slots included, cannot be
mounted: every sector reads as closed. -/
theorem mount_allClosed_zeroed :
    Config.validate ⟨0, 120, 2, 1, 0xFF⟩ = .ok () ∧
      ∃ f, (mount.run.run ⟨Store.create ⟨0, 120, 2, 1, 0xFF⟩ .silent "default",
        { chip := { geometry := ⟨240, 120, 1, 0xFF⟩, cells := ⟨Array.replicate 240 0⟩,
                    wear := #[0, 0] } }⟩).1 = .error f ∧ f.is .allClosed := by
  have hpl : Config.Placed ⟨0, 120, 2, 1, 0xFF⟩
      { geometry := ⟨240, 120, 1, 0xFF⟩, cells := ⟨Array.replicate 240 0⟩, wear := #[0, 0] } :=
    { erased := rfl, size := Array.size_replicate, region := by decide,
      write_block := .inl (by decide), erase_block := .inr ⟨by decide, by decide⟩,
      ready := ⟨rfl, by decide⟩ }
  have hzero : Config.Hosts ⟨0, 120, 2, 1, 0xFF⟩
      { geometry := ⟨240, 120, 1, 0xFF⟩, cells := ⟨Array.replicate 240 0⟩, wear := #[0, 0] }
      fun _ _ => 0 :=
    Config.hosts_replicate rfl (by decide)
  refine ⟨rfl, (mount_allClosed_iff rfl rfl hpl).2 fun j hj hblank => ?_⟩
  -- the first byte of each close slot is zero, not the erase value
  have hfirst : (0xFF : UInt8) = 0 := (hblank 0 (by decide)).symm.trans (hzero j hj _ (by decide))
  exact absurd hfirst (by decide)

end StoreM

end NorStore
