import NorStore.Proofs.Frame

/-!
# Wear levelling

The part counts the erases of each of its erase blocks. On a part whose erase blocks are the
sectors of the region, only a collection erases during writes, and only the sector after the new
active one, when it is not blank already; that sector is the oldest of a full ring, and blank
while the ring fills. So the sectors are erased in ring order, one lap after the other, and the
counts of the sectors never differ by more than one.

* Every step of the store but an erase keeps the counts and the geometry of the part
  (`StoreM.KeepsWear`): programming, reading, logging and metering, and so closing a sector,
  appending a record and the copying loop of a collection.
* A collection of a full ring counts one erase of the collected sector, and of a ring that is not
  full none (`StoreM.collect_wear`).
* `Ring.Worn` says where a ring is in its laps: while it fills, its active sector is the next one
  after its closed sectors and every count is equal; once full, the sectors up to the blank one
  after the active sector have one erase more than the others. A rotation keeps it
  (`Ring.Worn.rotate`), and it bounds the spread of the counts by one (`Ring.Worn.balanced`).
* Two rings held by one engine have the same active sector and as many closed sectors
  (`Ring.Stored.shape`), so what a write leaves can be followed on any ring the part holds.

`Session.Steady.wear_balanced` is the statement for every session of writes, deletions, reads
and remounts of a store started on an erased part with level counts. `clear` and `format` are not
among its steps: they erase every sector that is not blank and restart the ring at sector 0,
which moves the laps off their order.
-/

namespace NorStore

/-! ## Steps that do not erase -/

namespace Flash.Chip

/-- `c'` has the erase counts and the geometry of `c`. -/
def SameWear (c c' : Chip) : Prop :=
  c'.wear = c.wear ∧ c'.geometry = c.geometry

theorem SameWear.refl (c : Chip) : SameWear c c := ⟨rfl, rfl⟩

theorem SameWear.trans {c c' c'' : Chip} (h : SameWear c c') (h' : SameWear c' c'') :
    SameWear c c'' :=
  ⟨h'.1.trans h.1, h'.2.trans h.2⟩

/-- Programming never counts an erase: every path ends with the part as it was, or with new cells,
budget, counts of writes and power. -/
theorem write_sameWear (start : Nat) (data : ByteArray) : Keeps SameWear (write start data) := by
  intro c
  -- the guards in the order `write` checks them; each refusal leaves the part as it was
  by_cases hp : c.powerLost = true
  · simp only [write, run_bind, run_monadGet, hp, if_true, fail, run_throw]
    exact ⟨rfl, rfl⟩
  by_cases hw : c.isProtected = true
  · simp only [write, run_bind, run_monadGet, hp, hw, Bool.false_eq_true, if_true, if_false, fail,
      run_throw]
    exact ⟨rfl, rfl⟩
  cases hchk : c.geometry.check start data.size c.geometry.writeBlock with
  | error f =>
    simp only [write, run_bind, run_monadGet, hp, hw, Bool.false_eq_true, if_false, fail, checked,
      hchk, run_throw]
    exact ⟨rfl, rfl⟩
  | ok u =>
    simp only [write, run_bind, run_monadGet, hp, hw, Bool.false_eq_true, if_false, fail, checked,
      hchk, run_pure]
    repeat' split
    all_goals exact ⟨rfl, rfl⟩

theorem setProtection_sameWear (on : Bool) : Keeps SameWear (setProtection on) := by
  intro c
  unfold setProtection
  simp only [run_bind, run_monadGet, fail]
  split <;> exact ⟨rfl, rfl⟩

end Flash.Chip

/-- `e'` has the erase counts and the geometry of the part of `e`. -/
def Engine.SameWear (e e' : Engine) : Prop :=
  Flash.Chip.SameWear e.rig.chip e'.rig.chip

theorem Engine.SameWear.refl (e : Engine) : e.SameWear e := Flash.Chip.SameWear.refl _

theorem Engine.SameWear.trans {e e' e'' : Engine} (h : e.SameWear e') (h' : e'.SameWear e'') :
    e.SameWear e'' :=
  Flash.Chip.SameWear.trans h h'

/-- A part that changed only in its count of reads has its counts of erases. -/
theorem Engine.SameWear.of_chip {e e' : Engine}
    (h : e'.rig.chip = { e.rig.chip with reads := e'.rig.chip.reads }) : e.SameWear e' := by
  unfold Engine.SameWear Flash.Chip.SameWear
  rw [h]
  exact ⟨rfl, rfl⟩

theorem Engine.Reads.sameWear {e e' : Engine} (h : e.Reads e') : e.SameWear e' :=
  Engine.SameWear.of_chip h.2

namespace StoreM

/-- The action keeps the erase counts and the geometry of the part, whatever it answers. -/
abbrev KeepsWear (act : StoreM α) : Prop := Keeps Engine.SameWear act

variable {α β : Type}

theorem KeepsWear.pure (v : α) : KeepsWear (pure v) := Keeps.pure Engine.SameWear.refl v

theorem KeepsWear.throw (f : Fault) : KeepsWear (throw f : StoreM α) :=
  Keeps.throw Engine.SameWear.refl f

theorem KeepsWear.bind {x : StoreM α} {f : α → StoreM β} (hx : KeepsWear x)
    (hf : ∀ a, KeepsWear (f a)) : KeepsWear (x >>= f) :=
  Keeps.bind (r := Engine.SameWear) (fun _ _ _ => Engine.SameWear.trans) hx hf

theorem KeepsWear.tryCatch {x : StoreM α} {h : Fault → StoreM α} (hx : KeepsWear x)
    (hh : ∀ f, KeepsWear (h f)) : KeepsWear (tryCatch x h) :=
  Keeps.tryCatch (r := Engine.SameWear) (fun _ _ _ => Engine.SameWear.trans) hx hh

theorem OnlyReads.keepsWear {act : StoreM α} (h : OnlyReads act) : KeepsWear act :=
  fun e => (h e).sameWear

theorem modifyStore_keepsWear (f : Store → Store) : KeepsWear (modifyStore f) :=
  fun _ => ⟨rfl, rfl⟩

theorem logAt_keepsWear (l : Log.Level) (msg : String) (fs : List Log.Field) :
    KeepsWear (logAt l msg fs) :=
  fun _ => ⟨rfl, rfl⟩

theorem meter_keepsWear (f : Metrics.Registry → String → Metrics.Registry) :
    KeepsWear (meter f) :=
  fun _ => ⟨rfl, rfl⟩

theorem onChip_keepsWear {act : Flash.ChipM α} (h : Keeps Flash.Chip.SameWear act) :
    KeepsWear (onChip act) := by
  intro e
  rw [run_onChip]
  exact h e.rig.chip

theorem unprotected_sameWear {act : Flash.ChipM Unit} (h : Keeps Flash.Chip.SameWear act) :
    Keeps Flash.Chip.SameWear (unprotected act) := by
  have ht : ∀ c c' c'' : Flash.Chip, Flash.Chip.SameWear c c' → Flash.Chip.SameWear c' c'' →
      Flash.Chip.SameWear c c'' := fun _ _ _ => Flash.Chip.SameWear.trans
  unfold unprotected
  refine Keeps.bind ht (Flash.Chip.setProtection_sameWear false) fun _ => ?_
  refine Keeps.bind ht (Keeps.tryCatch ht h fun f => ?_) fun _ =>
    Flash.Chip.setProtection_sameWear true
  exact Keeps.bind ht (Keeps.tryCatch ht (Flash.Chip.setProtection_sameWear true)
    fun _ => Keeps.pure Flash.Chip.SameWear.refl _) fun _ => Keeps.throw Flash.Chip.SameWear.refl f

theorem program_keepsWear (a : Address) (p : ByteArray) : KeepsWear (program a p) := by
  unfold program
  split
  · exact KeepsWear.pure _
  refine store_onlyReads.keepsWear.bind fun s => ?_
  refine KeepsWear.tryCatch (onChip_keepsWear (unprotected_sameWear ?_)) fun f =>
    (logAt_keepsWear _ _ _).bind fun _ => KeepsWear.throw _
  have ht : ∀ c c' c'' : Flash.Chip, Flash.Chip.SameWear c c' → Flash.Chip.SameWear c' c'' →
      Flash.Chip.SameWear c c'' := fun _ _ _ => Flash.Chip.SameWear.trans
  -- the whole write blocks, then the rest padded to a block, each only when there is one
  have hrest : ∀ (b : Prop) [Decidable b] (start : Nat) (data : ByteArray),
      Keeps Flash.Chip.SameWear (if b then Flash.Chip.write start data else pure ()) := by
    intro b _ start data
    split
    · exact Flash.Chip.write_sameWear _ _
    · exact Keeps.pure Flash.Chip.SameWear.refl _
  dsimp only
  split
  · exact Keeps.bind ht (Flash.Chip.write_sameWear _ _) fun _ => hrest _ _ _
  · exact hrest _ _ _

theorem writeData_keepsWear (p : ByteArray) : KeepsWear (writeData p) := by
  unfold writeData
  exact store_onlyReads.keepsWear.bind fun _ =>
    (modifyStore_keepsWear _).bind fun _ => program_keepsWear _ _

theorem writeEntry_keepsWear (en : Entry) : KeepsWear (writeEntry en) := by
  unfold writeEntry
  exact store_onlyReads.keepsWear.bind fun _ =>
    (modifyStore_keepsWear _).bind fun _ => program_keepsWear _ _

theorem copyData_go_keepsWear :
    ∀ (fuel : Nat) (a : Address) (left : UInt32), KeepsWear (copyData.go fuel a left) := by
  intro fuel
  induction fuel with
  | zero => intro a left; exact KeepsWear.pure _
  | succ fuel ih =>
    intro a left
    unfold copyData.go
    split
    · exact KeepsWear.pure _
    · exact (read_onlyReads _ _).keepsWear.bind fun _ =>
        (writeData_keepsWear _).bind fun _ => ih _ _

theorem findNewest_go_onlyReads (k : Vector UInt8 24) :
    ∀ (fuel : Nat) (w : Walker), OnlyReads (findNewest.go k fuel w) := by
  intro fuel
  induction fuel with
  | zero => intro w; exact OnlyReads.pure _
  | succ fuel ih =>
    intro w
    unfold findNewest.go
    refine (Walker.next_onlyReads w).bind fun p => ?_
    obtain ⟨slot, here, w'⟩ := p
    dsimp only
    -- wherever the walk does not stop at an entry of `k`, it asks whether it is over
    have hon : OnlyReads (do
        if ← w'.done then return none
        findNewest.go k fuel w') :=
      (Walker.done_onlyReads w').bind fun back => by
        split
        · exact OnlyReads.pure _
        · exact ih _
    split
    · split
      · exact OnlyReads.pure _
      · exact hon
    · exact hon

theorem relocate_keepsWear (here : Address) (slot : Slot) : KeepsWear (relocate here slot) := by
  unfold relocate
  split
  · split
    · exact KeepsWear.pure _
    · refine (OnlyReads.bind store_onlyReads fun s => findNewest_go_onlyReads _ _ _).keepsWear.bind
        fun found => ?_
      split
      · split
        · exact KeepsWear.pure _
        · exact store_onlyReads.keepsWear.bind fun _ =>
            (copyData_go_keepsWear _ _ _).bind fun _ =>
              (writeEntry_keepsWear _).bind fun _ => KeepsWear.pure _
      · exact KeepsWear.pure _
  · exact KeepsWear.pure _

theorem collect_go_keepsWear (stop : Address) :
    ∀ (fuel : Nat) (here : Address) (n : Nat), KeepsWear (collect.go stop fuel here n) := by
  intro fuel
  induction fuel with
  | zero => intro here n; exact KeepsWear.pure _
  | succ fuel ih =>
    intro here n
    unfold collect.go
    refine (stepBack_onlyReads here).keepsWear.bind fun p => ?_
    obtain ⟨slot, next⟩ := p
    refine (relocate_keepsWear here slot).bind fun b => ?_
    dsimp only
    split
    · exact KeepsWear.pure _
    · exact ih _ _

theorem closeSector_keepsWear : KeepsWear closeSector := by
  unfold closeSector
  refine store_onlyReads.keepsWear.bind fun _ => (modifyStore_keepsWear _).bind fun _ => ?_
  refine (KeepsWear.tryCatch ((writeEntry_keepsWear _).bind fun _ => KeepsWear.pure _)
    fun _ => KeepsWear.pure _).bind fun r => ?_
  refine (modifyStore_keepsWear _).bind fun _ => store_onlyReads.keepsWear.bind fun _ =>
    (logAt_keepsWear _ _ _).bind fun _ => (meter_keepsWear _).bind fun _ => ?_
  split
  · exact KeepsWear.throw _
  · exact KeepsWear.pure _

theorem append_keepsWear (k : Vector UInt8 24) (data : ByteArray) :
    KeepsWear (append k data) := by
  unfold append
  exact store_onlyReads.keepsWear.bind fun _ =>
    (writeData_keepsWear _).bind fun _ => writeEntry_keepsWear _

end StoreM

/-! ## The erase counts of the sectors -/

/-- The erase count of the block of sector `j`, on a part whose erase blocks are the sectors. -/
def Engine.wearAt (c : Config) (e : Engine) (j : Nat) : Nat :=
  e.rig.chip.wear[c.offset.toNat / c.sectorSize.toNat + j]!

/-- Erasing one erase block from its start counts one erase of that block. -/
theorem Flash.Chip.erasedWear_block (w : Array Nat) {eb start : Nat} (h0 : 0 < eb) :
    Flash.Chip.erasedWear w eb start eb = w.modify (start / eb) (· + 1) := by
  simp [Flash.Chip.erasedWear, Nat.div_self h0]

theorem getElem!_modify_succ {w : Array Nat} {i j : Nat} (hj : j < w.size) :
    (w.modify i (· + 1))[j]! = w[j]! + if i = j then 1 else 0 := by
  simp only [Array.getElem!_eq_getD, Array.getD_eq_getD_getElem?, Array.getElem?_modify]
  split <;> simp_all

namespace Ring

variable {c : Config} {R : Ring} {w : Nat → Nat}

/-- Where the erase counts `w` of the sectors stand on a ring. While the ring fills, its active
sector follows its closed ones and the counts are level. Once it is full, every sector before
`(active + 2) % N`, the one the next rotation collects, has one erase more than the others. -/
structure Worn (c : Config) (R : Ring) (w : Nat → Nat) : Prop where
  filling : R.closed.length + 2 < c.sectorCount.toNat → R.active = R.closed.length
  level : ∃ t, ∀ j < c.sectorCount.toNat, w j = t +
    if R.closed.length + 2 = c.sectorCount.toNat ∧ j < (R.active + 2) % c.sectorCount.toNat
    then 1 else 0

/-- The erase counts of a ring's sectors differ by at most one. -/
theorem Worn.balanced (h : R.Worn c w) {i j : Nat} (hi : i < c.sectorCount.toNat)
    (hj : j < c.sectorCount.toNat) : w i ≤ w j + 1 := by
  obtain ⟨t, ht⟩ := h.level
  rw [ht i hi, ht j hj]
  split_ifs <;> omega

/-- A ring with nothing in it starts its laps on level counts. -/
theorem Worn.empty (hlevel : ∀ j < c.sectorCount.toNat, w j = w 0) : Ring.empty.Worn c w where
  filling _ := rfl
  level := ⟨w 0, fun j hj => by
    rw [hlevel j hj]
    simp only [Ring.empty, List.length_nil, Nat.zero_add]
    -- a ring of two sectors is full from the start, with its next sector at sector 0
    split_ifs with hfull
    · obtain ⟨h2, hj2⟩ := hfull
      rw [← h2, Nat.mod_self] at hj2
      exact absurd hj2 (Nat.not_lt_zero j)
    · rfl⟩

/-- Where a ring is in its laps depends only on its active sector and how many are closed. -/
theorem Worn.congr {R' : Ring} (h : R.Worn c w) (ha : R'.active = R.active)
    (hl : R'.closed.length = R.closed.length) : R'.Worn c w where
  filling hlt := by rw [ha, hl]; exact h.filling (hl ▸ hlt)
  level := by rw [ha, hl]; exact h.level

/-- Only the counts of the ring's sectors matter. -/
theorem Worn.of_eq {w' : Nat → Nat} (h : R.Worn c w) (hw : ∀ j < c.sectorCount.toNat, w' j = w j) :
    R.Worn c w' where
  filling := h.filling
  level := by
    obtain ⟨t, ht⟩ := h.level
    exact ⟨t, fun j hj => (hw j hj).trans (ht j hj)⟩

theorem succ_mod_of_lt {a n : Nat} (ha : a < n) : (a + 1) % n = if a + 1 = n then 0 else a + 1 := by
  split
  · rename_i h
    rw [h, Nat.mod_self]
  · exact Nat.mod_eq_of_lt (by omega)

/-- A rotation moves a ring on one sector, and on a full ring counts one erase of the collected
sector: the laps go on in ring order. -/
theorem Worn.rotate (hc : c.Usable) (hR : R.Fit c) (hset : R.closed.length + 2 ≤ c.sectorCount.toNat)
    (h : R.Worn c w) :
    (R.rotate c).Worn c
      (fun j => w j + if R.closed.length + 2 = c.sectorCount.toNat ∧ j = R.collected c then 1 else 0) := by
  have hn := hc.count_ge
  have ha := hR.active_lt
  obtain ⟨t, ht⟩ := h.level
  by_cases hfull : R.closed.length + 2 = c.sectorCount.toNat
  · -- the collected sector `C` gets its erase of this lap; the next one is `C + 1`, or the
    -- lap is over when `C` is the last sector
    rw [rotate_of_full hfull]
    have hlen : (R.copying c R.oldest).closed.dropLast.length = R.closed.length := by
      simp [copying, close]
    have hact : (R.copying c R.oldest).active = (R.active + 1) % c.sectorCount.toNat := rfl
    set C := R.collected c with hC
    have hCeq : C = (R.active + 2) % c.sectorCount.toNat := by
      rw [hC, collected, show (R.close c).active = (R.active + 1) % c.sectorCount.toNat from rfl,
        Nat.mod_add_mod, Nat.add_assoc]
    have hnext : ((R.active + 1) % c.sectorCount.toNat + 2) % c.sectorCount.toNat =
        (C + 1) % c.sectorCount.toNat := by
      rw [hCeq, Nat.mod_add_mod, Nat.mod_add_mod, Nat.add_assoc]
    have hCN : C < c.sectorCount.toNat := collected_lt hc
    refine ⟨fun hlt => by rw [hlen] at hlt; omega, ?_⟩
    simp only [hlen, hact, hnext, hfull, true_and]
    rw [succ_mod_of_lt hCN]
    by_cases hlast : C + 1 = c.sectorCount.toNat
    · refine ⟨t + 1, fun j hj => ?_⟩
      rw [ht j hj, ← hCeq, if_pos hlast]
      simp only [hfull, true_and, Nat.not_lt_zero, if_false]
      split_ifs <;> omega
    · refine ⟨t, fun j hj => ?_⟩
      rw [ht j hj, ← hCeq, if_neg hlast]
      simp only [hfull, true_and]
      split_ifs <;> omega
  · -- the next sector is blank: the active one is closed and nothing is erased
    rw [rotate_of_not_full hfull]
    have hlt : R.closed.length + 2 < c.sectorCount.toNat := by omega
    have hfill := h.filling hlt
    have hact : (R.close c).active = R.active + 1 := by
      show (R.active + 1) % c.sectorCount.toNat = _
      exact Nat.mod_eq_of_lt (by omega)
    have hlen : (R.close c).closed.length = R.closed.length + 1 := by simp [close]
    refine ⟨fun _ => by rw [hact, hlen, hfill], t, fun j hj => ?_⟩
    rw [ht j hj, hact, hlen]
    simp only [hfull, false_and, if_false, Nat.add_zero]
    -- a ring that fills up with this rotation has its next sector at sector 0
    by_cases hnow : R.closed.length + 1 + 2 = c.sectorCount.toNat
    · rw [hfill, show R.closed.length + 1 + 2 = c.sectorCount.toNat from hnow, Nat.mod_self]
      simp
    · simp [hnow]

/-- Two rings held by one engine have the same active sector and as many closed sectors: where
the entry cursor is names the one, and which close slots read as erased the other. -/
theorem Stored.shape (hc : c.Usable) (hpol : Flash.Polar c.eraseValue) {e : Engine} {R' : Ring}
    (h : R.Stored c e) (h' : R'.Stored c e) :
    R'.active = R.active ∧ R'.closed.length = R.closed.length := by
  have hS := hc.sector_le
  have hn := hc.count_le
  have h4 := hc.four_entries
  have ha := h.active_lt
  have ha' := h'.active_lt
  have hate : Address.at R'.active (c.slot R'.current.length) =
      Address.at R.active (c.slot R.current.length) := h'.ate.symm.trans h.ate
  rw [Address.at_inj (by omega) (by simp only [Config.slot]; omega) (by omega)
    (by simp only [Config.slot]; omega)] at hate
  refine ⟨hate.1, ?_⟩
  -- both rings read the close slots of the part alike
  have hclosed : ∀ j < c.sectorCount.toNat, R'.IsClosed c j ↔ R.IsClosed c j := by
    intro j hj
    have hslice : Sector.slice (R'.image c j) c.closeOffset c.entrySize.toNat =
        Sector.slice (R.image c j) c.closeOffset c.entrySize.toNat :=
      Sector.slice_congr fun i hi =>
        (h'.hosts j hj _ (by simp only [Config.closeOffset]; omega)).symm.trans
          (h.hosts j hj _ (by simp only [Config.closeOffset]; omega))
    have himg : c.slotIn (R'.image c j) c.closeOffset = c.slotIn (R.image c j) c.closeOffset := by
      unfold Config.slotIn
      rw [hslice]
    rw [← not_iff_not, ← slotIn_closeOffset hc hpol h'.toFit, ← slotIn_closeOffset hc hpol h.toFit,
      himg]
  -- the sector as far back as the closed sectors of one ring is closed in the other
  have hle : ∀ {R1 R2 : Ring}, R1.active = R2.active → R1.active < c.sectorCount.toNat →
      R1.closed.length < c.sectorCount.toNat →
      (∀ j < c.sectorCount.toNat, R1.IsClosed c j → R2.IsClosed c j) →
      R1.closed.length ≤ R2.closed.length := by
    intro R1 R2 hact ha1 hspan himp
    rcases Nat.eq_zero_or_pos R1.closed.length with h0 | hpos
    · omega
    have hb := himp (c.behind R1.active R1.closed.length) (Config.behind_lt ha1)
      ⟨by rw [Config.distance_behind ha1 hspan]; exact hpos,
        by rw [Config.distance_behind ha1 hspan]⟩
    rw [IsClosed, ← hact, Config.distance_behind ha1 hspan] at hb
    exact hb.2
  exact Nat.le_antisymm (hle hate.1 ha' h'.span fun j hj => (hclosed j hj).1)
    (hle hate.1.symm ha h.span fun j hj => (hclosed j hj).2)

end Ring

/-! ## What a collection erases -/

namespace StoreM

variable {c : Config} {R : Ring} {e : Engine}

/-- The erase block of sector `j` of the region, when the part's erase blocks are its sectors. -/
theorem block_of_sector (hpl : c.Placed e.rig.chip) (hS : 1 < c.sectorSize.toNat)
    (hblock : e.rig.chip.geometry.eraseBlock = c.sectorSize.toNat) (j : Nat) :
    (c.offset.toNat + j * c.sectorSize.toNat + 0) / c.sectorSize.toNat =
      c.offset.toNat / c.sectorSize.toNat + j := by
  have hdvd : c.sectorSize.toNat ∣ c.offset.toNat := by
    rcases hpl.erase_block with h | ⟨h, -⟩
    · omega
    · rwa [hblock] at h
  obtain ⟨k, hk⟩ := hdvd
  rw [Nat.add_zero, hk, Nat.add_mul_div_right _ _ (by omega)]

/-- A collection counts one erase of the collected sector when the ring is full, where that
sector holds the oldest records, and none when it is not, where that sector is blank. -/
theorem collect_wear (hc : c.Usable) (hpol : Flash.Polar c.eraseValue) (hR : R.Fit c)
    (hne : R.current ≠ []) (hset : R.closed.length + 2 ≤ c.sectorCount.toNat)
    (hst : (R.close c).Stored c e)
    (hblock : e.rig.chip.geometry.eraseBlock = c.sectorSize.toNat) :
    ∃ e', collect.run.run e = (.ok (), e') ∧ e'.rig.chip.geometry = e.rig.chip.geometry ∧
      e'.rig.chip.wear = if R.closed.length + 2 = c.sectorCount.toNat then
        e.rig.chip.wear.modify (c.offset.toNat / c.sectorSize.toNat + R.collected c) (· + 1)
      else e.rig.chip.wear := by
  have hS := hc.sector_le
  have h4 := hc.four_entries
  have hE : 30 ≤ c.entrySize.toNat := hc.entry_ge
  have hn := hc.count_le
  have hcol := Ring.collected_lt hc (R := R)
  by_cases hfull : R.closed.length + 2 = c.sectorCount.toNat
  · -- the copying loop, a log and a meter keep the counts; the erase finds the oldest records
    obtain ⟨e1, g, post, hr1, hG, hfuel, hrun⟩ := collect_of_full hc hpol hR hne hfull hst
    obtain ⟨n', e2, hgo, hst2, -⟩ := run_collect_go hc hpol hR hne hfull post [] g hG
      (c.sectorSize.toNat / c.entrySize.toNat + 2) 0 e1 hfuel
      (by rw [Ring.copying_nil]; exact hst.reads hr1)
    have hw2 : e1.SameWear e2 := by
      have := collect_go_keepsWear (Address.at (R.collected c) (c.slot 0))
        (c.sectorSize.toNat / c.entrySize.toNat + 2) (Address.at (R.collected c) (c.slot post.length))
        0 e1
      rwa [hgo] at this
    obtain ⟨e3, hlog, hq3⟩ := run_logAt .debug "garbage collected sector"
      [("sector", .int (Address.at (R.collected c) 0).sector.toNat), ("count", .int n')] e2
    obtain ⟨e4, hmeter, hq4⟩ := run_meter (fun r p => r.recordCollection p n') e3
    have hst4 := hst2.reads (hq3.trans hq4).reads
    have hw4 : e.SameWear e4 := hr1.sameWear.trans (hw2.trans (hq3.trans hq4).reads.sameWear)
    obtain ⟨e5, herase, -, -, -, hgeo, -, hworn, -⟩ := run_eraseSector hc e4 hst4.config hst4.placed
      hst4.hosts hcol (o := 0) (by omega)
    have hnb : ¬ Sector.Blank ((R.copying c R.oldest).image c (R.collected c)) c.eraseValue 0
        c.sectorSize.toNat := by
      intro hb
      have hfit := (hR.sectors hne _ (Ring.oldest_mem R)).1
      have hclose : Sector.Blank ((R.copying c R.oldest).image c (R.collected c)) c.eraseValue
          c.closeOffset c.entrySize.toNat :=
        hb.mono (Nat.zero_le _) (by simp only [Config.closeOffset]; omega)
      have herased := Config.slotIn_blank hclose
      rw [Ring.image_copying_collected hc hfull, Config.slotIn_close hc hpol hfit] at herased
      cases herased
    refine ⟨e5, ?_, by rw [hgeo, hw4.2], ?_⟩
    · rw [hrun]
      simp only [run_bind, hgo, hlog, hmeter, herase]
    · rw [if_pos hfull, hworn hnb, hw4.1, hw4.2, hblock, Flash.Chip.erasedWear_block _ (by omega),
        block_of_sector hst.placed (by omega) hblock]
  · -- the erase finds the sector blank and counts nothing
    obtain ⟨e1, hr1, hrun⟩ := collect_of_not_full hc hR hne hset hfull hst
    have hst1 := hst.reads hr1
    obtain ⟨e2, herase, -, -, -, hgeo, hsame, -⟩ := run_eraseSector hc e1 hst1.config hst1.placed
      hst1.hosts hcol (o := 0) (by omega)
    have hblank : Sector.Blank ((R.close c).image c (R.collected c)) c.eraseValue 0
        c.sectorSize.toNat := by
      rw [image_collected_of_not_full hc hR hne hset hfull]
      exact fun _ _ => rfl
    refine ⟨e2, by rw [hrun, herase], by rw [hgeo, hr1.sameWear.2], ?_⟩
    rw [if_neg hfull, hsame hblank, hr1.sameWear.1]

end StoreM

/-! ## Writes keep the laps -/

namespace Ring

variable {c : Config} {R : Ring} {e e' : Engine}

/-- The part of `e` has the sectors of the region for erase blocks, counts the erases of each,
and its counts stand where ring `R` says. -/
structure WornOn (c : Config) (R : Ring) (e : Engine) : Prop where
  block : e.rig.chip.geometry.eraseBlock = c.sectorSize.toNat
  counted : c.offset.toNat / c.sectorSize.toNat + c.sectorCount.toNat ≤ e.rig.chip.wear.size
  worn : R.Worn c (e.wearAt c)

theorem WornOn.sameWear (h : R.WornOn c e) (hw : e.SameWear e') : R.WornOn c e' where
  block := by rw [hw.2]; exact h.block
  counted := by rw [hw.1]; exact h.counted
  worn := by
    have : e'.wearAt c = e.wearAt c := by
      funext j
      simp only [Engine.wearAt, hw.1]
    rw [this]
    exact h.worn

theorem WornOn.congr {R' : Ring} (h : R.WornOn c e) (ha : R'.active = R.active)
    (hl : R'.closed.length = R.closed.length) : R'.WornOn c e :=
  ⟨h.block, h.counted, h.worn.congr ha hl⟩

/-- One rotation of a write: the active sector is closed and the next one collected, and the
counts keep up with the ring. -/
theorem WornOn.rotate (hc : c.Usable) (hpol : Flash.Polar c.eraseValue) (hst : R.Stored c e)
    (hset : R.closed.length + 2 ≤ c.sectorCount.toNat) (hne : R.current ≠ []) (hw : R.WornOn c e) :
    ∃ e1 e2, StoreM.closeSector.run.run e = (.ok (), e1) ∧ StoreM.collect.run.run e1 = (.ok (), e2) ∧
      (R.rotate c).Stored c e2 ∧ (R.rotate c).WornOn c e2 ∧ e2.store.mounted = e.store.mounted := by
  obtain ⟨e1, hclose, hst1, hm1, -⟩ := StoreM.run_closeSector hc hpol hst hset hne
  have hw1 : e.SameWear e1 := by
    have := StoreM.closeSector_keepsWear e
    rwa [hclose] at this
  obtain ⟨e2, hcoll, hst2, hm2, -⟩ := StoreM.run_collect hc hpol hst.toFit hne hset hst1
  obtain ⟨e2', hcoll', hgeo, hwear⟩ := StoreM.collect_wear hc hpol hst.toFit hne hset hst1
    (by rw [hw1.2]; exact hw.block)
  rw [hcoll] at hcoll'
  obtain rfl : e2 = e2' := (Prod.mk.inj hcoll').2
  have hcounted : c.offset.toNat / c.sectorSize.toNat + c.sectorCount.toNat ≤ e2.rig.chip.wear.size := by
    rw [hwear, hw1.1]
    split
    · rw [Array.size_modify]; exact hw.counted
    · exact hw.counted
  refine ⟨e1, e2, hclose, hcoll, hst2, ⟨by rw [hgeo, hw1.2]; exact hw.block, hcounted, ?_⟩,
    by rw [hm2, hm1]⟩
  -- the count of each sector is one more exactly for the sector a full ring collects
  refine (hw.worn.rotate hc hst.toFit hset).of_eq fun j hj => ?_
  have hlt : c.offset.toNat / c.sectorSize.toNat + j < e1.rig.chip.wear.size := by
    have := hw.counted
    rw [hw1.1]
    omega
  simp only [Engine.wearAt, hwear]
  split
  · rename_i hfull
    rw [getElem!_modify_succ hlt, hw1.1]
    simp only [hfull, true_and, Nat.add_left_cancel_iff]
    exact if_congr eq_comm rfl rfl
  · rename_i hfull
    simp only [hw1.1, hfull, false_and, if_false, Nat.add_zero]

end Ring

namespace StoreM

variable {c : Config} {R : Ring} {e : Engine}

/-- The rotation loop of a write, from a ring it keeps after `r` rotations, leaves a ring whose
laps the counts of the part follow. -/
theorem rotate_wornOn (hc : c.Usable) (hpol : Flash.Polar c.eraseValue) (op : String)
    (key : ByteArray) {k : Vector UInt8 24} {data : ByteArray} {need : UInt32}
    (hk : k ≠ Entry.closeKey) (hsize : (data.size : Int) ≤ c.maxValueSize)
    (hneed : need.toNat = c.entrySize.toNat + Nat.blockCeil data.size c.writeBlock.toNat) :
    ∀ (fuel r : Nat) (R : Ring) (e : Engine), R.Stored c e → R.Rotating c r →
      r + fuel = c.sectorCount.toNat + 1 → R.WornOn c e →
      ∃ R' : Ring, R'.Stored c ((write.rotate op key k data need r fuel).run.run e).2 ∧
        R'.WornOn c ((write.rotate op key k data need r fuel).run.run e).2 := by
  intro fuel
  induction fuel with
  | zero =>
    intro r R e hst _ _ hw
    exact ⟨R, hst, hw⟩
  | succ fuel ih =>
    intro r R e hst hrot hr hw
    have hcfg := hst.config
    by_cases hround : r = c.sectorCount.toNat
    · -- a whole round of rotations found no room: only a log follows
      obtain ⟨e1, hlog, hq⟩ := run_logAt .warn "no space for entry"
        [Log.Field.bytes "key" key, ("len", .int data.size)] e
      have hrun : (write.rotate op key k data need r (fuel + 1)).run.run e =
          (.error (.store op key none "" (some (.kind .noSpace))), e1) := by
        simp only [write.rotate, run_bind, run_store, hcfg, if_pos hround, hlog]
        rfl
      rw [hrun]
      exact ⟨R, hst.reads hq.reads, hw.sameWear hq.reads.sameWear⟩
    by_cases hfit : c.Fits (⟨k, data⟩ :: R.current)
    · -- there is room: the record is pushed, which erases nothing
      obtain ⟨e1, happ, hst1, -⟩ := run_append hc hpol hst hk hfit
      have hw1 : e.SameWear e1 := by
        have := append_keepsWear k data e
        rwa [happ] at this
      have hrun : (write.rotate op key k data need r (fuel + 1)).run.run e = (.ok data.size, e1) := by
        simp only [write.rotate, run_bind, run_store, hcfg, if_neg hround,
          if_pos ((room_iff hc hst hsize hneed).2 hfit), run_wrapFault_ok happ]
        rfl
      rw [hrun]
      exact ⟨R.push ⟨k, data⟩, hst1, (hw.sameWear hw1).congr rfl rfl⟩
    · -- no room: one rotation, then the loop goes on
      have hne : R.current ≠ [] := by
        rintro hnil
        exact hfit (hnil ▸ Config.fits_single hc hsize)
      obtain ⟨e1, e2, hclose, hcoll, hst2, hw2, -⟩ := hw.rotate hc hpol hst hrot.settled hne
      have hrun : (write.rotate op key k data need r (fuel + 1)).run.run e =
          (write.rotate op key k data need (r + 1) fuel).run.run e2 := by
        simp only [write.rotate, run_bind, run_store, hcfg, if_neg hround,
          if_neg (mt (room_iff hc hst hsize hneed).1 hfit), run_wrapFault_ok hclose,
          run_wrapFault_ok hcoll]
      rw [hrun]
      exact ih (r + 1) (R.rotate c) e2 hst2 (hrot.rotate hc hne) (by omega) hw2

/-- A write on a mounted store at rest leaves a ring whose laps the counts of the part follow. -/
theorem write_wornOn (hc : c.Usable) (hpol : Flash.Polar c.eraseValue) (hst : R.Stored c e)
    (hrest : R.AtRest c) (hm : e.store.mounted = true) (hw : R.WornOn c e) (key data : ByteArray) :
    ∃ R' : Ring, R'.Stored c ((write key data).run.run e).2 ∧
      R'.WornOn c ((write key data).run.run e).2 := by
  have hcfg := hst.config
  -- what the write leaves does not depend on the meters around it
  have hobserved : ∀ {op : String} {act : StoreM Nat},
      (∃ (r : Except Fault Nat) (e' : Engine), act.run.run e = (r, e') ∧
        ∃ R' : Ring, R'.Stored c e' ∧ R'.WornOn c e') →
      ∃ R' : Ring, R'.Stored c ((observed op act).run.run e).2 ∧
        R'.WornOn c ((observed op act).run.run e).2 := by
    rintro op act ⟨r, e', hrun, R', hst', hw'⟩
    obtain ⟨e'', hobs, hq⟩ := run_observed op hrun
    rw [hobs]
    exact ⟨R', hst'.reads hq.reads, hw'.sameWear hq.reads.sameWear⟩
  unfold write
  apply hobserved
  cases hk : Entry.padKey? key with
  | none =>
    exact ⟨_, e, by rw [run_bind, run_keyField_none _ hk], R, hst, hw⟩
  | some k =>
    obtain ⟨-, hclose, -⟩ := Entry.padKey?_eq_some hk
    by_cases hbig : (data.size : Int) > c.maxValueSize
    · -- a value too large is refused before anything is read
      exact ⟨_, e, by simp only [run_bind, run_keyField_some _ hk, run_store, hcfg, if_pos hbig]; rfl,
        R, hst, hw⟩
    have hsize : (data.size : Int) ≤ c.maxValueSize := by omega
    obtain ⟨b, e1, hun, hr1, -⟩ := run_unchanged hc hpol hst k data
    cases b with
    | true =>
      -- nothing to write
      refine ⟨.ok 0, e1, ?_, R, hst.reads hr1, hw.sameWear hr1.sameWear⟩
      simp only [run_bind, run_keyField_some _ hk, run_store, hcfg, if_neg hbig, hm,
        Bool.not_true, Bool.false_eq_true, if_false, run_wrapFault_ok hun, if_true]
      rfl
    | false =>
      have hneed := Config.need_toNat hc
        (show data.size ≤ c.sectorSize.toNat by unfold Config.maxValueSize at hsize; omega)
      obtain ⟨R', hst', hw'⟩ := rotate_wornOn hc hpol (if data.size = 0 then "delete" else "write")
        key hclose hsize hneed (c.sectorCount.toNat + 1) 0 R e1 (hst.reads hr1) hrest.rotating
        (by omega) (hw.sameWear hr1.sameWear)
      exact ⟨_, _, by
        simp only [run_bind, run_keyField_some _ hk, run_store, hcfg, if_neg hbig, hm,
          Bool.not_true, Bool.false_eq_true, if_false, run_wrapFault_ok hun, Store.entrySize]
        rfl, R', hst', hw'⟩

end StoreM

/-! ## Sessions that keep the laps -/

namespace Session

variable {c : Config}

/-- The engine after a write is the one the write leaves, whether it succeeded or not. -/
theorem engine_step_write (s : Session) (key data : ByteArray) :
    (s.step (.write key data)).engine = ((StoreM.write key data).run.run s.engine).2 := by
  simp only [step, Call.run]
  rcases (StoreM.write key data).run.run s.engine with ⟨r, e'⟩
  cases r <;> rfl

/-- The sessions a client reaches by writes, deletions, remounts and reads from a new store on
an erased part whose erase blocks are the sectors of the region and whose sectors have been
erased equally often. A read is anything that leaves the store and the part as they were, but
for the part's count of reads. -/
inductive Steady (c : Config) : Session → Prop
  | start (log : Log.Logger) (partition : String) {rig : Rig} (hpl : c.Placed rig.chip)
      (herased : c.Hosts rig.chip fun _ _ => c.eraseValue)
      (hblock : rig.chip.geometry.eraseBlock = c.sectorSize.toNat)
      (hcounted : c.offset.toNat / c.sectorSize.toNat + c.sectorCount.toNat ≤ rig.chip.wear.size)
      (hlevel : ∀ j < c.sectorCount.toNat, rig.chip.wear[c.offset.toNat / c.sectorSize.toNat + j]! =
        rig.chip.wear[c.offset.toNat / c.sectorSize.toNat]!) :
      Steady c (Session.start c log partition rig)
  | write {s : Session} (key data : ByteArray) : Steady c s → Steady c (s.step (.write key data))
  | delete {s : Session} (key : ByteArray) : Steady c s → Steady c (s.step (.delete key))
  | remount {s : Session} (log : Log.Logger) (partition : String) :
      Steady c s → Steady c (s.step (.remount log partition))
  | read {s : Session} {e : Engine} : Steady c s → s.engine.Reads e → Steady c ⟨e, s.expected⟩

variable (hv : c.validate = .ok ()) (hpol : Flash.Polar c.eraseValue)
include hv hpol

/-- A write keeps a faithful session on a ring whose laps the counts follow. -/
theorem Faithful.write_wornOn {s : Session} {R : Ring} (h : s.Faithful c R) (hw : R.WornOn c s.engine)
    (key data : ByteArray) :
    ∃ R', (s.step (.write key data)).Faithful c R' ∧ R'.WornOn c (s.step (.write key data)).engine := by
  have hc := Config.usable_of_validate hv
  obtain ⟨R', h'⟩ := (h.call hv hpol (.write key data)).2
  -- the ring the write is followed on holds the same place in the ring as the faithful one
  obtain ⟨R'', hst'', hw''⟩ := StoreM.write_wornOn hc hpol h.stored h.atRest h.mounted hw key data
  rw [← engine_step_write] at hst'' hw''
  obtain ⟨ha, hl⟩ := Ring.Stored.shape hc hpol hst'' h'.stored
  exact ⟨R', h', hw''.congr ha hl⟩

/-- Every steady session is faithful on a ring whose laps the erase counts of the part follow. -/
theorem Steady.wornOn {s : Session} (hs : s.Steady c) : ∃ R, s.Faithful c R ∧ R.WornOn c s.engine := by
  have hc := Config.usable_of_validate hv
  induction hs with
  | start log partition hpl herased hblock hcounted hlevel =>
    obtain ⟨e', hrun, h, hchip⟩ := run_start hv hpol log partition hpl herased
    have hsame : (⟨Store.create c log partition, _⟩ : Engine).SameWear e' := .of_chip hchip
    rw [Session.start, hrun]
    refine ⟨Ring.empty, h, Ring.WornOn.sameWear ⟨hblock, hcounted, Ring.Worn.empty fun j hj => ?_⟩ hsame⟩
    simp only [Engine.wearAt, Nat.add_zero]
    exact hlevel j hj
  | write key data _ ih =>
    obtain ⟨R, h, hw⟩ := ih
    exact h.write_wornOn hv hpol hw key data
  | delete key _ ih =>
    obtain ⟨R, h, hw⟩ := ih
    rw [step_delete]
    exact h.write_wornOn hv hpol hw key ByteArray.empty
  | @remount s log partition _ ih =>
    -- a new store over the region reads the part and finds the ring the old one left
    obtain ⟨R, h, hw⟩ := ih
    obtain ⟨e', hrun, hst', hs', hchip⟩ := StoreM.run_mount hv hpol
      (h.stored.toHosted.withStore (s := Store.create s.engine.store.config log partition)
        h.stored.config) h.atRest
    have hcall : (Call.remount log partition).run s.engine = (.ok (), e') := hrun
    rw [step_ok hcall]
    exact ⟨R, h.keep hst' h.atRest (by rw [hs']) rfl, hw.sameWear (.of_chip hchip)⟩
  | read _ hr ih =>
    obtain ⟨R, h, hw⟩ := ih
    exact ⟨R, h.keep (h.stored.reads hr) h.atRest (by rw [hr.1]; exact h.mounted) rfl,
      hw.sameWear hr.sameWear⟩

/-- Wear levelling. On a part whose erase blocks are the sectors of the region, a store started
on an erased region with level counts keeps the erase counts of its sectors within one of each
other, through every write, deletion, read and remount. -/
theorem Steady.wear_balanced {s : Session} (hs : s.Steady c) :
    ∀ i < c.sectorCount.toNat, ∀ j < c.sectorCount.toNat,
      s.engine.wearAt c i ≤ s.engine.wearAt c j + 1 := by
  obtain ⟨R, -, hw⟩ := hs.wornOn hv hpol
  intro i hi j hj
  exact hw.worn.balanced hi hj

omit hv hpol

/-- The calls keep a new store on the blank part steady, erased in blocks of a sector, and after
them its sectors' erase counts are within one of each other. -/
theorem wear_balanced_rotated :
    sampleConfig.validate = .ok () ∧ Flash.Polar sampleConfig.eraseValue ∧
      rotated.Steady sampleConfig ∧
      ∀ i < sampleConfig.sectorCount.toNat, ∀ j < sampleConfig.sectorCount.toNat,
        rotated.engine.wearAt sampleConfig i ≤ rotated.engine.wearAt sampleConfig j + 1 := by
  -- each call of the examples is a write
  have hs : rotated.Steady sampleConfig :=
    .write _ _ (.write _ _ (.write _ _ (.write _ _
      (.start .silent "default" placed_samplePart hosts_samplePart rfl (by decide) (by decide)))))
  exact ⟨rfl, .inr rfl, hs, Steady.wear_balanced rfl (.inr rfl) hs⟩

end Session

end NorStore
