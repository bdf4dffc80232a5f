import NorStore.Proofs.Write
import NorStore.Store.Reset

/-!
# Mounting a ring

On a part that holds a ring at rest, mounting finds the ring again and issues no program and no
erase: it only reads.

* `scanRing` looks at the close slots in sector order. A sector is closed when it lies one to
  `closed.length` sectors back from the active one (`Ring.IsClosed`); the closed sectors are an
  arc that ends just before the active sector, so the scan stops at the last of them and names
  the close slot of the active sector (`run_scanRing_closed`). With nothing closed it runs
  through (`run_scanRing_open`) and the top slot of the last sector decides between the two
  ends of the ring.
* `recoverTable` walks the active sector's table down from the top slot, one record at a time
  from the oldest, and leaves the data cursor just past the values (`run_recoverTable_go`).
* The gap above the values reads as erased and so does the sector after the active one, so
  `skipOrphans` and the check for an interrupted collection change nothing.

So `startup` puts both cursors where the ring has them (`run_startup`), and `mount` does the
same and marks the store mounted (`run_mount`).
-/

namespace NorStore

namespace Config

variable {c : Config}

/-- A slot reads as erased exactly when all its bytes are the erase value. -/
theorem slotIn_erased_iff {f : Nat → UInt8} {o : Nat} :
    c.slotIn f o = .erased ↔ Sector.Blank f c.eraseValue o c.entrySize.toNat := by
  unfold slotIn Slot.classify
  rw [ByteArray.toList_mk_toArray, ← Sector.all_slice_iff]
  by_cases h : (Sector.slice f o c.entrySize.toNat).all (· == c.eraseValue) = true
  · simp only [h, if_true]
  · simp only [h, if_false, Bool.false_eq_true, iff_false]
    split <;> simp

section Positions

variable {a j : Nat} (ha : a < c.sectorCount.toNat) (hj : j < c.sectorCount.toNat)
include ha hj

/-- How far back a sector lies, without the modulus. -/
theorem distance_eq : c.distance a j = if j ≤ a then a - j else a + c.sectorCount.toNat - j := by
  unfold distance
  split
  · rw [Nat.mod_eq_sub_mod (by omega), Nat.mod_eq_of_lt (by omega)]
    omega
  · exact Nat.mod_eq_of_lt (by omega)

/-- The sector after a sector that lies back from `a` lies one sector less back. -/
theorem distance_succ_of_pos (hpos : 0 < c.distance a j) :
    c.distance a ((j + 1) % c.sectorCount.toNat) = c.distance a j - 1 := by
  have hsucc : (j + 1) % c.sectorCount.toNat < c.sectorCount.toNat := Nat.mod_lt _ (by omega)
  rw [distance_eq ha hj] at hpos ⊢
  rw [distance_eq ha hsucc]
  by_cases hlast : j + 1 < c.sectorCount.toNat
  · rw [Nat.mod_eq_of_lt hlast]
    split_ifs at hpos ⊢ <;> omega
  · -- the last sector is followed by sector `0`
    rw [show j + 1 = c.sectorCount.toNat by omega, Nat.mod_self]
    split_ifs at hpos ⊢ <;> omega

end Positions

end Config

namespace Ring

variable {c : Config} {R : Ring}

/-- Sector `j` is closed: it lies one to `closed.length` sectors back from the active one. -/
def IsClosed (c : Config) (R : Ring) (j : Nat) : Prop :=
  0 < c.distance R.active j ∧ c.distance R.active j ≤ R.closed.length

/-- The close slot of a sector reads as erased exactly when the sector is not closed. -/
theorem slotIn_closeOffset (hc : c.Usable) (hpol : Flash.Polar c.eraseValue) (hR : R.Fit c)
    (j : Nat) : c.slotIn (R.image c j) c.closeOffset = .erased ↔ ¬R.IsClosed c j := by
  unfold image IsClosed
  cases hd : c.distance R.active j with
  | zero =>
    simp only [sectorAt, Nat.lt_irrefl, false_and, not_false_eq_true, iff_true]
    exact Config.slotIn_blank (Config.blank_layout_close hc hR.current)
  | succ b =>
    simp only [sectorAt]
    cases hb : R.closed[b]? with
    | none =>
      -- further back than the closed sectors: a blank sector
      have hlen : R.closed.length ≤ b := List.getElem?_eq_none_iff.1 hb
      have hblank : c.slotIn (fun _ => c.eraseValue) c.closeOffset = .erased :=
        Config.slotIn_blank fun _ _ => rfl
      simp only [hblank, Nat.succ_pos, true_and, not_le, true_iff]
      omega
    | some rs =>
      have hlen := (List.getElem?_eq_some_iff.1 hb).1
      have hfit := (hR.closed rs (List.mem_of_getElem? hb)).1
      simp only [Config.slotIn_close hc hpol hfit, reduceCtorEq, false_iff, not_not]
      exact ⟨Nat.succ_pos b, hlen⟩

theorem Hosted.reads {e e' : Engine} (h : R.Hosted c e) (hr : e.Reads e') : R.Hosted c e' where
  toFit := h.toFit
  config := by rw [hr.1]; exact h.config
  placed := hr.placed h.placed
  hosts := hr.hosts h.hosts

/-- Moving the cursors keeps what the part holds. -/
theorem Hosted.withStore {e : Engine} (h : R.Hosted c e) {s : Store} (hs : s.config = c) :
    R.Hosted c { e with store := s } where
  toFit := h.toFit
  config := hs
  placed := h.placed
  hosts := h.hosts

/-- The sector after the active one of a ring at rest is blank. -/
theorem image_next (hR : R.Fit c) (hrest : R.AtRest c) :
    R.image c ((R.active + 1) % c.sectorCount.toNat) = fun _ => c.eraseValue := by
  have hL := hrest.settled
  rw [image, Config.distance_succ hR.active_lt, show c.sectorCount.toNat - 1 = (c.sectorCount.toNat - 2) + 1 by omega,
    sectorAt, List.getElem?_eq_none (by omega)]

/-- The sector just before the active one is closed, when any is. -/
theorem isClosed_last (hR : R.Fit c) (hL : R.closed ≠ []) : R.IsClosed c (c.behind R.active 1) := by
  have hn : 1 < c.sectorCount.toNat := by have := hR.span; have := List.length_pos_iff.2 hL; omega
  rw [IsClosed, Config.distance_behind hR.active_lt hn]
  exact ⟨Nat.one_pos, List.length_pos_iff.2 hL⟩

/-- A closed sector other than the last one is followed by a closed sector. -/
theorem isClosed_succ (hR : R.Fit c) {j : Nat} (hj : j < c.sectorCount.toNat)
    (hcl : R.IsClosed c j) (hne : j ≠ c.behind R.active 1) :
    R.IsClosed c ((j + 1) % c.sectorCount.toNat) := by
  have ha := hR.active_lt
  have hd1 : c.distance R.active j ≠ 1 := fun h1 =>
    hne (by rw [← h1, Config.behind_distance ha hj])
  rw [IsClosed, Config.distance_succ_of_pos ha hj hcl.1]
  exact ⟨by have := hcl.1; omega, by have := hcl.2; omega⟩

/-- The sector after the last closed one is the active sector. -/
theorem succ_behind_one (hR : R.Fit c) :
    (c.behind R.active 1 + 1) % c.sectorCount.toNat = R.active := by
  have ha := hR.active_lt
  have hb : c.behind R.active 1 = if R.active = 0 then c.sectorCount.toNat - 1 else R.active - 1 := by
    unfold Config.behind
    split
    · rw [Nat.mod_eq_of_lt (by omega)]
      omega
    · rw [Nat.mod_eq_sub_mod (by omega), Nat.mod_eq_of_lt (by omega)]
      omega
  rw [hb]
  split
  · rw [Nat.sub_add_cancel (by omega), Nat.mod_self]
    omega
  · rw [Nat.sub_add_cancel (by omega), Nat.mod_eq_of_lt ha]

end Ring

theorem Engine.Reads.withStore {e e' : Engine} (h : e.Reads e') (s : Store) :
    ({ e with store := s } : Engine).Reads { e' with store := s } :=
  ⟨rfl, h.2⟩

namespace StoreM

variable {c : Config} {R : Ring}

/-- Checking a slot for erasure answers whether it reads as erased. -/
theorem run_isErased_slot (hc : c.Usable) {e : Engine} (h : R.Hosted c e) {j o : Nat}
    (hj : j < c.sectorCount.toNat) (ho : o + c.entrySize.toNat ≤ c.sectorSize.toNat) :
    ∃ b e', (isErased (Address.at j o) c.entrySize).run.run e = (.ok b, e') ∧ e.Reads e' ∧
      (b = true ↔ c.slotIn (R.image c j) o = .erased) := by
  obtain ⟨b, e', hrun, hr, hb⟩ := run_isErased hc e h.config h.placed h.hosts hj ho
  exact ⟨b, e', hrun, hr, hb.trans Config.slotIn_erased_iff.symm⟩

/-- Looking at the close slot of sector `j` answers whether the sector is open. -/
theorem run_isErased_close (hc : c.Usable) (hpol : Flash.Polar c.eraseValue) {e : Engine}
    (h : R.Hosted c e) {j : Nat} (hj : j < c.sectorCount.toNat) :
    ∃ b e', (isErased (Address.at j c.closeOffset) c.entrySize).run.run e = (.ok b, e') ∧
      e.Reads e' ∧ (b = true ↔ ¬R.IsClosed c j) := by
  have h4 := hc.four_entries
  obtain ⟨b, e', hrun, hr, hb⟩ := run_isErased_slot hc h hj (o := c.closeOffset)
    (by simp only [Config.closeOffset]; omega)
  exact ⟨b, e', hrun, hr, hb.trans (Ring.slotIn_closeOffset hc hpol h.toFit j)⟩

/-- One step of the scan: sector `i` is skipped while open; a closed one stops the scan when the
sector after it is open. -/
theorem run_scanRing_step (hc : c.Usable) {e : Engine} (hs : e.store.config = c) {i : Nat}
    (hi : i < c.sectorCount.toNat) (addr : Address) (closed : Nat) :
    (scanRing c.sectorCount i addr closed).run.run e =
      (do
        if ← isErased (Address.at i c.closeOffset) c.entrySize then
          scanRing c.sectorCount (i + 1) (Address.at i c.closeOffset) closed
        else if ← isErased (Address.at ((i + 1) % c.sectorCount.toNat) c.closeOffset) c.entrySize then
          pure (i, Address.at ((i + 1) % c.sectorCount.toNat) c.closeOffset, closed + 1)
        else
          scanRing c.sectorCount (i + 1) (Address.at ((i + 1) % c.sectorCount.toNat) c.closeOffset)
            (closed + 1) : StoreM _).run.run e := by
  have hn := hc.count_le
  have hS := hc.sector_le
  have h4 := hc.four_entries
  have hi' : i.toUInt32.toNat = i := by
    rw [Nat.toUInt32_eq, UInt32.toNat_ofNat', Nat.mod_eq_of_lt (by omega)]
  have hclose : c.closeOffset < 65536 := by simp only [Config.closeOffset]; omega
  have hmake : Address.make i.toUInt32 e.store.closeSlot = Address.at i c.closeOffset := by
    rw [Address.make_eq_at (by omega) (by rw [Store.closeSlot_toNat hs hc]; exact hclose), hi',
      Store.closeSlot_toNat hs hc]
  rw [scanRing]
  simp only [run_bind, run_store, show ¬(i ≥ c.sectorCount.toNat) by omega, if_false, hmake,
    Store.entrySize, hs, Address.advance_at hi hn hclose]

/-- With some sector closed, the scan runs from any sector up to the last closed one and stops
there, at the close slot of the active sector. The count of closed sectors stays below the
number of sectors: the active sector is looked at and never counted. -/
theorem run_scanRing_closed (hc : c.Usable) (hpol : Flash.Polar c.eraseValue) (hR : R.Fit c)
    (hL : R.closed ≠ []) : ∀ (k i : Nat) (addr : Address) (closed : Nat) (e : Engine),
      R.Hosted c e → c.behind R.active 1 = i + k →
      closed + (if R.active < i then 1 else 0) ≤ i →
      ∃ cl e', (scanRing c.sectorCount i addr closed).run.run e =
        (.ok (c.behind R.active 1, Address.at R.active c.closeOffset, cl), e') ∧ e.Reads e' ∧
        cl < c.sectorCount.toNat := by
  have ha := hR.active_lt
  have hp : c.behind R.active 1 < c.sectorCount.toNat := Config.behind_lt ha
  have hlast := Ring.isClosed_last hR hL
  have hopen : ¬R.IsClosed c R.active := fun h => by
    have := h.1
    rw [Config.distance_self] at this
    exact Nat.lt_irrefl 0 this
  intro k
  induction k with
  | zero =>
    -- the last closed sector: the sector after it, the active one, is open
    intro i addr closed e h hk hcount
    rw [Nat.add_zero] at hk
    subst hk
    obtain ⟨b1, e1, hrun1, hr1, hb1⟩ := run_isErased_close hc hpol h hp
    have hb1' : b1 = false := by simpa [hlast] using hb1
    obtain ⟨b2, e2, hrun2, hr2, hb2⟩ := run_isErased_close hc hpol (h.reads hr1) ha
    have hb2' : b2 = true := hb2.2 hopen
    have hne : R.active ≠ c.behind R.active 1 := fun heq => hopen (heq ▸ hlast)
    refine ⟨closed + 1, e2, ?_, hr1.trans hr2, ?_⟩
    · rw [run_scanRing_step hc h.config hp, run_bind, hrun1, Ring.succ_behind_one hR]
      simp only [hb1', Bool.false_eq_true, if_false, run_bind, hrun2, hb2', if_true]
      rfl
    · split at hcount <;> omega
  | succ k ih =>
    intro i addr closed e h hk hcount
    have hi : i < c.sectorCount.toNat := by omega
    have hsucc : (i + 1) % c.sectorCount.toNat = i + 1 := Nat.mod_eq_of_lt (by omega)
    obtain ⟨b1, e1, hrun1, hr1, hb1⟩ := run_isErased_close hc hpol h hi
    cases b1 with
    | true =>
      -- an open sector is passed over
      obtain ⟨cl, e', hrun, hr, hcl⟩ := ih (i + 1) (Address.at i c.closeOffset) closed e1
        (h.reads hr1) (by omega) (by split at hcount <;> split <;> omega)
      refine ⟨cl, e', ?_, hr1.trans hr, hcl⟩
      rw [run_scanRing_step hc h.config hi, run_bind, hrun1]
      exact hrun
    | false =>
      -- a closed sector before the last one is followed by a closed sector
      have hcl : R.IsClosed c i := by simpa using hb1
      have hne : i ≠ c.behind R.active 1 := by omega
      have hai : R.active ≠ i := fun heq => hopen (heq ▸ hcl)
      have hnext := Ring.isClosed_succ hR hi hcl hne
      rw [hsucc] at hnext
      obtain ⟨b2, e2, hrun2, hr2, hb2⟩ := run_isErased_close hc hpol (h.reads hr1)
        (show i + 1 < c.sectorCount.toNat by omega)
      have hb2' : b2 = false := by simpa [hnext] using hb2
      obtain ⟨cl, e', hrun, hr, hcl'⟩ := ih (i + 1) (Address.at (i + 1) c.closeOffset) (closed + 1)
        e2 ((h.reads hr1).reads hr2) (by omega) (by split at hcount <;> split <;> omega)
      refine ⟨cl, e', ?_, hr1.trans (hr2.trans hr), hcl'⟩
      rw [run_scanRing_step hc h.config hi, run_bind, hrun1, hsucc]
      simp only [Bool.false_eq_true, if_false, run_bind, hrun2, hb2']
      exact hrun

theorem run_scanRing_end (n : UInt32) {i : Nat} (hi : n.toNat ≤ i) (addr : Address) (closed : Nat)
    (e : Engine) : (scanRing n i addr closed).run.run e = (.ok (i, addr, closed), e) := by
  rw [scanRing]
  simp only [ge_iff_le, hi, if_true]
  rfl

/-- With nothing closed, the scan passes over every sector from `i` on and ends past the last
one, at its close slot. -/
theorem run_scanRing_open (hc : c.Usable) (hpol : Flash.Polar c.eraseValue) (hL : R.closed = []) :
    ∀ (k i : Nat) (addr : Address) (e : Engine), R.Hosted c e → c.sectorCount.toNat = i + k + 1 →
      ∃ e', (scanRing c.sectorCount i addr 0).run.run e =
        (.ok (c.sectorCount.toNat, Address.at (c.sectorCount.toNat - 1) c.closeOffset, 0), e') ∧
        e.Reads e' := by
  have hopen : ∀ j, ¬R.IsClosed c j := fun j h => by
    have := h.2
    rw [hL, List.length_nil] at this
    exact Nat.lt_irrefl 0 (Nat.lt_of_lt_of_le h.1 this)
  intro k
  induction k with
  | zero =>
    intro i addr e h hk
    obtain ⟨b, e1, hrun1, hr1, hb⟩ := run_isErased_close hc hpol h (show i < c.sectorCount.toNat by omega)
    refine ⟨e1, ?_, hr1⟩
    rw [run_scanRing_step hc h.config (by omega), run_bind, hrun1, hb.2 (hopen i)]
    simp only [if_true]
    rw [run_scanRing_end _ (by omega), show c.sectorCount.toNat - 1 = i by omega,
      show i + 1 = c.sectorCount.toNat by omega]
  | succ k ih =>
    intro i addr e h hk
    obtain ⟨b, e1, hrun1, hr1, hb⟩ := run_isErased_close hc hpol h (show i < c.sectorCount.toNat by omega)
    obtain ⟨e', hrun, hr⟩ := ih (i + 1) (Address.at i c.closeOffset) e1 (h.reads hr1) (by omega)
    refine ⟨e', ?_, hr1.trans hr⟩
    rw [run_scanRing_step hc h.config (by omega), run_bind, hrun1, hb.2 (hopen i)]
    simp only [if_true]
    exact hrun

/-- Where the value of a record of the active sector ends, as the table walk computes it from
the record's entry. -/
theorem valueEnd_entry (hc : c.Usable) {a : Nat} (ha : a < c.sectorCount.toNat) {r : Record}
    {rs : List Record} (h : c.Fits (r :: rs)) :
    ((Address.at a 0).plus (r.entry (c.dataEnd rs)).offset.toUInt32).plus
      (alignUp (r.entry (c.dataEnd rs)).length.toUInt32 c.writeBlock) =
      Address.at a (c.dataEnd (r :: rs)) := by
  have hn := hc.count_le
  have hS := hc.sector_le
  obtain ⟨hle, hd, hs, -, -⟩ := h.cons_offsets hc
  have hslot : c.slot (rs.length + 1) ≤ c.sectorSize.toNat := by simp only [Config.slot]; omega
  have hoff : (r.entry (c.dataEnd rs)).offset.toUInt32.toNat = c.dataEnd rs := by
    show ((c.dataEnd rs).toUInt16.toUInt32).toNat = _
    rw [UInt16.toNat_toUInt32, Nat.toUInt16_eq, UInt16.toNat_ofNat', Nat.mod_eq_of_lt (by omega)]
  have hlen : (r.entry (c.dataEnd rs)).length.toUInt32.toNat = r.value.size := by
    show (r.value.size.toUInt16.toUInt32).toNat = _
    rw [UInt16.toNat_toUInt32, Nat.toUInt16_eq, UInt16.toNat_ofNat', Nat.mod_eq_of_lt (by omega)]
  have hW : c.writeBlock.toNat ≤ 32 := Nat.le_of_dvd (by decide) (dvd_32_of_mem_blockSizes hc.block)
  rw [Address.plus_at (by omega) (by rw [hoff]; omega), hoff, Nat.zero_add,
    Address.plus_at (by omega) (by rw [alignUp_toNat hc.block (by rw [hlen]; omega), hlen]; omega),
    alignUp_toNat hc.block (by rw [hlen]; omega), hlen, Config.dataEnd_cons]

/-- Walking the active sector's table down from the slot above the `rs` oldest records, with the
data cursor just past their values, ends at the free slot with the data cursor past every value;
no slot is torn and only the cursors change. -/
theorem run_recoverTable_go (hc : c.Usable) (hpol : Flash.Polar c.eraseValue) (hR : R.Fit c) :
    ∀ (pre rs : List Record) (fuel : Nat) (e : Engine), pre ++ rs = R.current →
      pre.length < fuel → R.Hosted c e →
      e.store.ateCursor = Address.at R.active (c.slot rs.length) →
      e.store.dataCursor = Address.at R.active (c.dataEnd rs) →
      ∃ e', (recoverTable.go (Address.at R.active 0) fuel 0).run.run e = (.ok 0, e') ∧
        ({ e with store := { e.store with ateCursor := R.ate c, dataCursor := R.dataEnd c } } :
          Engine).Reads e' := by
  have ha := hR.active_lt
  have hn := hc.count_le
  have hS := hc.sector_le
  have hfit := hR.current
  intro pre
  induction pre using List.reverseRecOn with
  | nil =>
    -- every record has been passed: the free slot reads as erased
    intro rs fuel e hcur hfuel h hate hdata
    rw [List.nil_append] at hcur
    subst hcur
    obtain ⟨fuel, rfl⟩ : ∃ f, fuel = f + 1 := ⟨fuel - 1, by simp at hfuel; omega⟩
    have hle := hfit.dataEnd_le
    have hslot : c.slot R.current.length + c.entrySize.toNat ≤ c.sectorSize.toNat := by
      have := hfit.mul_le (k := R.current.length + 2) (Nat.le_refl _)
      simp only [Config.slot]
      have : 2 * c.entrySize.toNat ≤ (R.current.length + 2) * c.entrySize.toNat :=
        Nat.mul_le_mul_right _ (by omega)
      omega
    obtain ⟨e1, hread, hr1⟩ := run_readSlot_image hc h ha hslot
    rw [Ring.image_active, Config.slotIn_free hc hfit] at hread
    have hlt : ¬Address.at R.active (c.slot R.current.length) <
        Address.at R.active (c.dataEnd R.current) := by
      rw [Address.at_lt_at_iff (by omega) (by simp only [Config.slot]; omega) (by omega) (by omega)]
      omega
    refine ⟨e1, ?_, ?_⟩
    · simp only [recoverTable.go, run_bind, run_store, hate, hdata, hlt, if_false, hread]
      rfl
    · have hst : ({ e.store with ateCursor := R.ate c, dataCursor := R.dataEnd c } : Store) =
          e.store := by
        rw [Ring.ate, Ring.dataEnd, ← hate, ← hdata]
      rw [hst]
      exact hr1
  | append_singleton pre r ih =>
    intro rs fuel e hcur hfuel h hate hdata
    rw [List.append_assoc, List.singleton_append] at hcur
    obtain ⟨fuel, rfl⟩ : ∃ f, fuel = f + 1 := ⟨fuel - 1, by simp at hfuel; omega⟩
    have hfit' : c.Fits (pre ++ r :: rs) := hcur ▸ hfit
    have hrs : c.Fits (r :: rs) := hfit'.of_append
    obtain ⟨hle, hd, hs, hw, htop⟩ := hrs.cons_offsets hc
    have hE : 30 ≤ c.entrySize.toNat := hc.entry_ge
    have hkey : r.key ≠ Entry.closeKey :=
      hR.keys r (List.mem_append_left _ (by rw [← hcur]; simp))
    -- the slot holds the entry of the record, whose value ends below the next slot up
    obtain ⟨e1, hread, hr1⟩ := run_readSlot_image hc h ha (o := c.slot rs.length) (by omega)
    rw [Ring.image_active, ← hcur, Config.slotIn_entry hc hpol hfit' hkey] at hread
    have hlt : ¬Address.at R.active (c.slot rs.length) < Address.at R.active (c.dataEnd rs) := by
      rw [Address.at_lt_at_iff (by omega) (by omega) (by omega) (by omega)]
      omega
    have hcfg1 : e1.store.config = c := by rw [hr1.1]; exact h.config
    have hdata' := valueEnd_entry hc ha hrs
    have hne : (Address.at R.active (c.slot rs.length) ==
        Address.at R.active (c.dataEnd (r :: rs))) = false := by
      rw [beq_eq_false_iff_ne, ne_eq, Address.at_inj (by omega) (by omega) (by omega)
        (by rw [Config.dataEnd_cons]; omega)]
      rw [Config.dataEnd_cons]
      omega
    have hoff : ¬(Address.at R.active (c.slot rs.length)).offset < c.entrySize := by
      rw [UInt32.lt_iff_toNat_lt, Address.offset_at (by omega) (by omega)]
      omega
    have hminus : (Address.at R.active (c.slot rs.length)).minus c.entrySize =
        Address.at R.active (c.slot (r :: rs).length) := by
      rw [Address.minus_at (by omega) (by omega) (by omega), List.length_cons, Config.slot_succ]
    -- on up the table, from the slot above
    let e2 : Engine := { e1 with store := { e.store with
      config := c,
      ateCursor := Address.at R.active (c.slot (r :: rs).length),
      dataCursor := Address.at R.active (c.dataEnd (r :: rs)) } }
    obtain ⟨e3, hrun, hr3⟩ := ih (r :: rs) fuel e2 hcur (by simp at hfuel; omega)
      ((h.reads hr1).withStore rfl) rfl rfl
    refine ⟨e3, ?_, ?_⟩
    · simp only [recoverTable.go, run_bind, run_store, hate, hdata, hlt, if_false, hread,
        run_modifyStore, Store.entrySize, h.config, hr1.1, hdata', hne, Bool.false_and,
        Bool.false_eq_true, hoff, hminus]
      exact hrun
    · have hsame : ({ e2.store with ateCursor := R.ate c, dataCursor := R.dataEnd c } : Store) =
          { e.store with ateCursor := R.ate c, dataCursor := R.dataEnd c } := by
        simp only [e2, ← h.config]
      rw [hsame] at hr3
      exact (hr1.withStore _).trans hr3

/-- The table walk of mounting, from the top slot of the active sector with the data cursor at
its start. -/
theorem run_recoverTable (hc : c.Usable) (hpol : Flash.Polar c.eraseValue) {e : Engine}
    (h : R.Hosted c e) (hate : e.store.ateCursor = Address.at R.active (c.slot 0))
    (hdata : e.store.dataCursor = Address.at R.active 0) :
    ∃ e', (recoverTable (Address.at R.active c.closeOffset)).run.run e = (.ok 0, e') ∧
      ({ e with store := { e.store with ateCursor := R.ate c, dataCursor := R.dataEnd c } } :
        Engine).Reads e' := by
  have ha := h.active_lt
  have hn := hc.count_le
  have hS := hc.sector_le
  have hE : 30 ≤ c.entrySize.toNat := hc.entry_ge
  have hlen := Ring.length_le_of_fits hc h.current
  have hfuel : R.current.length < c.sectorSize.toNat / c.entrySize.toNat + 1 := by omega
  have hstart : (Address.at R.active c.closeOffset).sectorStart = Address.at R.active 0 :=
    Address.sectorStart_at (by omega) (by simp only [Config.closeOffset]; omega)
  obtain ⟨e', hrun, hr⟩ := run_recoverTable_go hc hpol h.toFit R.current [] _ e
    (List.append_nil _) hfuel h hate hdata
  refine ⟨e', ?_, hr⟩
  simp only [recoverTable, run_bind, run_store, Store.entrySize, h.config, hstart]
  exact hrun

/-- With the cursors where the ring has them, the free gap reads as erased and no orphaned data
is skipped. -/
theorem run_skipOrphans (hc : c.Usable) {e : Engine} (hst : R.Stored c e) :
    ∃ e', skipOrphans.run.run e = (.ok (), e') ∧ e.Reads e' := by
  have ha := hst.active_lt
  have hn := hc.count_le
  have hS := hc.sector_le
  have hfit := hst.current
  have hle := hfit.dataEnd_le
  have hslot : c.slot R.current.length + c.entrySize.toNat ≤ c.sectorSize.toNat := by
    have := hfit.mul_le (k := R.current.length + 2) (Nat.le_refl _)
    have : 2 * c.entrySize.toNat ≤ (R.current.length + 2) * c.entrySize.toNat :=
      Nat.mul_le_mul_right _ (by omega)
    simp only [Config.slot]
    omega
  by_cases hdone : e.store.ateCursor ≤ e.store.dataCursor
  · refine ⟨e, ?_, .refl e⟩
    simp only [skipOrphans, run_bind, run_store, hst.config, skipOrphans.go, hdone, if_true]
    rfl
  · -- the gap from the data cursor up to the free slot is blank
    have hgap : (e.store.ateCursor.raw - e.store.dataCursor.raw).toNat =
        c.slot R.current.length - c.dataEnd R.current := by
      have hlt : e.store.dataCursor.raw ≤ e.store.ateCursor.raw := by
        have := UInt32.lt_iff_toNat_lt.1 (UInt32.not_le.1 hdone)
        exact UInt32.le_iff_toNat_le.2 (by omega)
      rw [UInt32.toNat_sub_of_le _ _ hlt, hst.ate, hst.data, Ring.ate, Ring.dataEnd,
        Address.at_raw_toNat (by omega) (by omega), Address.at_raw_toNat (by omega) (by omega)]
      omega
    obtain ⟨b, e1, hrun, hr1, hb⟩ := run_isErased hc e hst.config hst.placed hst.hosts ha
      (o := c.dataEnd R.current) (n := e.store.ateCursor.raw - e.store.dataCursor.raw)
      (by rw [hgap]; omega)
    have hb' : b = true := by
      rw [hb, hgap, Ring.image_active]
      exact (Config.blank_layout_gap hc hfit).mono (Nat.le_refl _) (by omega)
    refine ⟨e1, ?_, hr1⟩
    simp only [skipOrphans, run_bind, run_store, hst.config, skipOrphans.go, hdone, if_false]
    rw [hst.data, Ring.dataEnd] at hrun ⊢
    simp only [hrun, hb', if_true]
    rfl

/-- Finding the active sector of a ring at rest answers the close slot of its active sector. -/
theorem run_locateActive (hc : c.Usable) (hpol : Flash.Polar c.eraseValue) {e : Engine}
    (h : R.Hosted c e) (hrest : R.AtRest c) :
    ∃ e', locateActive.run.run e = (.ok (Address.at R.active c.closeOffset), e') ∧ e.Reads e' := by
  have ha := h.active_lt
  have hn := hc.count_le
  have hn2 := hc.count_ge
  have hS := hc.sector_le
  have h4 := hc.four_entries
  by_cases hL : R.closed = []
  · -- nothing closed: the scan runs through and the last sector's top slot decides
    obtain ⟨e1, hscan, hr1⟩ := run_scanRing_open hc hpol hL (c.sectorCount.toNat - 1) 0 ⟨0⟩ e h
      (by omega)
    have hlast : c.sectorCount.toNat - 1 < c.sectorCount.toNat := by omega
    have htop : (Address.at (c.sectorCount.toNat - 1) c.closeOffset).minus c.entrySize =
        Address.at (c.sectorCount.toNat - 1) (c.slot 0) := by
      rw [Address.minus_at (by omega) (by simp only [Config.closeOffset]; omega)
        (by simp only [Config.closeOffset]; omega)]
      simp only [Config.closeOffset, Config.slot]
      congr 1
      omega
    obtain ⟨b, e2, herased, hr2, hb⟩ := run_isErased_slot hc (h.reads hr1) hlast (o := c.slot 0)
      (by simp only [Config.slot]; omega)
    -- which end of the ring is active
    have hend : (if b = true then (Address.at (c.sectorCount.toNat - 1) c.closeOffset).advance
        c.sectorCount else Address.at (c.sectorCount.toNat - 1) c.closeOffset) =
        Address.at R.active c.closeOffset := by
      rcases hrest.found hL with h0 | ⟨hlast', hne⟩
      · -- the first sector is active and the last one blank
        have hblank : R.image c (c.sectorCount.toNat - 1) = fun _ => c.eraseValue := by
          have hd : c.distance R.active (c.sectorCount.toNat - 1) = 1 := by
            rw [Config.distance_eq ha hlast, h0]
            split <;> omega
          rw [Ring.image, hd, Ring.sectorAt, hL]
          rfl
        have hb' : b = true := hb.2 (by rw [hblank]; exact Config.slotIn_blank fun _ _ => rfl)
        rw [if_pos hb', Address.advance_at hlast hn (by simp only [Config.closeOffset]; omega),
          Nat.sub_add_cancel (by omega), Nat.mod_self, h0]
      · -- the last sector is active and holds its oldest record in the top slot
        have hact : c.sectorCount.toNat - 1 = R.active := by omega
        obtain ⟨pre, r, hcur⟩ := List.eq_nil_or_concat R.current |>.resolve_left hne
        rw [List.concat_eq_append] at hcur
        have hkey : r.key ≠ Entry.closeKey := h.keys r (List.mem_append_left _ (by simp [hcur]))
        have hfit0 : c.Fits (pre ++ [r]) := hcur ▸ h.current
        have hentry := Config.slotIn_entry hc hpol hfit0 hkey
        have hb' : b = false := by
          cases b with
          | false => rfl
          | true =>
            have := hb.1 rfl
            rw [hact, Ring.image_active, hcur] at this
            simp only [List.length_nil] at hentry
            rw [hentry] at this
            cases this
        rw [if_neg (by rw [hb']; decide), hact]
    refine ⟨e2, ?_, hr1.trans hr2⟩
    simp only [locateActive, run_bind, run_store, h.config, hscan,
      show ¬(0 = c.sectorCount.toNat) by omega, if_false, if_true, Store.entrySize, htop, herased]
    rw [← hend]
    split <;> rfl
  · -- the scan stops at the last closed sector
    obtain ⟨cl, e1, hscan, hr1, hcl⟩ := run_scanRing_closed hc hpol h.toFit hL
      (c.behind R.active 1) 0 ⟨0⟩ 0 e h (by omega) (by simp)
    have hp : c.behind R.active 1 ≠ c.sectorCount.toNat :=
      Nat.ne_of_lt (Config.behind_lt ha)
    refine ⟨e1, ?_, hr1⟩
    simp only [locateActive, run_bind, run_store, h.config, hscan, Nat.ne_of_lt hcl, hp,
      if_false]
    rfl

/-- On a ring at rest the sector after the active one is blank: no collection is redone. -/
theorem run_finishCollection (hc : c.Usable) {e : Engine} (hst : R.Stored c e)
    (hrest : R.AtRest c) : ∃ e', finishCollection.run.run e = (.ok (), e') ∧ e.Reads e' := by
  have ha := hst.active_lt
  have hn := hc.count_le
  have hS := hc.sector_le
  have hE : 30 ≤ c.entrySize.toNat := hc.entry_ge
  have hslot : c.slot R.current.length < 65536 := by simp only [Config.slot]; omega
  have hnext : (R.ate c).sectorStart.advance c.sectorCount =
      Address.at ((R.active + 1) % c.sectorCount.toNat) 0 := by
    rw [Ring.ate, Address.sectorStart_at (by omega) hslot, Address.advance_at ha hn (by omega)]
  obtain ⟨b, e1, hrun, hr1, hb⟩ := run_isErased hc e hst.config hst.placed hst.hosts
    (Nat.mod_lt _ (by omega) : (R.active + 1) % c.sectorCount.toNat < _) (o := 0)
    (n := c.sectorSize) (by omega)
  have hb' : b = true := hb.2 (by rw [Ring.image_next hst.toFit hrest]; exact fun _ _ => rfl)
  refine ⟨e1, ?_, hr1⟩
  simp only [finishCollection, run_bind, run_store, hst.ate, hst.config, hnext, hrun, hb',
    Bool.not_true, Bool.false_eq_true, if_false]
  rfl

/-- On a part that holds a ring at rest, recovering the cursors puts them where the ring has
them, and only reads. -/
theorem run_startup (hc : c.Usable) (hpol : Flash.Polar c.eraseValue) {e : Engine}
    (h : R.Hosted c e) (hrest : R.AtRest c) :
    ∃ e', startup.run.run e = (.ok (), e') ∧ R.Stored c e' ∧
      ({ e with store := { e.store with ateCursor := R.ate c, dataCursor := R.dataEnd c } } :
        Engine).Reads e' := by
  have ha := h.active_lt
  have hn := hc.count_le
  have hS := hc.sector_le
  have h4 := hc.four_entries
  obtain ⟨e1, hloc, hr1⟩ := run_locateActive hc hpol h hrest
  have hcfg1 : e1.store.config = c := by rw [hr1.1]; exact h.config
  -- the cursors start at the top slot and at the start of the active sector
  let e2 : Engine := { e1 with store := { e1.store with
    ateCursor := (Address.at R.active c.closeOffset).minus e1.store.entrySize,
    dataCursor := (Address.at R.active c.closeOffset).sectorStart } }
  have hate2 : e2.store.ateCursor = Address.at R.active (c.slot 0) := by
    show (Address.at R.active c.closeOffset).minus e1.store.entrySize = _
    rw [Store.entrySize, hcfg1, Address.minus_at (by omega)
      (by simp only [Config.closeOffset]; omega) (by simp only [Config.closeOffset]; omega)]
    simp only [Config.closeOffset, Config.slot]
    congr 1
    omega
  have hdata2 : e2.store.dataCursor = Address.at R.active 0 :=
    Address.sectorStart_at (by omega) (by simp only [Config.closeOffset]; omega)
  have h2 : R.Hosted c e2 := (h.reads hr1).withStore hcfg1
  obtain ⟨e3, hrec, hr3⟩ := run_recoverTable hc hpol h2 hate2 hdata2
  have hst3 : R.Stored c e3 :=
    { toHosted := (h2.withStore (s := { e2.store with
        ateCursor := R.ate c, dataCursor := R.dataEnd c }) hcfg1).reads hr3
      ate := by rw [hr3.1]
      data := by rw [hr3.1] }
  -- the gap above the values is blank and so is the next sector
  obtain ⟨e4, hskip, hr4⟩ := run_skipOrphans hc hst3
  have hst4 := hst3.reads hr4
  obtain ⟨e5, hfin, hr5⟩ := run_finishCollection hc hst4 hrest
  have hsame : (e4.store.dataCursor != e3.store.dataCursor) = false := by
    rw [hr4.1, bne_self_eq_false]
  refine ⟨e5, ?_, hst4.reads hr5, ?_⟩
  · simp only [startup, run_bind, hloc, run_modifyStore]
    rw [hrec]
    simp only [gt_iff_lt, Nat.lt_irrefl, if_false, run_bind, run_store, hskip, hsame,
      Bool.false_eq_true]
    exact hfin
  · have hsame' : ({ e2.store with ateCursor := R.ate c, dataCursor := R.dataEnd c } : Store) =
        { e.store with ateCursor := R.ate c, dataCursor := R.dataEnd c } := by
      simp only [e2, hr1.1]
    have hr := (hr1.withStore { e.store with ateCursor := R.ate c, dataCursor := R.dataEnd c })
    rw [hsame'] at hr3
    exact hr.trans (hr3.trans (hr4.trans hr5))

/-- Mounting a store over a part that holds a ring at rest finds the ring again: the cursors go
where the ring has them, the store is marked mounted, and the part is only read. -/
theorem run_mount (hv : c.validate = .ok ()) (hpol : Flash.Polar c.eraseValue) {e : Engine}
    (h : R.Hosted c e) (hrest : R.AtRest c) :
    ∃ e', mount.run.run e = (.ok (), e') ∧ R.Stored c e' ∧
      e'.store = { e.store with ateCursor := R.ate c, dataCursor := R.dataEnd c, mounted := true } ∧
      e'.rig.chip = { e.rig.chip with reads := e'.rig.chip.reads } := by
  have hc := Config.usable_of_validate hv
  let e1 : Engine := { e with store := { e.store with mounted := false } }
  obtain ⟨e2, hstart, hst2, hr2⟩ := run_startup hc hpol (h.withStore (s := e1.store) h.config) hrest
  let e3 : Engine := { e2 with store := { e2.store with mounted := true } }
  have hst3 : R.Stored c e3 :=
    { toHosted := hst2.toHosted.withStore (s := e3.store) hst2.config
      ate := hst2.ate
      data := hst2.data }
  obtain ⟨e4, hlog, hq4⟩ := run_logAt .info "mounted"
    [("sector", .int e3.store.ateCursor.sector.toNat), ("ate_cursor", .text e3.store.ateCursor.render),
     ("data_cursor", .text e3.store.dataCursor.render), ("latency", .text Log.elapsed)] e3
  have hvalid : e.store.config.validate = .ok () := by rw [h.config]; exact hv
  -- past the configuration check, the mount flag is set around the startup scan
  have hobs : ∃ e5, mount.run.run e = (.ok (), e5) ∧ e4.Quiet e5 := by
    unfold mount
    apply run_observed_ok
    simp only [run_bind, run_store, hvalid, setMounted, run_modifyStore]
    rw [run_tryCatch_ok hstart]
    exact hlog
  obtain ⟨e5, hobs, hq5⟩ := hobs
  refine ⟨e5, hobs, (hst3.reads hq4.reads).reads hq5.reads, ?_, ?_⟩
  · rw [hq5.1, hq4.1]
    show ({ e2.store with mounted := true } : Store) = _
    rw [hr2.1]
  · rw [hq5.2, hq4.2]
    show e2.rig.chip = _
    rw [hr2.2]

/-! ## Resetting -/

/-- Erasing the sectors of a list, one after the other, leaves each of them blank. -/
theorem run_eraseSectors (hc : c.Usable) (op : String) : ∀ (l : List Nat) (e : Engine)
    (img : Nat → Nat → UInt8), (∀ i ∈ l, i < c.sectorCount.toNat) → e.store.config = c →
    c.Placed e.rig.chip → c.Hosts e.rig.chip img →
    ∃ e', (forIn l PUnit.unit fun i _ => do
        tryCatch (eraseSector (Address.make i.toUInt32 0)) fun f =>
          throw (Fault.store op ByteArray.empty none "" (some f))
        pure (ForInStep.yield PUnit.unit) : StoreM PUnit).run.run e = (.ok PUnit.unit, e') ∧
      e'.store = e.store ∧ c.Placed e'.rig.chip ∧
      c.Hosts e'.rig.chip (fun j o => if j ∈ l then c.eraseValue else img j o) ∧
      c.Confined e.rig.chip e'.rig.chip
  | [], e, img, _, _, hpl, hh =>
    ⟨e, rfl, rfl, hpl, hh.congr fun _ _ _ _ => by simp, Config.Confined.refl _⟩
  | i :: l, e, img, hl, hcfg, hpl, hh => by
    have hn := hc.count_le
    have hi := hl i List.mem_cons_self
    have hmake : Address.make i.toUInt32 0 = Address.at i 0 := by
      rw [Address.make_eq_at (by rw [Nat.toUInt32_eq, UInt32.toNat_ofNat', Nat.mod_eq_of_lt (by omega)]; omega)
        (by decide), Nat.toUInt32_eq, UInt32.toNat_ofNat', Nat.mod_eq_of_lt (by omega)]
      rfl
    obtain ⟨e1, herase, hs1, hpl1, hh1, -, -, -, hcf1⟩ :=
      run_eraseSector hc e hcfg hpl hh hi (o := 0) (by decide)
    obtain ⟨e2, hrest, hs2, hpl2, hh2, hcf2⟩ := run_eraseSectors hc op l e1 _
      (fun j hj => hl j (List.mem_cons_of_mem _ hj)) (by rw [hs1]; exact hcfg) hpl1 hh1
    refine ⟨e2, ?_, hs2.trans hs1, hpl2, hh2.congr fun j _ o _ => ?_, hcf1.trans hcf2⟩
    · rw [List.forIn_cons, run_bind, run_bind, hmake, run_tryCatch_ok herase]
      exact hrest
    · by_cases hj : j = i
      · subst hj
        simp
      · simp [hj]

end StoreM

namespace Ring

variable {c : Config}

/-- The ring with nothing in it, active at sector `0`. -/
def empty : Ring :=
  ⟨0, [], []⟩

/-- An empty ring is blank everywhere. -/
theorem image_empty (j : Nat) : empty.image c j = fun _ => c.eraseValue := by
  unfold image
  cases c.distance empty.active j with
  | zero => rfl
  | succ b => rfl

theorem fit_empty (hc : c.Usable) : empty.Fit c where
  active_lt := by have := hc.count_ge; show 0 < _; omega
  span := by have := hc.count_ge; show 0 < _; omega
  current := Config.fits_nil hc
  closed := by simp [empty]
  keys := by simp [empty, records]

theorem atRest_empty (hc : c.Usable) : empty.AtRest c where
  settled := by have := hc.count_ge; show 0 + 2 ≤ _; omega
  found _ := .inl rfl

end Ring

namespace StoreM

variable {c : Config}

/-- Resetting erases every sector and mounts the blank region, whatever it held: the store then
holds the empty ring and is mounted. -/
theorem run_reset (hc : c.Usable) (hpol : Flash.Polar c.eraseValue) {e : Engine}
    (hcfg : e.store.config = c) (hpl : c.Placed e.rig.chip) (op : String) :
    ∃ e', (reset op).run.run e = (.ok (), e') ∧ Ring.empty.Stored c e' ∧
      e'.store = { e.store with
        ateCursor := Ring.empty.ate c, dataCursor := Ring.empty.dataEnd c, mounted := true } ∧
      c.Confined e.rig.chip e'.rig.chip := by
  let e1 : Engine := { e with store := { e.store with mounted := false } }
  -- every sector is erased, so the part holds the empty ring
  obtain ⟨e2, hloop, hs2, hpl2, hh2, hcf2⟩ := run_eraseSectors hc op
    (List.range e.store.config.sectorCount.toNat) e1
    (fun j o => e.rig.chip.cells.get! (c.offset.toNat + j * c.sectorSize.toNat + o))
    (fun i hi => hcfg ▸ List.mem_range.1 hi) hcfg hpl (fun _ _ _ _ => rfl)
  have h2 : Ring.empty.Hosted c e2 :=
    { toFit := Ring.fit_empty hc
      config := by rw [hs2]; exact hcfg
      placed := hpl2
      hosts := hh2.congr fun j hj o _ => by
        rw [if_pos (List.mem_range.2 (hcfg ▸ hj)), Ring.image_empty] }
  obtain ⟨e3, hstart, hst3, hr3⟩ := run_startup hc hpol h2 (Ring.atRest_empty hc)
  let e4 : Engine := { e3 with store := { e3.store with mounted := true } }
  have hst4 : Ring.empty.Stored c e4 :=
    { toHosted := hst3.toHosted.withStore (s := e4.store) hst3.config
      ate := hst3.ate
      data := hst3.data }
  obtain ⟨e5, hlog, hq5⟩ := run_logAt .info "erased all sectors" [("operation", .text op)] e4
  refine ⟨e5, ?_, hst4.reads hq5.reads, ?_, hcf2.trans (hr3.confined.trans hq5.reads.confined)⟩
  · simp only [reset, run_bind, run_store, setMounted, run_modifyStore]
    rw [hloop]
    simp only
    rw [run_tryCatch_ok hstart]
    exact hlog
  · rw [hq5.1]
    show ({ e3.store with mounted := true } : Store) = _
    rw [hr3.1, hs2]

/-- Clearing a mounted store leaves it holding the empty ring, mounted. -/
theorem run_clear (hc : c.Usable) (hpol : Flash.Polar c.eraseValue) {e : Engine}
    (hcfg : e.store.config = c) (hpl : c.Placed e.rig.chip) (hm : e.store.mounted = true) :
    ∃ e', clear.run.run e = (.ok (), e') ∧ Ring.empty.Stored c e' ∧
      e'.store = { e.store with
        ateCursor := Ring.empty.ate c, dataCursor := Ring.empty.dataEnd c, mounted := true } ∧
      c.Confined e.rig.chip e'.rig.chip := by
  obtain ⟨e1, hreset, hst1, hs1, hcf1⟩ := run_reset hc hpol hcfg hpl "clear"
  have hobs : ∃ e2, clear.run.run e = (.ok (), e2) ∧ e1.Quiet e2 := by
    unfold clear
    apply run_observed_ok
    simpa only [run_bind, run_store, hm, Bool.not_true, Bool.false_eq_true, if_false] using hreset
  obtain ⟨e2, hobs, hq2⟩ := hobs
  exact ⟨e2, hobs, hst1.reads hq2.reads, by rw [hq2.1, hs1], hcf1.trans hq2.reads.confined⟩

/-- Formatting leaves the store holding the empty ring, mounted, whatever the region held. -/
theorem run_format (hv : c.validate = .ok ()) (hpol : Flash.Polar c.eraseValue) {e : Engine}
    (hcfg : e.store.config = c) (hpl : c.Placed e.rig.chip) :
    ∃ e', format.run.run e = (.ok (), e') ∧ Ring.empty.Stored c e' ∧
      e'.store = { e.store with
        ateCursor := Ring.empty.ate c, dataCursor := Ring.empty.dataEnd c, mounted := true } ∧
      c.Confined e.rig.chip e'.rig.chip := by
  obtain ⟨e1, hreset, hst1, hs1, hcf1⟩ := run_reset (Config.usable_of_validate hv) hpol hcfg hpl "format"
  have hvalid : e.store.config.validate = .ok () := by rw [hcfg]; exact hv
  have hobs : ∃ e2, format.run.run e = (.ok (), e2) ∧ e1.Quiet e2 := by
    unfold format
    apply run_observed_ok
    simpa only [run_bind, run_store, hvalid] using hreset
  obtain ⟨e2, hobs, hq2⟩ := hobs
  exact ⟨e2, hobs, hst1.reads hq2.reads, by rw [hq2.1, hs1], hcf1.trans hq2.reads.confined⟩

end StoreM

end NorStore
