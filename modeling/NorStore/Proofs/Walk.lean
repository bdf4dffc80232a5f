import NorStore.Proofs.Ring

/-!
# Walking a ring

Every lookup walks the table from the entry cursor back to the oldest entry: up through the
slots of a sector, and from its lowest slot to the newest entry of the sector before, which
that sector's close entry names. This module follows such a walk over a part that holds a ring.

* `Config.slotIn` is what a slot reads as. The slot of a record reads as its entry
  (`slotIn_entry`), the close slot of a closed sector as its close entry (`slotIn_close`), and
  the free slot, the close slot of the active sector and every slot of a blank sector as erased.
* `Ring.Steps c R x s y` says that `stepBack` at `x` reads `s` and moves on to `y`, for every
  engine that stores `R`. Inside a sector it moves one slot up (`steps_up`); from the lowest
  slot it moves to the sector before, or back to the entry cursor when that sector was never
  closed (`steps_bottom_open`, `steps_bottom_closed`).
* A `Site` is where a record lies. `Ring.trail` lists what a walk sees: the free slot at the
  entry cursor, then every site newest first. `chain_trail` shows that each step of the walk
  leads from one element of the trail to the next and from the last back to the entry cursor.
-/

namespace NorStore

namespace Config

variable (c : Config)

/-- What the table slot at offset `o` of a sector holding `f` reads as. -/
def slotIn (f : Nat → UInt8) (o : Nat) : Slot :=
  Slot.classify ⟨(Sector.slice f o c.entrySize.toNat).toArray⟩ c.eraseValue

variable {c}

section Slots

variable (hc : c.Usable) (hpol : Flash.Polar c.eraseValue)
include hc hpol

/-- The slot of a record reads as its entry. -/
theorem slotIn_entry {pre rs : List Record} {r : Record} (h : c.Fits (pre ++ r :: rs))
    (hk : r.key ≠ Entry.closeKey) :
    c.slotIn (c.layout (pre ++ r :: rs)) (c.slot rs.length) = .valid (r.entry (c.dataEnd rs)) :=
  Slot.classify_of_encode (by rw [ByteArray.toList_mk_toArray]; exact slice_layout_entry hc h)
    (Entry.crcValid_sealed _) (Entry.exists_ne_of_polar hpol rfl (Or.inl hk))

/-- The close slot of a closed sector reads as its close entry. -/
theorem slotIn_close {rs : List Record} (h : c.Fits rs) :
    c.slotIn (c.closedLayout rs) c.closeOffset = .valid (closeEntry (c.slot (rs.length - 1))) :=
  Slot.classify_of_encode (by rw [ByteArray.toList_mk_toArray]; exact slice_closedLayout_close hc h)
    (Entry.crcValid_sealed _) (Entry.exists_ne_of_polar hpol rfl (Or.inr rfl))

omit hc hpol in
/-- A slot of erase-value bytes reads as erased. -/
theorem slotIn_blank {f : Nat → UInt8} {o : Nat} (h : Sector.Blank f c.eraseValue o c.entrySize.toNat) :
    c.slotIn f o = .erased := by
  apply Slot.classify_of_blank
  rw [ByteArray.toList_mk_toArray, Sector.slice_eq_replicate h]
  intro b hb
  exact List.eq_of_mem_replicate hb

omit hpol in
/-- The free slot of a sector reads as erased. -/
theorem slotIn_free {rs : List Record} (h : c.Fits rs) :
    c.slotIn (c.layout rs) (c.slot rs.length) = .erased := by
  apply slotIn_blank
  exact (blank_layout_gap hc h).mono h.dataEnd_le (by omega)

end Slots

end Config

namespace Store

variable {s : Store} {c : Config}

theorem closeSlot_toNat (hs : s.config = c) (hc : c.Usable) : s.closeSlot.toNat = c.closeOffset := by
  have := hc.four_entries
  rw [closeSlot, entrySize, hs, UInt32.toNat_sub_of_le _ _ (UInt32.le_iff_toNat_le.2 (by omega))]
  rfl

/-- A close entry naming slot `i` of a sector is one the walk follows. -/
theorem closeOffsetValid_slot (hs : s.config = c) (hc : c.Usable) {i : Nat}
    (hi : (i + 2) * c.entrySize.toNat ≤ c.sectorSize.toNat) :
    s.closeOffsetValid (c.slot i).toUInt16 = true := by
  have hS := hc.sector_le
  have hE : 30 ≤ c.entrySize.toNat := hc.entry_ge
  have hslot : (c.slot i).toUInt16.toUInt32.toNat = c.slot i := by
    rw [UInt16.toNat_toUInt32, Nat.toUInt16_eq, UInt16.toNat_ofNat', Nat.mod_eq_of_lt (by
      simp only [Config.slot]; omega)]
  have hsub : c.sectorSize.toNat - c.slot i = (i + 2) * c.entrySize.toNat := by
    simp only [Config.slot]; omega
  have hlt : c.slot i < c.closeOffset := by
    have : 2 * c.entrySize.toNat ≤ (i + 2) * c.entrySize.toNat := Nat.mul_le_mul_right _ (by omega)
    simp only [Config.slot, Config.closeOffset]; omega
  simp only [closeOffsetValid, Bool.and_eq_true, decide_eq_true_eq, beq_iff_eq]
  constructor
  · rw [UInt32.lt_iff_toNat_lt, hslot, closeSlot_toNat hs hc]
    exact hlt
  · apply UInt32.toNat_inj.1
    rw [UInt32.toNat_mod, UInt32.toNat_sub_of_le _ _ (UInt32.le_iff_toNat_le.2 (by
      rw [hslot, hs]; simp only [Config.slot]; omega)), hslot, hs, entrySize, hs, hsub, Nat.mul_mod_left]
    rfl

end Store

namespace StoreM

variable {c : Config} {R : Ring} {e : Engine}

/-- A slot read back from a part that holds a ring. -/
theorem run_readSlot_image (hc : c.Usable) (h : R.Hosted c e) {j o : Nat}
    (hj : j < c.sectorCount.toNat) (ho : o + c.entrySize.toNat ≤ c.sectorSize.toNat) :
    ∃ e', (readSlot (Address.at j o)).run.run e = (.ok (c.slotIn (R.image c j) o), e') ∧
      e.Reads e' := by
  obtain ⟨raw, e', hrun, hr, hraw⟩ := run_readSlot hc h.config h.placed h.hosts hj ho
  refine ⟨e', ?_, hr⟩
  rw [hrun, ByteArray.eq_mk_of_toList hraw]
  rfl

end StoreM

namespace Ring

/-- From address `x`, `stepBack` reads the slot there as `s` and moves on to `y`, and only
counts reads. -/
def Steps (c : Config) (R : Ring) (x : Address) (s : Slot) (y : Address) : Prop :=
  ∀ e, R.Stored c e → ∃ e', (StoreM.stepBack x).run.run e = (.ok (s, y), e') ∧ e.Reads e'

variable {c : Config} {R : Ring}

section Steps

variable (hc : c.Usable)
include hc

/-- Inside a sector the walk moves one slot up. -/
theorem steps_up {j i : Nat} (hj : j < c.sectorCount.toNat) (hi : 0 < i)
    (hiS : (i + 2) * c.entrySize.toNat ≤ c.sectorSize.toNat) :
    R.Steps c (Address.at j (c.slot i)) (c.slotIn (R.image c j) (c.slot i))
      (Address.at j (c.slot (i - 1))) := by
  intro e hst
  have hS := hc.sector_le
  have hn := hc.count_le
  have hE : 30 ≤ c.entrySize.toNat := hc.entry_ge
  -- the slot above lies one entry higher, and below the close slot
  have hstep : (i + 2) * c.entrySize.toNat = (i - 1 + 2) * c.entrySize.toNat + c.entrySize.toNat := by
    rw [← Nat.succ_mul]
    congr 1
    omega
  have htwo : 2 * c.entrySize.toNat ≤ (i - 1 + 2) * c.entrySize.toNat :=
    Nat.mul_le_mul_right _ (by omega)
  obtain ⟨e1, hread, hr1⟩ := StoreM.run_readSlot_image hc hst.toHosted hj (o := c.slot i)
    (by simp only [Config.slot]; omega)
  refine ⟨e1, ?_, hr1⟩
  have hcfg : e1.store.config = c := by rw [hr1.1]; exact hst.config
  have hnext : (Address.at j (c.slot i)).plus e1.store.entrySize = Address.at j (c.slot (i - 1)) := by
    rw [Store.entrySize, hcfg, Address.plus_at (by omega) (by simp only [Config.slot]; omega)]
    congr 1
    simp only [Config.slot]
    omega
  have hoff : ((Address.at j (c.slot (i - 1))).offset != e1.store.closeSlot) = true := by
    rw [bne_iff_ne, ne_eq, ← UInt32.toNat_inj, Address.offset_at (by omega)
      (by simp only [Config.slot]; omega), Store.closeSlot_toNat hcfg hc]
    simp only [Config.slot, Config.closeOffset]
    omega
  simp only [StoreM.stepBack, run_bind, hread, StoreM.run_store, hnext, hoff, if_true]
  rfl

/-- From the lowest slot of sector `j` the walk looks at the close slot of the sector before. -/
theorem bottom_next {s : Store} (hs : s.config = c) {j : Nat} (hj : j < c.sectorCount.toNat) :
    (Address.at j (c.slot 0)).plus s.entrySize = Address.at j c.closeOffset ∧
      ((Address.at j c.closeOffset).offset != s.closeSlot) = false ∧
      (Address.at j c.closeOffset).retreat s.config.sectorCount =
        Address.at ((j + c.sectorCount.toNat - 1) % c.sectorCount.toNat) c.closeOffset := by
  have hS := hc.sector_le
  have hn := hc.count_le
  have h4 := hc.four_entries
  refine ⟨?_, ?_, ?_⟩
  · rw [Store.entrySize, hs, Address.plus_at (by omega) (by simp only [Config.slot]; omega)]
    congr 1
    simp only [Config.slot, Config.closeOffset]
    omega
  · rw [bne_eq_false_iff_eq, ← UInt32.toNat_inj, Address.offset_at (by omega)
      (by simp only [Config.closeOffset]; omega), Store.closeSlot_toNat hs hc]
  · rw [hs, Address.retreat_at hj hn (by simp only [Config.closeOffset]; omega)]

/-- From the lowest slot of a sector whose predecessor is not closed, the walk is back at the
entry cursor. -/
theorem steps_bottom_open {j : Nat} (hj : j < c.sectorCount.toNat)
    (hp : c.slotIn (R.image c ((j + c.sectorCount.toNat - 1) % c.sectorCount.toNat))
      c.closeOffset = .erased) :
    R.Steps c (Address.at j (c.slot 0)) (c.slotIn (R.image c j) (c.slot 0)) (R.ate c) := by
  intro e hst
  have h4 := hc.four_entries
  obtain ⟨e1, hread1, hr1⟩ := StoreM.run_readSlot_image hc hst.toHosted hj (o := c.slot 0)
    (by simp only [Config.slot]; omega)
  have hcfg : e1.store.config = c := by rw [hr1.1]; exact hst.config
  obtain ⟨hnext, hoff, hprev⟩ := bottom_next hc hcfg hj
  obtain ⟨e2, hread2, hr2⟩ := StoreM.run_readSlot_image hc (hst.reads hr1).toHosted
    (Nat.mod_lt _ (by omega) : (j + c.sectorCount.toNat - 1) % c.sectorCount.toNat < _)
    (o := c.closeOffset) (by simp only [Config.closeOffset]; omega)
  refine ⟨e2, ?_, hr1.trans hr2⟩
  simp only [StoreM.stepBack, run_bind, hread1, StoreM.run_store, hnext, hoff, hprev,
    Bool.false_eq_true, if_false, hread2, hp]
  rw [(hst.reads hr1).ate]
  rfl

/-- From the lowest slot of a sector whose predecessor was closed on `m` records, the walk goes
to the newest of them. -/
theorem steps_bottom_closed {j m : Nat} (hj : j < c.sectorCount.toNat) (hm : 0 < m)
    (hmS : (m + 1) * c.entrySize.toNat ≤ c.sectorSize.toNat)
    (hp : c.slotIn (R.image c ((j + c.sectorCount.toNat - 1) % c.sectorCount.toNat))
      c.closeOffset = .valid (closeEntry (c.slot (m - 1)))) :
    R.Steps c (Address.at j (c.slot 0)) (c.slotIn (R.image c j) (c.slot 0))
      (Address.at ((j + c.sectorCount.toNat - 1) % c.sectorCount.toNat) (c.slot (m - 1))) := by
  intro e hst
  have h4 := hc.four_entries
  have hS := hc.sector_le
  have hn := hc.count_le
  have hp' : (j + c.sectorCount.toNat - 1) % c.sectorCount.toNat < c.sectorCount.toNat :=
    Nat.mod_lt _ (by omega)
  have hm' : (m - 1 + 2) * c.entrySize.toNat ≤ c.sectorSize.toNat := by
    rw [show m - 1 + 2 = m + 1 by omega]
    exact hmS
  obtain ⟨e1, hread1, hr1⟩ := StoreM.run_readSlot_image hc hst.toHosted hj (o := c.slot 0)
    (by simp only [Config.slot]; omega)
  have hcfg : e1.store.config = c := by rw [hr1.1]; exact hst.config
  obtain ⟨hnext, hoff, hprev⟩ := bottom_next hc hcfg hj
  obtain ⟨e2, hread2, hr2⟩ := StoreM.run_readSlot_image hc (hst.reads hr1).toHosted hp'
    (o := c.closeOffset) (by simp only [Config.closeOffset]; omega)
  have hvalid := Store.closeOffsetValid_slot hcfg hc hm'
  refine ⟨e2, ?_, hr1.trans hr2⟩
  -- the close entry names the slot by its offset inside the sector
  have htop : (Address.at ((j + c.sectorCount.toNat - 1) % c.sectorCount.toNat)
      c.closeOffset).sectorStart.plus (c.slot (m - 1)).toUInt16.toUInt32 =
      Address.at ((j + c.sectorCount.toNat - 1) % c.sectorCount.toNat) (c.slot (m - 1)) := by
    have hslot : (c.slot (m - 1)).toUInt16.toUInt32.toNat = c.slot (m - 1) := by
      rw [UInt16.toNat_toUInt32, Nat.toUInt16_eq, UInt16.toNat_ofNat', Nat.mod_eq_of_lt (by
        simp only [Config.slot]; omega)]
    rw [Address.sectorStart_at (by omega) (by simp only [Config.closeOffset]; omega),
      Address.plus_at (by omega) (by rw [hslot]; simp only [Config.slot]; omega), hslot,
      Nat.zero_add]
  simp only [StoreM.stepBack, run_bind, hread1, StoreM.run_store, hnext, hoff, hprev,
    Bool.false_eq_true, if_false, hread2, hp, closeEntry, Entry.sealed]
  rw [if_pos hvalid]
  simp only [htop]
  rfl

end Steps

end Ring

/-- A record where the ring keeps it: its sector, the index of its table slot and the offset
of its value. -/
structure Site where
  /-- The record. -/
  record : Record
  /-- The sector holding it. -/
  sector : Nat
  /-- The index of its table slot. -/
  index : Nat
  /-- The offset of its value. -/
  data : Nat

namespace Site

/-- The entry the store wrote for the record. -/
def entry (s : Site) : Entry :=
  s.record.entry s.data

/-- The address of the record's table slot. -/
def addr (c : Config) (s : Site) : Address :=
  Address.at s.sector (c.slot s.index)

/-- What a walk sees at the record: its entry, at its slot. -/
def visit (c : Config) (s : Site) : Slot × Address :=
  (.valid s.entry, s.addr c)

end Site

/-- The sites of the records `rs` of sector `j`, newest first. -/
def Config.sites (c : Config) (j : Nat) : List Record → List Site
  | [] => []
  | r :: rs => ⟨r, j, rs.length, c.dataEnd rs⟩ :: c.sites j rs

namespace Ring

/-- The sites of the closed sectors `rss`, the first of them `b` sectors back from `a`. -/
def closedSites (c : Config) (a : Nat) : Nat → List (List Record) → List Site
  | _, [] => []
  | b, rs :: rss => c.sites (c.behind a b) rs ++ closedSites c a (b + 1) rss

/-- The sites of all records of the ring, newest first. -/
def sites (c : Config) (R : Ring) : List Site :=
  c.sites R.active R.current ++ closedSites c R.active 1 R.closed

/-- What a walk from the entry cursor sees: the free slot, then every record. -/
def trail (c : Config) (R : Ring) : List (Slot × Address) :=
  (.erased, R.ate c) :: (R.sites c).map (Site.visit c)

/-- Where a walk is after the slots `l`: at the first of them, or at `stop` if there are none. -/
def headAddr (l : List (Slot × Address)) (stop : Address) : Address :=
  match l with
  | [] => stop
  | p :: _ => p.2

/-- Each slot of `l` leads the walk to the next one, and the last to `stop`. -/
def Chain (c : Config) (R : Ring) : List (Slot × Address) → Address → Prop
  | [], _ => True
  | p :: l, stop => R.Steps c p.2 p.1 (headAddr l stop) ∧ R.Chain c l stop

variable {c : Config} {R : Ring}

theorem headAddr_append (l1 l2 : List (Slot × Address)) (stop : Address) :
    headAddr (l1 ++ l2) stop = headAddr l1 (headAddr l2 stop) := by
  cases l1 <;> rfl

theorem chain_append {l1 l2 : List (Slot × Address)} {stop : Address} :
    R.Chain c (l1 ++ l2) stop ↔ R.Chain c l1 (headAddr l2 stop) ∧ R.Chain c l2 stop := by
  induction l1 with
  | nil => simp [Chain]
  | cons p l1 ih =>
    simp only [List.cons_append, Chain, headAddr_append, ih, and_assoc]

theorem map_record_sites (c : Config) (j : Nat) (rs : List Record) :
    (c.sites j rs).map Site.record = rs := by
  induction rs with
  | nil => rfl
  | cons r rs ih => simp [Config.sites, ih]

private theorem getElem?_of_drop {l : List (List Record)} {b : Nat} {x : List Record}
    {xs : List (List Record)} (hd : l.drop b = x :: xs) : l[b]? = some x ∧ l.drop (b + 1) = xs := by
  constructor
  · have h0 : (l.drop b)[0]? = some x := by rw [hd]; rfl
    rwa [List.getElem?_drop, Nat.add_zero] at h0
  · rw [← List.drop_drop, hd]
    rfl

section Chains

variable (hc : c.Usable) (hpol : Flash.Polar c.eraseValue)
include hc hpol

/-- The records of one sector lead the walk up its table, from the newest to the oldest and
then to `exit`. The sector holds the layout of `full`, of which `rs` are the oldest records. -/
theorem chain_sites {j : Nat} (hj : j < c.sectorCount.toNat) {full : List Record}
    (hfit : c.Fits full) (hkeys : ∀ r ∈ full, r.key ≠ Entry.closeKey)
    (himg : ∀ i < full.length,
      c.slotIn (R.image c j) (c.slot i) = c.slotIn (c.layout full) (c.slot i))
    {exit : Address}
    (hexit : R.Steps c (Address.at j (c.slot 0)) (c.slotIn (R.image c j) (c.slot 0)) exit) :
    ∀ (rs pre : List Record), full = pre ++ rs →
      R.Chain c ((c.sites j rs).map (Site.visit c)) exit := by
  intro rs
  induction rs with
  | nil => intro _ _; trivial
  | cons r rs ih =>
    intro pre hfull
    have hlen : rs.length < full.length := by rw [hfull]; simp; omega
    have hcontent : c.slotIn (R.image c j) (c.slot rs.length) = .valid (r.entry (c.dataEnd rs)) := by
      rw [himg _ hlen, hfull]
      exact Config.slotIn_entry hc hpol (hfull ▸ hfit) (hkeys r (by rw [hfull]; simp))
    refine ⟨?_, ih (pre ++ [r]) (by rw [hfull]; simp)⟩
    show R.Steps c (Address.at j (c.slot rs.length)) (.valid (r.entry (c.dataEnd rs)))
      (headAddr ((c.sites j rs).map (Site.visit c)) exit)
    rw [← hcontent]
    cases rs with
    | nil => exact hexit
    | cons r' rs' =>
      have hup := steps_up hc (R := R) hj (i := rs'.length + 1) (by omega)
        (hfit.mul_le (by simp at hlen; omega))
      simpa [Config.sites, headAddr, Site.visit, Site.addr] using hup

/-- The lowest slot of the active sector or of a closed one leads the walk to the newest record
of the closed sector before it, or, when there is none, back to the entry cursor. -/
theorem steps_exit (hR : R.Fit c) {b : Nat} (hb : b ≤ R.closed.length) :
    R.Steps c (Address.at (c.behind R.active b) (c.slot 0))
      (c.slotIn (R.image c (c.behind R.active b)) (c.slot 0))
      (headAddr ((closedSites c R.active (b + 1) (R.closed.drop b)).map (Site.visit c))
        (R.ate c)) := by
  have ha := hR.active_lt
  have hspan := hR.span
  have hbn : b < c.sectorCount.toNat := by omega
  have hprev : (c.behind R.active b + c.sectorCount.toNat - 1) % c.sectorCount.toNat =
      c.behind R.active (b + 1) := (Config.behind_succ ha hbn).symm
  cases hd : R.closed.drop b with
  | nil =>
    apply steps_bottom_open hc (Config.behind_lt ha)
    rw [hprev]
    have hlen : R.closed.length ≤ b := List.drop_eq_nil_iff.1 hd
    by_cases hn : b + 1 < c.sectorCount.toNat
    · rw [image_blank hR hlen hn]
      exact Config.slotIn_blank fun _ _ => rfl
    · -- all the way round: the sector before is the active one, whose close slot is free
      have hround : c.behind R.active (b + 1) = R.active := by
        rw [show b + 1 = c.sectorCount.toNat by omega]
        unfold Config.behind
        simp [Nat.mod_eq_of_lt ha]
      rw [hround, image_active]
      exact Config.slotIn_blank (Config.blank_layout_close hc hR.current)
  | cons rs rest =>
    have hget := (getElem?_of_drop hd).1
    obtain ⟨hfit, hne⟩ := hR.closed rs (List.mem_of_getElem? hget)
    obtain ⟨r0, rs0, rfl⟩ := List.exists_cons_of_ne_nil hne
    have hstep := steps_bottom_closed hc (R := R) (Config.behind_lt ha) (m := rs0.length + 1)
      (by omega) (hfit.mul_le (k := rs0.length + 1 + 1) (by simp)) (by
        rw [hprev, image_closed hR hget]
        exact Config.slotIn_close hc hpol hfit)
    rw [hprev] at hstep
    simpa [closedSites, Config.sites, headAddr, Site.visit, Site.addr] using hstep

/-- The closed sectors from `b + 1` back lead the walk through all their records and then back
to the entry cursor. -/
theorem chain_closedSites (hR : R.Fit c) : ∀ (rss : List (List Record)) (b : Nat),
    R.closed.drop b = rss →
      R.Chain c ((closedSites c R.active (b + 1) rss).map (Site.visit c)) (R.ate c)
  | [], _, _ => trivial
  | rs :: rss, b, hd => by
    have ha := hR.active_lt
    obtain ⟨hget, hd'⟩ := getElem?_of_drop hd
    have hmem := List.mem_of_getElem? hget
    have hb : b + 1 ≤ R.closed.length := by
      have := (List.getElem?_eq_some_iff.1 hget).1
      omega
    obtain ⟨hfit, -⟩ := hR.closed rs hmem
    rw [closedSites, List.map_append, chain_append]
    refine ⟨?_, chain_closedSites hR rss (b + 1) hd'⟩
    have hexit := steps_exit hc hpol hR hb
    rw [hd'] at hexit
    have hkeys : ∀ r ∈ rs, r.key ≠ Entry.closeKey := by
      intro r hr
      apply hR.keys r
      simp only [records, List.mem_append, List.mem_flatten]
      exact Or.inr ⟨rs, hmem, hr⟩
    refine chain_sites hc hpol (Config.behind_lt ha) hfit hkeys (fun i hi => ?_) hexit rs [] rfl
    rw [image_closed hR hget]
    unfold Config.slotIn
    rw [Config.slice_closedLayout (by
      have := hfit.mul_le (k := i + 2) (by omega)
      simp only [Config.slot, Config.closeOffset]
      have : 2 * c.entrySize.toNat ≤ (i + 2) * c.entrySize.toNat := Nat.mul_le_mul_right _ (by omega)
      omega)]

/-- The whole walk from the entry cursor: the free slot, every record, and back. -/
theorem chain_trail (hR : R.Fit c) : R.Chain c (R.trail c) (R.ate c) := by
  have ha := hR.active_lt
  have hcur := hR.current
  have hfree : c.slotIn (R.image c R.active) (c.slot R.current.length) = .erased := by
    rw [image_active]
    exact Config.slotIn_free hc hcur
  have hexit := steps_exit hc hpol hR (Nat.zero_le _)
  rw [Config.behind_zero ha, List.drop_zero] at hexit
  refine ⟨?_, ?_⟩
  · -- the free slot leads to the newest record of the active sector, or on out of it
    show R.Steps c (R.ate c) .erased _
    rw [← hfree, sites, List.map_append, headAddr_append]
    rcases R with ⟨a, cur, closed⟩
    cases cur with
    | nil => simpa [Config.sites, headAddr, ate] using hexit
    | cons r rs =>
      have hup := steps_up hc (R := ⟨a, r :: rs, closed⟩) ha (i := rs.length + 1) (by omega)
        (hcur.mul_le (by simp))
      simpa [Config.sites, headAddr, Site.visit, Site.addr, ate] using hup
  · rw [sites, List.map_append, chain_append]
    refine ⟨chain_sites hc hpol ha hcur (fun r hr => hR.keys r (List.mem_append_left _ hr))
      (fun i _ => by rw [image_active]) hexit R.current [] rfl, ?_⟩
    exact chain_closedSites hc hpol hR R.closed 0 List.drop_zero

end Chains

end Ring

end NorStore
