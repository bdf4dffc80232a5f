import NorStore.Proofs.Space

/-!
# The ring on the part, and mounting it again

What a store at rest leaves on its part, read back byte by byte through `Config.sectorOn`, and
what a new store mounted over that part finds.

*The arc of closed sectors.* A sector is closed when its close slot does not read as erased.
Those are the sectors one to `closed.length` back from the active sector (`Ring.IsClosed`), and
a ring at rest keeps two sectors out of them: the active one and the one after it, which holds
nothing but the erase value (`Ring.image_next`).

*Closed tables.* The close slot of a closed sector holds a close entry, valid by its checksum,
naming the slot of the sector's newest entry: every slot from the top down to that one holds an
entry, and the slot under it reads as erased (`Ring.closed_table`).

*Cursors.* The entry cursor is the free slot of the active sector and the data cursor the end of
its values: both in the active sector, at offsets of whole write blocks, the data cursor not past
the entry cursor (`Ring.Stored.cursors`).

*Main statement* (`Session.Reachable.ring_on_part`): every session a client reaches leaves its
part so, and a new store mounted over the part succeeds, only reads, and finds both cursors
where `stat` reports them.
-/

namespace NorStore

/-- The bytes of sector `j` of the region, as the part holds them. -/
def Config.sectorOn (c : Config) (chip : Flash.Chip) (j : Nat) : Nat → UInt8 :=
  fun o => chip.cells.get! (c.offset.toNat + j * c.sectorSize.toNat + o)

namespace Config

variable {c : Config}

/-- Each slot of an open sector from the top down to its newest entry reads as a valid entry. -/
theorem slotIn_layout_valid (hc : c.Usable) (hpol : Flash.Polar c.eraseValue)
    {rs : List Record} (h : c.Fits rs) (hkeys : ∀ r ∈ rs, r.key ≠ Entry.closeKey) {k : Nat}
    (hk : k < rs.length) : ∃ en, c.slotIn (c.layout rs) (c.slot k) = .valid en := by
  -- the record in slot `k` has `k` older records after it
  obtain ⟨pre, r, post, rfl, hpost⟩ : ∃ pre r post, rs = pre ++ r :: post ∧ post.length = k := by
    refine ⟨rs.take (rs.length - 1 - k), rs[rs.length - 1 - k],
      rs.drop (rs.length - 1 - k + 1), ?_, ?_⟩
    · rw [← List.drop_eq_getElem_cons, List.take_append_drop]
    · rw [List.length_drop]
      omega
  rw [← hpost]
  exact ⟨_, slotIn_entry hc hpol h (hkeys r (List.mem_append_right _ List.mem_cons_self))⟩

end Config

namespace Ring

variable {c : Config} {R : Ring} {e : Engine}

/-- A slot of a sector on a part that hosts a ring reads as the same slot of the ring's image. -/
theorem slotIn_sectorOn (hh : R.Hosted c e) {j o : Nat} (hj : j < c.sectorCount.toNat)
    (ho : o + c.entrySize.toNat ≤ c.sectorSize.toNat) :
    c.slotIn (c.sectorOn e.rig.chip j) o = c.slotIn (R.image c j) o := by
  have hslice : Sector.slice (c.sectorOn e.rig.chip j) o c.entrySize.toNat =
      Sector.slice (R.image c j) o c.entrySize.toNat :=
    Sector.slice_congr fun i hi => hh.hosts j hj (o + i) (by omega)
  unfold Config.slotIn
  rw [hslice]

/-- On a part that hosts a ring, a close slot does not read as erased exactly when its sector is
closed. -/
theorem closeSlot_on_part (hc : c.Usable) (hpol : Flash.Polar c.eraseValue) (hh : R.Hosted c e)
    {j : Nat} (hj : j < c.sectorCount.toNat) :
    c.slotIn (c.sectorOn e.rig.chip j) c.closeOffset ≠ .erased ↔ R.IsClosed c j := by
  have h4 := hc.four_entries
  rw [slotIn_sectorOn hh hj (by unfold Config.closeOffset; omega), Ne,
    slotIn_closeOffset hc hpol hh.toFit j, not_not]

/-- The close entry of a closed sector names the slot of its newest entry: every slot from the
top down to that one holds an entry, and the slot under it reads as erased. -/
theorem closed_table (hc : c.Usable) (hpol : Flash.Polar c.eraseValue) (hR : R.Fit c) {j : Nat}
    (hj : j < c.sectorCount.toNat) (hcl : R.IsClosed c j) :
    ∃ i, c.slotIn (R.image c j) c.closeOffset = .valid (closeEntry (c.slot i)) ∧
      (∀ k ≤ i, ∃ en, c.slotIn (R.image c j) (c.slot k) = .valid en) ∧
      c.slotIn (R.image c j) (c.slot (i + 1)) = .erased := by
  obtain ⟨hpos, hle⟩ := hcl
  -- sector `j` is `d + 1` back, where the ring keeps its `d`-th closed sector
  obtain ⟨d, hd⟩ : ∃ d, c.distance R.active j = d + 1 := ⟨_, (Nat.succ_pred_eq_of_pos hpos).symm⟩
  have hdl : d < R.closed.length := by omega
  have himg : R.image c j = c.closedLayout R.closed[d] := by
    rw [← Config.behind_distance hR.active_lt hj, hd]
    exact image_closed hR (List.getElem?_eq_getElem hdl)
  have hmem : R.closed[d] ∈ R.closed := List.getElem_mem hdl
  obtain ⟨hfit, hne⟩ := hR.closed _ hmem
  have hkeys : ∀ r ∈ R.closed[d], r.key ≠ Entry.closeKey := fun r hr =>
    hR.keys r (List.mem_append_right _ (List.mem_flatten.2 ⟨_, hmem, hr⟩))
  have hlen : 0 < R.closed[d].length := List.length_pos_iff.2 hne
  -- a slot at or above the free one lies under the close slot
  have hbelow : ∀ k ≤ R.closed[d].length, c.slot k + c.entrySize.toNat ≤ c.closeOffset := by
    intro k hk
    have hk2 := hfit.mul_le (k := k + 2) (by omega)
    have h2 : 2 * c.entrySize.toNat ≤ (k + 2) * c.entrySize.toNat :=
      Nat.mul_le_mul_right _ (by omega)
    unfold Config.slot Config.closeOffset
    omega
  refine ⟨R.closed[d].length - 1, ?_, fun k hk => ?_, ?_⟩
  · rw [himg]
    exact Config.slotIn_close hc hpol hfit
  · rw [himg, Config.slotIn_closedLayout (hbelow k (by omega))]
    exact Config.slotIn_layout_valid hc hpol hfit hkeys (by omega)
  · rw [himg, Nat.sub_add_cancel hlen, Config.slotIn_closedLayout (hbelow _ (Nat.le_refl _))]
    exact Config.slotIn_free hc hfit

/-- Both cursors of a stored ring lie in its active sector, at offsets of whole write blocks,
the data cursor not past the entry cursor. -/
theorem Stored.cursors (hc : c.Usable) (hst : R.Stored c e) :
    e.store.ateCursor.sector.toNat = R.active ∧ e.store.dataCursor.sector.toNat = R.active ∧
      c.writeBlock.toNat ∣ e.store.ateCursor.offset.toNat ∧
      c.writeBlock.toNat ∣ e.store.dataCursor.offset.toNat ∧
      e.store.dataCursor ≤ e.store.ateCursor := by
  have hS := hc.sector_le
  have hN := hc.count_le
  have ha := hst.active_lt
  have hslot : c.slot R.current.length ≤ c.sectorSize.toNat := by
    unfold Config.slot
    omega
  have hdata := hst.current.dataEnd_le
  rw [hst.ate, hst.data]
  unfold Ring.ate Ring.dataEnd
  refine ⟨Address.sector_at (by omega) (by omega), Address.sector_at (by omega) (by omega), ?_,
    ?_, (Address.at_le_at_iff (by omega) (by omega) (by omega) (by omega)).2 (by omega)⟩
  · rw [Address.offset_at (by omega) (by omega)]
    exact Config.block_dvd_slot hc _
  · rw [Address.offset_at (by omega) (by omega)]
    exact Config.block_dvd_dataEnd _

end Ring

namespace Session

variable {c : Config} {s : Session} {R : Ring}

/-- A new store mounted over the part of a faithful session succeeds, only reads, and finds both
cursors where `stat` reports them. -/
theorem Faithful.remount_exact (hv : c.validate = .ok ()) (hpol : Flash.Polar c.eraseValue)
    (h : s.Faithful c R) (log : Log.Logger) (partition : String) :
    ∃ e', StoreM.mount.run.run { s.engine with store := Store.create c log partition } =
        (.ok (), e') ∧
      e'.rig.chip = { s.engine.rig.chip with reads := e'.rig.chip.reads } ∧
      ∃ (st : Stat) (e1 : Engine), StoreM.stat.run.run s.engine = (.ok st, e1) ∧
        e'.store.ateCursor = st.ateCursor ∧ e'.store.dataCursor = st.dataCursor := by
  have hc := Config.usable_of_validate hv
  obtain ⟨e', hrun, -, hs', hchip⟩ := StoreM.run_mount hv hpol
    (h.stored.toHosted.withStore (s := Store.create c log partition) rfl) h.atRest
  obtain ⟨e1, hu, -⟩ := StoreM.run_usage hc hpol h.stored
  refine ⟨e', hrun, hchip, _, e1, StoreM.run_stat h.mounted hu, ?_, ?_⟩
  · rw [hs', h.stored.ate]
  · rw [hs', h.stored.data]

/-- The ring on the part, and mounting it again. In every session a client reaches, with `a` the
sector of the entry cursor: the sectors whose close slot does not read as erased are those one to
`L` sectors back from `a`, and `L` leaves out `a` and the sector after it; that sector holds only
the erase value; the close slot of each closed sector holds a valid close entry naming slot `i`,
where every slot from the top down to `i` holds a valid entry and the slot under it reads as
erased; both cursors lie in sector `a`, at offsets of whole write blocks, the data cursor not past
the entry cursor. And a new store mounted over the part succeeds, leaves the part as it was but
for its count of reads, and finds both cursors where `stat` reports them. -/
theorem Reachable.ring_on_part (hv : c.validate = .ok ()) (hpol : Flash.Polar c.eraseValue)
    (hs : s.Reachable c) :
    ∃ a L : Nat, s.engine.store.ateCursor.sector.toNat = a ∧ L + 2 ≤ c.sectorCount.toNat ∧
      (∀ j < c.sectorCount.toNat,
        c.slotIn (c.sectorOn s.engine.rig.chip j) c.closeOffset ≠ .erased ↔
          0 < c.distance a j ∧ c.distance a j ≤ L) ∧
      (∀ o < c.sectorSize.toNat,
        c.sectorOn s.engine.rig.chip ((a + 1) % c.sectorCount.toNat) o = c.eraseValue) ∧
      (∀ j < c.sectorCount.toNat, c.slotIn (c.sectorOn s.engine.rig.chip j) c.closeOffset ≠ .erased →
        ∃ i, c.slotIn (c.sectorOn s.engine.rig.chip j) c.closeOffset = .valid (closeEntry (c.slot i)) ∧
          (closeEntry (c.slot i)).crcValid = true ∧
          (∀ k ≤ i, ∃ en, c.slotIn (c.sectorOn s.engine.rig.chip j) (c.slot k) = .valid en) ∧
          c.slotIn (c.sectorOn s.engine.rig.chip j) (c.slot (i + 1)) = .erased) ∧
      s.engine.store.dataCursor.sector.toNat = a ∧
      c.writeBlock.toNat ∣ s.engine.store.ateCursor.offset.toNat ∧
      c.writeBlock.toNat ∣ s.engine.store.dataCursor.offset.toNat ∧
      s.engine.store.dataCursor ≤ s.engine.store.ateCursor ∧
      ∀ (log : Log.Logger) (partition : String), ∃ e',
        StoreM.mount.run.run { s.engine with store := Store.create c log partition } =
          (.ok (), e') ∧
        e'.rig.chip = { s.engine.rig.chip with reads := e'.rig.chip.reads } ∧
        ∃ (st : Stat) (e1 : Engine), StoreM.stat.run.run s.engine = (.ok st, e1) ∧
          e'.store.ateCursor = st.ateCursor ∧ e'.store.dataCursor = st.dataCursor := by
  have hc := Config.usable_of_validate hv
  obtain ⟨R, h⟩ := hs.faithful hv hpol
  have hh := h.stored.toHosted
  have hS := hc.sector_le
  have h4 := hc.four_entries
  have hN := hc.count_ge
  obtain ⟨hate, hdata, hwa, hwd, hle⟩ := h.stored.cursors hc
  refine ⟨R.active, R.closed.length, hate, h.atRest.settled,
    fun j hj => Ring.closeSlot_on_part hc hpol hh hj, fun o ho => ?_, fun j hj hne => ?_, hdata, hwa,
    hwd, hle, h.remount_exact hv hpol⟩
  · -- the sector after the active one is blank
    have hnext := Nat.mod_lt (R.active + 1) (show 0 < c.sectorCount.toNat by omega)
    exact (hh.hosts _ hnext o ho).trans (congrFun (Ring.image_next hh.toFit h.atRest) o)
  · -- a closed sector's table, read back from the part
    obtain ⟨i, hclose, hvalid, hfree⟩ :=
      Ring.closed_table hc hpol hh.toFit hj ((Ring.closeSlot_on_part hc hpol hh hj).1 hne)
    have hslot : ∀ k, c.slot k + c.entrySize.toNat ≤ c.sectorSize.toNat := fun k => by
      have : c.entrySize.toNat ≤ (k + 2) * c.entrySize.toNat := Nat.le_mul_of_pos_left _ (by omega)
      unfold Config.slot
      omega
    refine ⟨i, ?_, Entry.crcValid_sealed _, fun k hk => ?_, ?_⟩
    · rw [Ring.slotIn_sectorOn hh hj (by unfold Config.closeOffset; omega)]
      exact hclose
    · rw [Ring.slotIn_sectorOn hh hj (hslot k)]
      exact hvalid k hk
    · rw [Ring.slotIn_sectorOn hh hj (hslot (i + 1))]
      exact hfree

/-- After the calls the part holds the ring as it should: every closed sector's close entry names
its newest entry, and a new store mounts over it. -/
theorem ring_on_part_rotated :
    sampleConfig.validate = .ok () ∧ Flash.Polar sampleConfig.eraseValue ∧
      rotated.Reachable sampleConfig ∧
      (∀ j < sampleConfig.sectorCount.toNat,
        sampleConfig.slotIn (sampleConfig.sectorOn rotated.engine.rig.chip j)
          sampleConfig.closeOffset ≠ .erased →
        ∃ i, sampleConfig.slotIn (sampleConfig.sectorOn rotated.engine.rig.chip j)
          sampleConfig.closeOffset = .valid (closeEntry (sampleConfig.slot i))) ∧
      ∀ (log : Log.Logger) (partition : String), ∃ e',
        StoreM.mount.run.run { rotated.engine with store := Store.create sampleConfig log partition } =
          (.ok (), e') := by
  obtain ⟨a, L, -, -, -, -, hclosed, -, -, -, -, hmount⟩ :=
    Reachable.ring_on_part rfl (.inr rfl) reachable_rotated
  refine ⟨rfl, .inr rfl, reachable_rotated, fun j hj hne => ?_, fun log partition => ?_⟩
  · obtain ⟨i, hi, -⟩ := hclosed j hj hne
    exact ⟨i, hi⟩
  · obtain ⟨e', hrun, -⟩ := hmount log partition
    exact ⟨e', hrun⟩


end Session

end NorStore
