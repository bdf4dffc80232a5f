import NorStore.Proofs.Region

/-!
# Sweeping the region

Erased-checks, comparisons and copies go through the region 32 bytes at a time, each loop with
fuel for one more chunk than the bytes it covers. This module says what each loop computes,
over the image the part hosts.

* `isErased` answers whether the bytes read as the erase value (`run_isErased`) and `holds`
  whether they are the given bytes (`run_holds`); both only read.
* `copyData` appends the bytes of one sector at the data cursor of another, chunk after chunk,
  as one write of the whole range (`run_copyData`).
* `eraseSector` leaves the sector blank, whether it erased it or found it erased already
  (`run_eraseSector`).

Each loop lemma is proved by induction on the fuel, for every start offset and every amount
left; the chunk read at each step is a slice of the image (`run_read`).
-/

namespace NorStore

namespace StoreM

variable {c : Config} {img : Nat → Nat → UInt8}

theorem run_isErased_go (hc : c.Usable) {j : Nat} (hj : j < c.sectorCount.toNat) (ev : UInt8)
    (fuel : Nat) : ∀ (e : Engine) (o : Nat) (left : UInt32), e.store.config = c →
      c.Placed e.rig.chip → c.Hosts e.rig.chip img →
      o + left.toNat ≤ c.sectorSize.toNat → left.toNat ≤ 32 * fuel →
      ∃ b e', (isErased.go ev fuel (Address.at j o) left).run.run e = (.ok b, e') ∧ e.Reads e' ∧
        (b = true ↔ Sector.Blank (img j) ev o left.toNat) := by
  induction fuel with
  | zero =>
    intro e o left _ _ _ _ h
    refine ⟨true, e, rfl, .refl e, ⟨fun _ t ht => absurd ht (by omega), fun _ => rfl⟩⟩
  | succ fuel ih =>
    intro e o left hcfg hpl hh ho hfuel
    have hS := hc.sector_le
    have hn := hc.count_le
    by_cases h0 : left = 0
    · refine ⟨true, e, by simp only [isErased.go, h0, if_true]; rfl, .refl e,
        ⟨fun _ => ?_, fun _ => rfl⟩⟩
      intro t ht
      rw [h0] at ht
      exact absurd ht (Nat.not_lt_zero _)
    · have hL : 0 < left.toNat := by
        rcases Nat.eq_zero_or_pos left.toNat with h | h
        · exact absurd (UInt32.toNat_inj.1 (by rw [h]; rfl)) h0
        · exact h
      have hmin : (min 32 left).toNat = min 32 left.toNat := by
        rw [UInt32.toNat_min]
        rfl
      obtain ⟨got, e1, hread, hr1, hgot⟩ := run_read (o := o) (n := (min 32 left).toNat) hc hcfg
        hpl hh hj (by rw [hmin]; omega)
      simp only [isErased.go, h0, if_false, run_bind, hread]
      by_cases hall : got.toList.all (· == ev) = true
      · have hnext : (Address.at j o).plus (min 32 left) = Address.at j (o + min 32 left.toNat) := by
          rw [Address.plus_at (by omega) (by rw [hmin]; omega), hmin]
        have hsub : (left - min 32 left).toNat = left.toNat - min 32 left.toNat := by
          rw [UInt32.toNat_sub_of_le _ _ (UInt32.le_iff_toNat_le.2 (by rw [hmin]; omega)), hmin]
        obtain ⟨b, e2, hgo, hr2, hb⟩ := ih e1 (o + min 32 left.toNat) (left - min 32 left)
          (by rw [hr1.1, hcfg]) (Engine.Reads.placed hr1 hpl) (Engine.Reads.hosts hr1 hh) (by rw [hsub]; omega)
          (by rw [hsub]; omega)
        refine ⟨b, e2, ?_, Engine.Reads.trans hr1 hr2, ?_⟩
        · simp only [hall, Bool.not_true, Bool.false_eq_true, if_false, hnext, hgo]
        · rw [hb, hsub]
          rw [hgot, hmin, Sector.all_slice_iff] at hall
          constructor
          · intro h2
            have := Sector.Blank.append hall h2
            rwa [Nat.add_sub_cancel' (by omega)] at this
          · intro h
            exact h.mono (by omega) (by omega)
      · refine ⟨false, e1, ?_, hr1, ⟨fun h => absurd h Bool.false_ne_true, fun h => ?_⟩⟩
        · simp only [hall, Bool.not_false, if_true]
          rfl
        · exfalso
          apply hall
          rw [hgot, hmin, Sector.all_slice_iff]
          exact h.mono (by omega) (by omega)

theorem run_isErased (hc : c.Usable) (e : Engine) (hcfg : e.store.config = c)
    (hpl : c.Placed e.rig.chip) (hh : c.Hosts e.rig.chip img) {j o : Nat}
    (hj : j < c.sectorCount.toNat) {n : UInt32} (ho : o + n.toNat ≤ c.sectorSize.toNat) :
    ∃ b e', (isErased (Address.at j o) n).run.run e = (.ok b, e') ∧ e.Reads e' ∧
      (b = true ↔ Sector.Blank (img j) c.eraseValue o n.toNat) := by
  simp only [isErased, run_bind, run_store, hcfg]
  exact run_isErased_go hc hj c.eraseValue _ e o n hcfg hpl hh ho (by omega)

theorem run_holds_go (hc : c.Usable) {j : Nat} (hj : j < c.sectorCount.toNat) (data : ByteArray)
    {o : Nat} (ho : o + data.size ≤ c.sectorSize.toNat) (fuel : Nat) :
    ∀ (e : Engine) (i : Nat), e.store.config = c → c.Placed e.rig.chip →
      c.Hosts e.rig.chip img → i ≤ data.size → data.size - i ≤ 32 * fuel →
      ∃ b e', (holds.go data fuel (Address.at j (o + i)) i).run.run e = (.ok b, e') ∧
        e.Reads e' ∧ (b = true ↔ ∀ t, i ≤ t → t < data.size → img j (o + t) = data.get! t) := by
  induction fuel with
  | zero =>
    intro e i _ _ _ hi h
    exact ⟨true, e, rfl, .refl e, ⟨fun _ t ht ht' => absurd ht' (by omega), fun _ => rfl⟩⟩
  | succ fuel ih =>
    intro e i hcfg hpl hh hi hfuel
    have hS := hc.sector_le
    by_cases hend : i ≥ data.size
    · refine ⟨true, e, by simp only [holds.go, hend, if_true]; rfl, .refl e,
        ⟨fun _ t ht ht' => absurd ht' (by omega), fun _ => rfl⟩⟩
    · have hn : i + min 32 (data.size - i) ≤ data.size := by omega
      obtain ⟨got, e1, hread, hr1, hgot⟩ := run_read (o := o + i) (n := min 32 (data.size - i))
        hc hcfg hpl hh hj (by omega)
      have hchunk : (got.toList = (data.extract i (i + min 32 (data.size - i))).toList) ↔
          ∀ t, i ≤ t → t < i + min 32 (data.size - i) → img j (o + t) = data.get! t := by
        rw [hgot, ByteArray.toList_extract _ _ _ hn, Sector.slice, List.map_inj_left]
        constructor
        · intro h t ht1 ht2
          have := h (t - i) (List.mem_range.2 (by omega))
          rwa [Nat.add_assoc, Nat.add_sub_cancel' ht1] at this
        · intro h t ht
          have := h (i + t) (by omega) (by simp at ht; omega)
          rwa [← Nat.add_assoc] at this
      simp only [holds.go, hend, if_false, run_bind, hread]
      by_cases hsame : got.toList = (data.extract i (i + min 32 (data.size - i))).toList
      · have hnext : (Address.at j (o + i)).plus (min 32 (data.size - i)).toUInt32 =
            Address.at j (o + (i + min 32 (data.size - i))) := by
          rw [Address.plus_at (by have := hc.count_le; omega) (by
            rw [Nat.toUInt32_eq, UInt32.toNat_ofNat', Nat.mod_eq_of_lt (by omega)]; omega)]
          rw [Nat.toUInt32_eq, UInt32.toNat_ofNat', Nat.mod_eq_of_lt (by omega), Nat.add_assoc]
        obtain ⟨b, e2, hgo, hr2, hb⟩ := ih e1 (i + min 32 (data.size - i))
          (by rw [hr1.1, hcfg]) (Engine.Reads.placed hr1 hpl) (Engine.Reads.hosts hr1 hh) hn
          (by omega)
        refine ⟨b, e2, ?_, Engine.Reads.trans hr1 hr2, ?_⟩
        · simp only [hsame, bne_self_eq_false, Bool.false_eq_true, if_false, hnext, hgo]
        · rw [hb]
          have hfirst := hchunk.1 hsame
          constructor
          · intro h t ht1 ht2
            by_cases ht : t < i + min 32 (data.size - i)
            · exact hfirst t ht1 ht
            · exact h t (by omega) ht2
          · intro h t ht1 ht2
            exact h t (by omega) ht2
      · refine ⟨false, e1, ?_, hr1, ⟨fun h => absurd h Bool.false_ne_true, fun h => ?_⟩⟩
        · have : (got.toList != (data.extract i (i + min 32 (data.size - i))).toList) = true := by
            simpa using hsame
          simp only [this, if_true]
          rfl
        · exact absurd (hchunk.2 fun t ht1 ht2 => h t ht1 (by omega)) hsame

/-- Comparing the flash with bytes tells whether the image holds them. -/
theorem run_holds (hc : c.Usable) (e : Engine) (hcfg : e.store.config = c)
    (hpl : c.Placed e.rig.chip) (hh : c.Hosts e.rig.chip img) {j o : Nat}
    (hj : j < c.sectorCount.toNat) {data : ByteArray} (ho : o + data.size ≤ c.sectorSize.toNat) :
    ∃ b e', (holds (Address.at j o) data).run.run e = (.ok b, e') ∧ e.Reads e' ∧
      (b = true ↔ Sector.slice (img j) o data.size = data.toList) := by
  obtain ⟨b, e', hrun, hr, hb⟩ := run_holds_go hc hj data ho (data.size / 32 + 1) e 0 hcfg hpl hh
    (Nat.zero_le _) (by omega)
  rw [Nat.add_zero] at hrun
  refine ⟨b, e', hrun, hr, ?_⟩
  rw [hb]
  constructor
  · intro h
    apply List.ext_getElem (by simp [ByteArray.length_toList])
    intro t h1 h2
    rw [Sector.getElem_slice, ByteArray.getElem_toList]
    exact h t (Nat.zero_le _) (by simpa using h1)
  · intro h t _ ht
    have := congrArg (fun l => l.getD t 0) h
    rw [← ByteArray.get!_of_toList rfl] at this
    rwa [List.getD_eq_getElem _ _ (by simpa using ht), Sector.getElem_slice] at this

theorem run_copyData_go (hc : c.Usable) (hpol : Flash.Polar c.eraseValue) {src j : Nat}
    (hsrc : src < c.sectorCount.toNat) (hj : j < c.sectorCount.toNat) (hne : src ≠ j)
    (fuel : Nat) : ∀ (img : Nat → Nat → UInt8) (e : Engine) (o d : Nat) (left : UInt32),
      e.store.config = c → c.Placed e.rig.chip → c.Hosts e.rig.chip img →
      e.store.dataCursor = Address.at j d → c.writeBlock.toNat ∣ d →
      o + left.toNat ≤ c.sectorSize.toNat →
      d + Nat.blockCeil left.toNat c.writeBlock.toNat ≤ c.sectorSize.toNat →
      Sector.Blank (img j) c.eraseValue d (Nat.blockCeil left.toNat c.writeBlock.toNat) →
      left.toNat ≤ 32 * fuel →
      ∃ e', (copyData.go fuel (Address.at src o) left).run.run e = (.ok (), e') ∧
        e'.store = { e.store with
          dataCursor := Address.at j (d + Nat.blockCeil left.toNat c.writeBlock.toNat) } ∧
        c.Placed e'.rig.chip ∧
        c.Hosts e'.rig.chip (Function.update img j
          (Sector.put (img j) d (Sector.slice (img src) o left.toNat))) ∧
        c.Confined e.rig.chip e'.rig.chip := by
  have hW := hc.block_pos
  have hW32 := dvd_32_of_mem_blockSizes hc.block
  have hS := hc.sector_le
  have hn := hc.count_le
  induction fuel with
  | zero =>
    intro img e o d left _ hpl hh hd _ _ _ _ h
    have h0 : left.toNat = 0 := by omega
    refine ⟨e, rfl, ?_, hpl, ?_, Config.Confined.refl _⟩
    · rw [h0, Nat.blockCeil_zero, Nat.add_zero, ← hd]
    · rw [h0, Sector.slice_zero, Sector.put_nil, Function.update_eq_self]
      exact hh
  | succ fuel ih =>
    intro img e o d left hcfg hpl hh hd hWd ho hroom hblank hfuel
    by_cases h0 : left = 0
    · have h0' : left.toNat = 0 := by rw [h0]; rfl
      refine ⟨e, by simp only [copyData.go, h0, if_true]; rfl, ?_, hpl, ?_, Config.Confined.refl _⟩
      · rw [h0', Nat.blockCeil_zero, Nat.add_zero, ← hd]
      · rw [h0', Sector.slice_zero, Sector.put_nil,
          Function.update_eq_self]
        exact hh
    · have hL : 0 < left.toNat := by
        rcases Nat.eq_zero_or_pos left.toNat with h | h
        · exact absurd (UInt32.toNat_inj.1 (by rw [h]; rfl)) h0
        · exact h
      have hmin : (min 32 left).toNat = min 32 left.toNat := by
        rw [UInt32.toNat_min]
        rfl
      set m := min 32 left.toNat with hm
      -- the chunk takes whole blocks unless it is the last one
      have hsplit : m = 32 ∨ left.toNat - m = 0 := by omega
      have hbcm : Nat.blockCeil m c.writeBlock.toNat + Nat.blockCeil (left.toNat - m)
          c.writeBlock.toNat = Nat.blockCeil left.toNat c.writeBlock.toNat := by
        rcases hsplit with h | h
        · rw [h, Nat.blockCeil_of_dvd hW hW32, ← Nat.blockCeil_add_of_dvd hW hW32]
          congr 1
          omega
        · rw [h, Nat.blockCeil_zero, Nat.add_zero]
          congr 1
          omega
      obtain ⟨got, e1, hread, hr1, hgot⟩ := run_read (o := o) (n := m) hc hcfg hpl hh hsrc
        (by omega)
      have hsize : got.size = m := by
        rw [← ByteArray.length_toList, hgot, Sector.length_slice]
      have hbc := Nat.le_blockCeil (n := m) hW
      obtain ⟨e2, hwrite, hst2, hpl2, hh2, hcf2⟩ := run_writeData (p := got) hc hpol
        (by rw [hr1.1, hcfg]) (Engine.Reads.placed hr1 hpl) (Engine.Reads.hosts hr1 hh) hj
        (by rw [hr1.1, hd]) hWd (by rw [hsize]; omega)
        (by rw [hsize]; exact hblank.mono (Nat.le_refl _) (by omega))
      have hnext : (Address.at src o).plus (min 32 left) = Address.at src (o + m) := by
        rw [Address.plus_at (by omega) (by rw [hmin]; omega), hmin]
      have hsub : (left - min 32 left).toNat = left.toNat - m := by
        rw [UInt32.toNat_sub_of_le _ _ (UInt32.le_iff_toNat_le.2 (by rw [hmin]; omega)), hmin]
      obtain ⟨e3, hgo, hst3, hpl3, hh3, hcf3⟩ := ih _ e2 (o + m)
        (d + Nat.blockCeil m c.writeBlock.toNat) (left - min 32 left)
        (by rw [hst2, hr1.1, hcfg]) hpl2 hh2 (by rw [hst2, hsize]) (Nat.dvd_add hWd (Nat.blockCeil_dvd _ _))
        (by rw [hsub]; omega) (by rw [hsub]; omega) (by
          rw [hsub, Function.update_self]
          apply Sector.blank_put_of_disjoint (by rw [ByteArray.length_toList, hsize]; omega)
          exact hblank.mono (by omega) (by omega)) (by rw [hsub]; omega)
      -- the chunk and what the rest of the loop copies make up the whole range
      have hput : Sector.put (Sector.put (img j) d (Sector.slice (img src) o m))
          (d + Nat.blockCeil m c.writeBlock.toNat) (Sector.slice (img src) (o + m) (left.toNat - m)) =
          Sector.put (img j) d (Sector.slice (img src) o left.toNat) := by
        rcases hsplit with h | h
        · rw [h, Nat.blockCeil_of_dvd hW hW32,
            show d + 32 = d + (Sector.slice (img src) o 32).length by simp,
            Sector.put_put_append, ← Sector.slice_append]
          congr 2
          omega
        · rw [h, Sector.slice_zero, Sector.put_nil]
          congr 2
          omega
      refine ⟨e3, ?_, ?_, hpl3, ?_, hr1.confined.trans (hcf2.trans hcf3)⟩
      · simp only [copyData.go, h0, if_false, run_bind, hmin, hread, hwrite, hnext, hgo]
      · rw [hst3, hst2, hr1.1, Nat.add_assoc, hsub, hsize, hbcm]
      · rwa [Function.update_idem, Function.update_self, Function.update_of_ne hne, hsub, hgot,
          hput] at hh3

/-- Copying a value from another sector appends its bytes at the data cursor. -/
theorem run_copyData (hc : c.Usable) (hpol : Flash.Polar c.eraseValue) (e : Engine)
    (hcfg : e.store.config = c) (hpl : c.Placed e.rig.chip) (hh : c.Hosts e.rig.chip img)
    {src j o d : Nat} (hsrc : src < c.sectorCount.toNat) (hj : j < c.sectorCount.toNat)
    (hne : src ≠ j) (hd : e.store.dataCursor = Address.at j d) (hW : c.writeBlock.toNat ∣ d)
    {len : UInt32} (ho : o + len.toNat ≤ c.sectorSize.toNat)
    (hroom : d + Nat.blockCeil len.toNat c.writeBlock.toNat ≤ c.sectorSize.toNat)
    (hblank : Sector.Blank (img j) c.eraseValue d (Nat.blockCeil len.toNat c.writeBlock.toNat)) :
    ∃ e', (copyData (Address.at src o) len).run.run e = (.ok (), e') ∧
      e'.store = { e.store with
        dataCursor := Address.at j (d + Nat.blockCeil len.toNat c.writeBlock.toNat) } ∧
      c.Placed e'.rig.chip ∧
      c.Hosts e'.rig.chip (Function.update img j
        (Sector.put (img j) d (Sector.slice (img src) o len.toNat))) ∧
      c.Confined e.rig.chip e'.rig.chip :=
  run_copyData_go hc hpol hsrc hj hne _ img e o d len hcfg hpl hh hd hW ho hroom hblank (by omega)

/-- Erasing a sector makes its image blank, whether or not it already read as erased; the part
counts an erase of the sector's blocks only when it did not. -/
theorem run_eraseSector (hc : c.Usable) (e : Engine) (hcfg : e.store.config = c)
    (hpl : c.Placed e.rig.chip) (hh : c.Hosts e.rig.chip img) {j o : Nat}
    (hj : j < c.sectorCount.toNat) (ho : o < 65536) :
    ∃ e', (eraseSector (Address.at j o)).run.run e = (.ok (), e') ∧ e'.store = e.store ∧
      c.Placed e'.rig.chip ∧ c.Hosts e'.rig.chip (Function.update img j fun _ => c.eraseValue) ∧
      e'.rig.chip.geometry = e.rig.chip.geometry ∧
      (Sector.Blank (img j) c.eraseValue 0 c.sectorSize.toNat → e'.rig.chip.wear = e.rig.chip.wear) ∧
      (¬ Sector.Blank (img j) c.eraseValue 0 c.sectorSize.toNat →
        e'.rig.chip.wear = Flash.Chip.erasedWear e.rig.chip.wear e.rig.chip.geometry.eraseBlock
          (c.offset.toNat + j * c.sectorSize.toNat + 0) c.sectorSize.toNat) ∧
      c.Confined e.rig.chip e'.rig.chip := by
  have hn := hc.count_le
  have hS := hc.sector_le
  have hstart : (Address.at j o).sectorStart = Address.at j 0 := Address.sectorStart_at (by omega) ho
  obtain ⟨b, e1, hrun1, hr1, hb⟩ := run_isErased (o := 0) hc e hcfg hpl hh hj (n := c.sectorSize)
    (by omega)
  by_cases hblank : b = true
  · -- the sector already reads as erased: nothing is written
    refine ⟨e1, ?_, hr1.1, Engine.Reads.placed hr1 hpl, ?_, by rw [hr1.2],
      fun _ => by rw [hr1.2], fun hne => absurd (hb.1 hblank) hne, hr1.confined⟩
    · simp only [eraseSector, run_bind, run_store, hstart, hcfg, hrun1, hblank, if_true]
      rfl
    · apply (Engine.Reads.hosts hr1 hh).congr
      intro j' _ o' ho'
      by_cases hjj : j' = j
      · subst hjj
        rw [Function.update_self]
        have := hb.1 hblank o' ho'
        rwa [Nat.zero_add] at this
      · rw [Function.update_of_ne hjj]
  · obtain ⟨e2, hlog, hq2⟩ := run_logAt .debug "erasing sector"
      [("sector", .int (Address.at j 0).sector.toNat)] e1
    have hpl2 : c.Placed e2.rig.chip := by rw [hq2.2]; exact Engine.Reads.placed hr1 hpl
    have hh2 : c.Hosts e2.rig.chip img := by rw [hq2.2]; exact Engine.Reads.hosts hr1 hh
    set chip := e2.rig.chip with hchip
    have hphys := physical_at hc (s := e.store) hcfg hj (Nat.zero_le _)
    have hroom := hpl2.cells_size hj (Nat.le_refl _)
    rw [hpl2.size] at hroom
    have herase := Flash.Chip.erase_ok (c := { chip with locked := false })
      (c.offset.toNat + j * c.sectorSize.toNat + 0) c.sectorSize.toNat
      ⟨hpl2.ready.powered, hpl2.ready.unarmed⟩ (by simp [Flash.Chip.isProtected]) (by simpa using hroom)
      (by
        rcases hpl2.erase_block with h | ⟨h1, h2⟩
        · exact Or.inl h
        · refine Or.inr ⟨Nat.mod_eq_zero_of_dvd ?_, Nat.mod_eq_zero_of_dvd h2⟩
          exact Nat.dvd_add (Nat.dvd_add h1 (Nat.dvd_mul_left_of_dvd h2 _)) (Nat.dvd_zero _))
    obtain ⟨e3, hmeter, hq3⟩ := run_meter (fun r p => r.recordErase p)
      { e2 with rig := { e2.rig with chip := { { chip with locked := false } with
        cells := chip.blanked (c.offset.toNat + j * c.sectorSize.toNat + 0)
          (c.offset.toNat + j * c.sectorSize.toNat + 0 + c.sectorSize.toNat),
        wear := Flash.Chip.erasedWear chip.wear chip.geometry.eraseBlock
          (c.offset.toNat + j * c.sectorSize.toNat + 0) c.sectorSize.toNat, locked := true } } }
    have hchip2 : chip = { e.rig.chip with reads := chip.reads } := by
      rw [hchip, hq2.2, hr1.2]
    -- the erase blanks the sector and nothing else
    have hkeep : ∀ q, ¬ (c.offset.toNat + j * c.sectorSize.toNat + 0 ≤ q ∧
        q < c.offset.toNat + j * c.sectorSize.toNat + 0 + c.sectorSize.toNat) →
        e3.rig.chip.cells.get! q = chip.cells.get! q := by
      intro q hq
      rw [hq3.2]
      show (chip.blanked _ _).get! q = chip.cells.get! q
      rw [Flash.Chip.get!_blanked (c := chip) _ _ _ (by rw [hpl2.size]; omega), if_neg hq]
    refine ⟨e3, ?_, ?_, ?_, ?_, by rw [hq3.2, hchip2], fun hb' => absurd (hb.2 hb') hblank,
      fun _ => by rw [hq3.2, hchip2], fun q hq => ?_⟩
    · simp only [eraseSector, run_bind, run_store, hstart, hcfg, hrun1, hblank, Bool.false_eq_true,
        if_false, hlog]
      rw [hphys]
      rw [run_tryCatch_ok (by rw [run_onChip, run_unprotected hpl2.ready.powered herase
        hpl2.ready.powered])]
      exact hmeter
    · rw [hq3.1, hq2.1, hr1.1]
    · rw [hq3.2]
      exact ⟨hpl2.erased, by show (chip.blanked _ _).size = _; rw [Flash.Chip.size_blanked]; exact hpl2.size,
        hpl2.region, hpl2.write_block, hpl2.erase_block, ⟨hpl2.ready.powered, hpl2.ready.unarmed⟩⟩
    · apply hh2.update
      · intro q hq
        exact hkeep q fun hin =>
          hq (q - (c.offset.toNat + j * c.sectorSize.toNat)) (by omega) (by omega)
      · intro o' ho'
        rw [hq3.2]
        show (chip.blanked _ _).get! _ = _
        rw [Flash.Chip.get!_blanked (c := chip) _ _ _ (by rw [hpl2.size]; omega), if_pos (by omega)]
        exact hpl2.erased
    · rw [hkeep q fun hin => Config.not_beyond hj (by omega) hin hq, hchip2]

end StoreM

end NorStore
