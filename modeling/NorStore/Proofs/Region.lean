import NorStore.Proofs.Layout
import NorStore.Proofs.Run

/-!
# The region on its part

A store reaches its flash part only through a few primitives: `read`, `readSlot`, `program`
and, built on them, `writeData` and `writeEntry`. This module says what each does to the
bytes of the store's region, seen sector by sector.

* `Config.Placed` is what the store needs of its part: the erase value of the configuration,
  room for the whole region, units that divide the store's own, power, and no cut armed.
* `Config.Hosts` says that the part holds a given image in every sector of the region.
* A read returns the bytes of the image and changes nothing but the part's count of reads
  (`Engine.Reads`).
* Programming bytes over an erased range of a sector writes exactly them into that sector's
  image, for both polarities of the part (`run_program`).
-/

namespace NorStore

namespace Config

/-- What the store needs of the part its region lives on. -/
structure Placed (c : Config) (chip : Flash.Chip) : Prop where
  erased : chip.geometry.eraseValue = c.eraseValue
  size : chip.cells.size = chip.geometry.size
  region : c.offset.toNat + c.sectorSize.toNat * c.sectorCount.toNat ≤ chip.geometry.size
  write_block : chip.geometry.writeBlock ≤ 1 ∨
    chip.geometry.writeBlock ∣ c.offset.toNat ∧ chip.geometry.writeBlock ∣ c.writeBlock.toNat
  erase_block : chip.geometry.eraseBlock ≤ 1 ∨
    chip.geometry.eraseBlock ∣ c.offset.toNat ∧ chip.geometry.eraseBlock ∣ c.sectorSize.toNat
  ready : chip.Ready

/-- The part holds `img j` in sector `j` of the region, for every sector. -/
def Hosts (c : Config) (chip : Flash.Chip) (img : Nat → Nat → UInt8) : Prop :=
  ∀ j < c.sectorCount.toNat, ∀ o < c.sectorSize.toNat,
    chip.cells.get! (c.offset.toNat + j * c.sectorSize.toNat + o) = img j o

/-- Byte `q` of the part lies before the region or after it. -/
def Beyond (c : Config) (q : Nat) : Prop :=
  q < c.offset.toNat ∨ c.offset.toNat + c.sectorSize.toNat * c.sectorCount.toNat ≤ q

/-- The part changed from `chip` to `chip'` inside the region only: every byte beyond the region
holds what it held. -/
def Confined (c : Config) (chip chip' : Flash.Chip) : Prop :=
  ∀ q, c.Beyond q → chip'.cells.get! q = chip.cells.get! q

end Config

/-- `e'` is `e` after reading, logging and metering: the same store, and the same part but for
its count of reads. -/
def Engine.Reads (e e' : Engine) : Prop :=
  e'.store = e.store ∧ e'.rig.chip = { e.rig.chip with reads := e'.rig.chip.reads }

theorem Engine.Reads.refl (e : Engine) : e.Reads e := ⟨rfl, rfl⟩

theorem Engine.Reads.trans {e e' e'' : Engine} (h : e.Reads e') (h' : e'.Reads e'') :
    e.Reads e'' := by
  refine ⟨h'.1.trans h.1, ?_⟩
  rw [h'.2, h.2]

theorem Engine.Quiet.reads {e e' : Engine} (h : e.Quiet e') : e.Reads e' := by
  refine ⟨h.1, ?_⟩
  rw [h.2]

namespace Config

variable {c : Config} {chip chip' : Flash.Chip} {img : Nat → Nat → UInt8}

theorem Placed.of_reads (h : c.Placed chip) (r : Nat) : c.Placed { chip with reads := r } :=
  ⟨h.erased, h.size, h.region, h.write_block, h.erase_block, ⟨h.ready.powered, h.ready.unarmed⟩⟩

theorem Hosts.of_reads (h : c.Hosts chip img) (r : Nat) : c.Hosts { chip with reads := r } img := h

theorem Hosts.congr (h : c.Hosts chip img) {img' : Nat → Nat → UInt8}
    (himg : ∀ j < c.sectorCount.toNat, ∀ o < c.sectorSize.toNat, img j o = img' j o) :
    c.Hosts chip img' := fun j hj o ho => (h j hj o ho).trans (himg j hj o ho)

/-- Offsets inside two sectors coincide only inside one sector. -/
theorem sector_eq_of_eq {S j j' o o' : Nat} (ho : o < S) (ho' : o' < S)
    (h : j * S + o = j' * S + o') : j = j' := by
  have hS : 0 < S := by omega
  have : (j * S + o) / S = (j' * S + o') / S := by rw [h]
  rwa [Nat.add_comm, Nat.add_mul_div_right _ _ hS, Nat.div_eq_of_lt ho, Nat.zero_add,
    Nat.add_comm, Nat.add_mul_div_right _ _ hS, Nat.div_eq_of_lt ho', Nat.zero_add] at this

/-- A part that changed only inside sector `j`, where it now holds `f`, hosts the images with
sector `j` replaced by `f`. -/
theorem Hosts.update (h : c.Hosts chip img) {j : Nat} {f : Nat → UInt8}
    (hout : ∀ q, (∀ o < c.sectorSize.toNat, q ≠ c.offset.toNat + j * c.sectorSize.toNat + o) →
      chip'.cells.get! q = chip.cells.get! q)
    (hin : ∀ o < c.sectorSize.toNat,
      chip'.cells.get! (c.offset.toNat + j * c.sectorSize.toNat + o) = f o) :
    c.Hosts chip' (Function.update img j f) := by
  intro j' hj' o' ho'
  by_cases hjj : j' = j
  · subst hjj
    rw [Function.update_self]
    exact hin o' ho'
  · rw [Function.update_of_ne hjj, hout _ (fun o ho heq => hjj (sector_eq_of_eq ho' ho (by omega)))]
    exact h j' hj' o' ho'

/-- Sector `j` of the region ends by the end of the region. -/
theorem sector_end_le {j : Nat} (hj : j < c.sectorCount.toNat) :
    j * c.sectorSize.toNat + c.sectorSize.toNat ≤ c.sectorSize.toNat * c.sectorCount.toNat := by
  rw [← Nat.succ_mul, Nat.mul_comm]
  exact Nat.mul_le_mul_left _ hj

theorem Placed.cells_size (h : c.Placed chip) {j o : Nat} (hj : j < c.sectorCount.toNat)
    (ho : o ≤ c.sectorSize.toNat) :
    c.offset.toNat + j * c.sectorSize.toNat + o ≤ chip.cells.size := by
  have := sector_end_le hj
  have := h.region
  rw [h.size]
  omega

theorem Confined.refl (chip : Flash.Chip) : c.Confined chip chip := fun _ _ => rfl

theorem Confined.trans {chip'' : Flash.Chip} (h : c.Confined chip chip')
    (h' : c.Confined chip' chip'') : c.Confined chip chip'' :=
  fun q hq => (h' q hq).trans (h q hq)

/-- A range that ends inside sector `j` lies inside the region. -/
theorem not_beyond {j o n q : Nat} (hj : j < c.sectorCount.toNat) (hn : o + n ≤ c.sectorSize.toNat)
    (hq : c.offset.toNat + j * c.sectorSize.toNat + o ≤ q ∧
      q < c.offset.toNat + j * c.sectorSize.toNat + o + n) : ¬ c.Beyond q := by
  have := sector_end_le hj
  unfold Beyond
  omega

end Config

theorem Engine.Reads.placed {c : Config} {e e' : Engine} (h : e.Reads e')
    (hp : c.Placed e.rig.chip) : c.Placed e'.rig.chip := by
  rw [h.2]
  exact hp.of_reads _

theorem Engine.Reads.hosts {c : Config} {img : Nat → Nat → UInt8} {e e' : Engine} (h : e.Reads e')
    (hh : c.Hosts e.rig.chip img) : c.Hosts e'.rig.chip img := by
  rw [h.2]
  exact hh.of_reads _

theorem Engine.Reads.confined {c : Config} {e e' : Engine} (h : e.Reads e') :
    c.Confined e.rig.chip e'.rig.chip :=
  fun _ _ => by rw [h.2]

/-! ## Programming on the part -/

namespace Flash.Chip

/-- `chip'` is `chip` with `bytes` programmed from `start`: only the cells and the count of writes
have changed, and of the cells only those bytes. -/
structure Wrote (chip chip' : Chip) (start : Nat) (bytes : ByteArray) : Prop where
  frame : chip' = { chip with cells := chip'.cells, writes := chip'.writes }
  size : chip'.cells.size = chip.cells.size
  get : ∀ q, chip'.cells.get! q =
    if start ≤ q ∧ q < start + bytes.size then bytes.get! (q - start) else chip.cells.get! q

variable {c c' c'' : Chip} {start : Nat} {b b' : ByteArray}

theorem Wrote.refl (c : Chip) (start : Nat) : Wrote c c start ByteArray.empty :=
  ⟨rfl, rfl, fun q => by rw [if_neg (by simp)]⟩

/-- Two programs that follow each other are one program of both. -/
theorem Wrote.trans (h : Wrote c c' start b) (h' : Wrote c' c'' (start + b.size) b') :
    Wrote c c'' start (b ++ b') := by
  refine ⟨?_, h'.size.trans h.size, fun q => ?_⟩
  · rw [h'.frame, h.frame]
  · rw [h'.get, h.get, ByteArray.get!_append, ByteArray.size_append]
    by_cases h1 : start ≤ q ∧ q < start + b.size
    · rw [if_neg (by omega), if_pos h1, if_pos (by omega), if_pos (by omega)]
    · by_cases h2 : start + b.size ≤ q ∧ q < start + b.size + b'.size
      · rw [if_pos h2, if_pos (by omega), if_neg (by omega), Nat.sub_add_eq]
      · rw [if_neg h2, if_neg h1, if_neg (by omega)]

/-- A program of erased bytes, in range and on write blocks, writes them. -/
theorem write_wrote (hp : Polar c.geometry.eraseValue) (hr : c.Ready)
    (hunlocked : c.isProtected = false) (hsize : c.cells.size = c.geometry.size)
    {data : ByteArray} (hs : start + data.size ≤ c.geometry.size)
    (ha : c.geometry.writeBlock ≤ 1 ∨
      (start % c.geometry.writeBlock = 0 ∧ data.size % c.geometry.writeBlock = 0))
    (free : ∀ j < data.size, c.cells.get! (start + j) = c.geometry.eraseValue) :
    ∃ c', (write start data).run.run c = (.ok (), c') ∧ Wrote c c' start data := by
  refine ⟨_, write_ok hr hunlocked hs ha free, rfl, size_programmed _ _ _ _, fun q => ?_⟩
  exact get!_programmed_blank c hp (by rw [hsize]; exact hs) free q

theorem Wrote.congr_bytes (h : Wrote c c' start b) (hsize : b'.size = b.size)
    (hget : ∀ i < b.size, b'.get! i = b.get! i) : Wrote c c' start b' := by
  refine ⟨h.frame, h.size, fun q => ?_⟩
  rw [h.get, hsize]
  split
  · rw [hget _ (by omega)]
  · rfl

end Flash.Chip

namespace StoreM

theorem size_padded (p : ByteArray) (w : Nat) (ev : UInt8) :
    (padded p w ev).size = p.size + (w - p.size % w) % w := by
  simp only [padded, ByteArray.size_append]
  congr 1
  exact Array.size_replicate ..

theorem get!_padded (p : ByteArray) (w : Nat) (ev : UInt8) {i : Nat}
    (hi : i < (padded p w ev).size) : (padded p w ev).get! i = if i < p.size then p.get! i else ev := by
  rw [size_padded] at hi
  unfold padded
  rw [ByteArray.get!_append]
  split
  · rfl
  · rw [ByteArray.get!_eq]
    show (Array.replicate _ ev)[i - p.size]?.getD 0 = ev
    rw [Array.getElem?_replicate, if_pos (by omega)]
    rfl

section Blocks

variable {W : Nat} (hW : W ∈ blockSizes) (p : ByteArray) (ev : UInt8)
include hW

/-- `program` puts a value's whole write blocks, then its rest padded: a whole number of write
blocks in all. -/
theorem size_blocks :
    (p.extract 0 (p.size / W * W) ++ padded (p.extract (p.size / W * W) p.size) W ev).size =
      Nat.blockCeil p.size W := by
  rw [ByteArray.size_append, size_padded, ByteArray.size_extract', ByteArray.size_extract']
  simp only [blockSizes, List.mem_cons, List.not_mem_nil, or_false] at hW
  unfold Nat.blockCeil
  rcases hW with rfl | rfl | rfl | rfl | rfl | rfl <;> omega

/-- ... the value's bytes first, then the erase value. -/
theorem get!_blocks {i : Nat} (hi : i < Nat.blockCeil p.size W) :
    (p.extract 0 (p.size / W * W) ++ padded (p.extract (p.size / W * W) p.size) W ev).get! i =
      if i < p.size then p.get! i else ev := by
  have hwhole : p.size / W * W ≤ p.size := Nat.div_mul_le_self _ _
  have hsz := size_blocks hW p ev
  rw [ByteArray.size_append, ByteArray.size_extract'] at hsz
  rw [ByteArray.get!_append, ByteArray.size_extract']
  by_cases h : i < min (p.size / W * W) p.size - 0
  · rw [if_pos h, ByteArray.get!_extract _ _ _ _ (by omega), if_pos (by omega), Nat.zero_add]
  · rw [if_neg h, get!_padded _ _ _ (by omega), ByteArray.size_extract']
    by_cases h' : i < p.size
    · rw [if_pos (by omega), if_pos h', ByteArray.get!_extract _ _ _ _ (by omega)]
      congr 1
      omega
    · rw [if_neg (by omega), if_neg h']

end Blocks

/-- Lifting write protection around a device change that goes through. -/
theorem run_unprotected {act : Flash.ChipM Unit} {chip chip' : Flash.Chip} (hp : chip.powerLost = false)
    (h : act.run.run { chip with locked := false } = (.ok (), chip'))
    (hp' : chip'.powerLost = false) :
    (unprotected act).run.run chip = (.ok (), { chip' with locked := true }) := by
  simp only [unprotected]
  rw [run_bind_ok (Flash.Chip.setProtection_ok false hp), run_bind_ok (run_tryCatch_ok h),
    Flash.Chip.setProtection_ok true hp']

/-- What `program` runs on the part, over an erased range: it writes the value's bytes and
pads the last write block with the erase value. -/
theorem program_act (chip : Flash.Chip) (hpol : Flash.Polar chip.geometry.eraseValue) (hr : chip.Ready)
    (hunlocked : chip.isProtected = false) (hsize : chip.cells.size = chip.geometry.size)
    {W : Nat} (hW : W ∈ blockSizes) {off : Nat} {p : ByteArray} (hp : p.size ≠ 0)
    (hs : off + Nat.blockCeil p.size W ≤ chip.geometry.size)
    (halign : chip.geometry.writeBlock ≤ 1 ∨
      chip.geometry.writeBlock ∣ off ∧ chip.geometry.writeBlock ∣ W)
    (free : ∀ t < Nat.blockCeil p.size W, chip.cells.get! (off + t) = chip.geometry.eraseValue) :
    ∃ chip', (do
        if p.size / W * W > 0 then Flash.Chip.write off (p.extract 0 (p.size / W * W))
        if (p.extract (p.size / W * W) p.size).size > 0 then
          Flash.Chip.write (off + p.size / W * W)
            (padded (p.extract (p.size / W * W) p.size) W chip.geometry.eraseValue) :
          Flash.ChipM Unit).run.run chip = (.ok (), chip') ∧
      Flash.Chip.Wrote chip chip' off (p.extract 0 (p.size / W * W) ++
        padded (p.extract (p.size / W * W) p.size) W chip.geometry.eraseValue) := by
  have hW0 := pos_of_mem_blockSizes hW
  have hwhole : p.size / W * W ≤ p.size := Nat.div_mul_le_self _ _
  have hbc := size_blocks hW p chip.geometry.eraseValue
  have hrest : (p.extract (p.size / W * W) p.size).size = p.size - p.size / W * W := by
    rw [ByteArray.size_extract']
    omega
  -- a padded rest is one write block
  have hpad : 0 < p.size - p.size / W * W → (padded (p.extract (p.size / W * W) p.size) W
      chip.geometry.eraseValue).size = W := by
    intro h
    rw [size_padded, hrest]
    simp only [blockSizes, List.mem_cons, List.not_mem_nil, or_false] at hW
    rcases hW with rfl | rfl | rfl | rfl | rfl | rfl <;> omega
  have hdvd : W ∣ p.size / W * W := Nat.dvd_mul_left _ _
  have hwsize : (p.extract 0 (p.size / W * W)).size = p.size / W * W := by
    rw [ByteArray.size_extract']
    omega
  rw [ByteArray.size_append, hwsize] at hbc
  have ha1 : chip.geometry.writeBlock ≤ 1 ∨ (off % chip.geometry.writeBlock = 0 ∧
      (p.extract 0 (p.size / W * W)).size % chip.geometry.writeBlock = 0) := by
    rcases halign with h | ⟨h1, h2⟩
    · exact Or.inl h
    · refine Or.inr ⟨Nat.mod_eq_zero_of_dvd h1, ?_⟩
      rw [hwsize]
      exact Nat.mod_eq_zero_of_dvd (h2.trans hdvd)
  have hfree1 : ∀ t < (p.extract 0 (p.size / W * W)).size,
      chip.cells.get! (off + t) = chip.geometry.eraseValue := fun t ht => free t (by omega)
  -- the write of the padded rest, from any part that still holds `chip`'s bytes past the whole blocks
  have second : ∀ c2 : Flash.Chip, c2 = { chip with cells := c2.cells, writes := c2.writes } →
      c2.cells.size = chip.cells.size →
      (∀ t, chip.cells.get! (off + p.size / W * W + t) = c2.cells.get! (off + p.size / W * W + t)) →
      0 < p.size - p.size / W * W →
      ∃ c3, (Flash.Chip.write (off + p.size / W * W) (padded (p.extract (p.size / W * W) p.size) W
        chip.geometry.eraseValue)).run.run c2 = (.ok (), c3) ∧
        Flash.Chip.Wrote c2 c3 (off + p.size / W * W)
          (padded (p.extract (p.size / W * W) p.size) W chip.geometry.eraseValue) := by
    intro c2 hc2 hsz2 hsame hpos
    have hg : c2.geometry = chip.geometry := by rw [hc2]
    apply Flash.Chip.write_wrote (by rw [hg]; exact hpol)
      ⟨by rw [hc2]; exact hr.powered, by rw [hc2]; exact hr.unarmed⟩
      (by rw [hc2]; exact hunlocked) (by rw [hsz2, hsize, hg])
      (by rw [hg, hpad hpos]; omega)
    · rcases halign with h | ⟨h1, h2⟩
      · exact Or.inl (by rw [hg]; exact h)
      · refine Or.inr ⟨?_, ?_⟩
        · rw [hg]
          exact Nat.mod_eq_zero_of_dvd (Nat.dvd_add h1 (h2.trans hdvd))
        · rw [hg, hpad hpos]
          exact Nat.mod_eq_zero_of_dvd h2
    · intro t ht
      rw [← hsame, hg, Nat.add_assoc]
      rw [hpad hpos] at ht
      exact free _ (by omega)
  by_cases hw : p.size / W * W > 0
  · obtain ⟨c2, h2, w2⟩ := Flash.Chip.write_wrote hpol hr hunlocked hsize (by rw [hwsize]; omega) ha1 hfree1
    by_cases hr' : (p.extract (p.size / W * W) p.size).size > 0
    · obtain ⟨c3, h3, w3⟩ := second c2 w2.frame w2.size
        (fun t => by rw [w2.get, if_neg (by rw [hwsize]; omega)]) (by omega)
      refine ⟨c3, ?_, w2.trans (by rw [hwsize]; exact w3)⟩
      simp only [if_pos hw, if_pos hr', run_bind, h2, h3]
    · refine ⟨c2, ?_, w2.congr_bytes ?_ ?_⟩
      · simp only [if_pos hw, if_neg hr', run_bind, h2, run_pure]
      · have h0 : (p.extract (p.size / W * W) p.size).size = 0 := by omega
        rw [ByteArray.size_append, size_padded, h0, Nat.zero_mod, Nat.sub_zero, Nat.mod_self]
        rfl
      · intro i hi
        rw [ByteArray.get!_append, if_pos hi]
  · have hpos : 0 < p.size - p.size / W * W := by omega
    obtain ⟨c3, h3, w3⟩ := second chip rfl rfl (fun _ => rfl) hpos
    refine ⟨c3, ?_, ?_⟩
    · simp only [if_neg hw, if_pos (show (p.extract (p.size / W * W) p.size).size > 0 by omega), h3]
    · have hz : p.size / W * W = 0 := by omega
      rw [hz, Nat.add_zero] at w3
      refine w3.congr_bytes ?_ ?_
      · rw [ByteArray.size_append, hz, ByteArray.size_extract']
        omega
      · intro i hi
        have h0 : (p.extract 0 0).size = 0 := by
          rw [ByteArray.size_extract']
          omega
        rw [ByteArray.get!_append, hz, h0, if_neg (Nat.not_lt_zero i), Nat.sub_zero]

end StoreM

/-! ## Reading -/

namespace StoreM

variable {c : Config} {e : Engine} {img : Nat → Nat → UInt8}

/-- Where byte `o` of sector `j` is on the part. -/
theorem physical_at (hc : c.Usable) {s : Store} (hs : s.config = c) {j o : Nat}
    (hj : j < c.sectorCount.toNat) (ho : o ≤ c.sectorSize.toNat) :
    (s.physical (Address.at j o)).toNat = c.offset.toNat + j * c.sectorSize.toNat + o := by
  have hn := hc.count_le
  have hS := hc.sector_le
  have hreg := hc.region
  have hmul : c.sectorSize.toNat * j + c.sectorSize.toNat ≤
      c.sectorSize.toNat * c.sectorCount.toNat := by
    rw [← Nat.mul_succ]
    exact Nat.mul_le_mul_left _ hj
  unfold Store.physical
  rw [hs, UInt32.toNat_add, UInt32.toNat_add, UInt32.toNat_mul,
    Address.sector_at (by omega) (by omega), Address.offset_at (by omega) (by omega),
    Nat.mod_eq_of_lt (by omega : c.sectorSize.toNat * j < 4294967296),
    Nat.mod_eq_of_lt (by omega : c.offset.toNat + c.sectorSize.toNat * j < 4294967296),
    Nat.mod_eq_of_lt (by omega), Nat.mul_comm]

/-- A read of the region returns the bytes of the image there. -/
theorem run_read (hc : c.Usable) (hcfg : e.store.config = c) (hpl : c.Placed e.rig.chip)
    (hh : c.Hosts e.rig.chip img) {j o n : Nat} (hj : j < c.sectorCount.toNat)
    (ho : o + n ≤ c.sectorSize.toNat) :
    ∃ b e', (read (Address.at j o) n).run.run e = (.ok b, e') ∧ e.Reads e' ∧
      b.toList = Sector.slice (img j) o n := by
  have hp := physical_at hc hcfg hj (by omega : o ≤ c.sectorSize.toNat)
  have hsize := hpl.cells_size hj ho
  rw [← Nat.add_assoc] at hsize
  have hread := Flash.Chip.read_ok (c := e.rig.chip) (c.offset.toNat +
    j * c.sectorSize.toNat + o) n hpl.ready (by rw [← hpl.size]; exact hsize)
  refine ⟨e.rig.chip.cells.extract (c.offset.toNat + j * c.sectorSize.toNat + o)
      (c.offset.toNat + j * c.sectorSize.toNat + o + n),
    { e with rig := { e.rig with chip := { e.rig.chip with reads := e.rig.chip.reads + 1 } } },
    ?_, ⟨rfl, rfl⟩, ?_⟩
  · simp only [read, run_bind, run_store, hp]
    rw [run_tryCatch_ok (by rw [run_onChip, hread])]
  · rw [ByteArray.toList_extract _ _ _ hsize]
    apply List.map_congr_left
    intro t ht
    have := hh j hj (o + t) (by simp at ht; omega)
    rwa [← Nat.add_assoc] at this

/-- Programming bytes over an erased range of a sector writes them into that sector's image and
changes nothing else of the region. -/
theorem run_program (hc : c.Usable) (hpol : Flash.Polar c.eraseValue) (hcfg : e.store.config = c)
    (hpl : c.Placed e.rig.chip) (hh : c.Hosts e.rig.chip img) {j o : Nat}
    (hj : j < c.sectorCount.toNat) (hW : c.writeBlock.toNat ∣ o) {p : ByteArray}
    (ho : o + Nat.blockCeil p.size c.writeBlock.toNat ≤ c.sectorSize.toNat)
    (hblank : Sector.Blank (img j) c.eraseValue o (Nat.blockCeil p.size c.writeBlock.toNat)) :
    ∃ e', (program (Address.at j o) p).run.run e = (.ok (), e') ∧ e'.store = e.store ∧
      c.Placed e'.rig.chip ∧
      c.Hosts e'.rig.chip (Function.update img j (Sector.put (img j) o p.toList)) ∧
      c.Confined e.rig.chip e'.rig.chip := by
  by_cases h0 : p.size = 0
  · -- nothing to program
    refine ⟨e, by simp only [program, h0, if_true]; rfl, rfl, hpl,
      hh.congr fun j' _ o' _ => ?_, Config.Confined.refl _⟩
    by_cases hjj : j' = j
    · subst hjj
      rw [Function.update_self, Sector.put_of_not_mem (by rw [ByteArray.length_toList]; omega)]
    · rw [Function.update_of_ne hjj]
  subst hcfg
  have hWb := hc.block
  have hS := hc.sector_le
  have hbc := Nat.le_blockCeil (n := p.size) hc.block_pos
  have hmask : (p.size.toUInt32 &&& ~~~(e.store.config.writeBlock - 1)).toNat =
      p.size / e.store.config.writeBlock.toNat * e.store.config.writeBlock.toNat := by
    rw [and_not_pred_toNat hWb, Nat.toUInt32_eq, UInt32.toNat_ofNat', Nat.mod_eq_of_lt (by omega)]
  have hphys := physical_at hc rfl hj (by omega : o ≤ e.store.config.sectorSize.toNat)
  have hev := hpl.erased
  set chip := e.rig.chip with hchip
  set off := e.store.config.offset.toNat + j * e.store.config.sectorSize.toNat + o with hoff
  have hroom := hpl.cells_size hj ho
  rw [← Nat.add_assoc, ← hoff] at hroom
  have halign : chip.geometry.writeBlock ≤ 1 ∨ chip.geometry.writeBlock ∣ off ∧
      chip.geometry.writeBlock ∣ e.store.config.writeBlock.toNat := by
    rcases hpl.write_block with h | ⟨h1, h2⟩
    · exact Or.inl h
    · refine Or.inr ⟨?_, h2⟩
      exact Nat.dvd_add (Nat.dvd_add h1 (Nat.dvd_mul_left_of_dvd (h2.trans hc.block_dvd) _))
        (h2.trans hW)
  have hfree : ∀ t < Nat.blockCeil p.size e.store.config.writeBlock.toNat,
      chip.cells.get! (off + t) = chip.geometry.eraseValue := by
    intro t ht
    rw [hoff, Nat.add_assoc, hh j hj (o + t) (by omega), hev]
    exact hblank t ht
  obtain ⟨chip3, hact, hw⟩ := program_act { chip with locked := false } (by rw [← hev] at hpol; exact hpol)
    ⟨hpl.ready.powered, hpl.ready.unarmed⟩ (by simp [Flash.Chip.isProtected]) hpl.size hWb h0
    (by rw [← hpl.size]; exact hroom) halign hfree
  have hp3 : chip3.powerLost = false := by rw [hw.frame]; exact hpl.ready.powered
  have hB := size_blocks hWb p chip.geometry.eraseValue
  -- only the blocks from `off` on change
  have hkeep : ∀ q, ¬ (off ≤ q ∧ q < off + Nat.blockCeil p.size e.store.config.writeBlock.toNat) →
      chip3.cells.get! q = chip.cells.get! q := by
    intro q hq
    rw [hw.get, if_neg (by rw [hB]; exact hq)]
  refine ⟨{ e with rig := { e.rig with chip := { chip3 with locked := true } } }, ?_, rfl, ?_, ?_,
    fun q hq => hkeep q fun hin => Config.not_beyond hj ho hin hq⟩
  · simp only [program, if_neg h0, run_bind, run_store, hmask, hphys]
    rw [← hev]
    rw [run_tryCatch_ok (by rw [run_onChip, run_unprotected hpl.ready.powered hact hp3])]
  · have hg : chip3.geometry = chip.geometry := by rw [hw.frame]
    exact ⟨by rw [← hev]; exact congrArg Flash.Geometry.eraseValue hg,
      by show chip3.cells.size = chip3.geometry.size; rw [hw.size, hg]; exact hpl.size,
      by show _ ≤ chip3.geometry.size; rw [hg]; exact hpl.region,
      by show chip3.geometry.writeBlock ≤ 1 ∨ _; rw [hg]; exact hpl.write_block,
      by show chip3.geometry.eraseBlock ≤ 1 ∨ _; rw [hg]; exact hpl.erase_block,
      ⟨hp3, by show chip3.budget < 0; rw [hw.frame]; exact hpl.ready.unarmed⟩⟩
  · apply hh.update
    · intro q hq
      exact hkeep q fun hin => hq (o + (q - off)) (by omega) (by omega)
    · intro o' ho'
      show chip3.cells.get! _ = _
      rw [hw.get, hB]
      by_cases hin : o ≤ o' ∧ o' < o + Nat.blockCeil p.size e.store.config.writeBlock.toNat
      · rw [if_pos (by omega), get!_blocks hWb _ _ (by omega)]
        by_cases hp : o' < o + p.size
        · rw [if_pos (by omega), Sector.put_of_mem (by rw [ByteArray.length_toList]; omega),
            ByteArray.get!_of_toList rfl]
          congr 1
          omega
        · rw [if_neg (by omega), Sector.put_of_not_mem (by rw [ByteArray.length_toList]; omega),
            hev]
          have := hblank (o' - o) (by omega)
          rw [Nat.add_sub_cancel' hin.1] at this
          exact this.symm
      · rw [if_neg (by omega), Sector.put_of_not_mem (by rw [ByteArray.length_toList]; omega)]
        exact hh j hj o' ho'

/-- A table slot of the region reads as what its bytes classify as. -/
theorem run_readSlot (hc : c.Usable) (hcfg : e.store.config = c) (hpl : c.Placed e.rig.chip)
    (hh : c.Hosts e.rig.chip img) {j o : Nat} (hj : j < c.sectorCount.toNat)
    (ho : o + c.entrySize.toNat ≤ c.sectorSize.toNat) :
    ∃ raw e', (readSlot (Address.at j o)).run.run e = (.ok (Slot.classify raw c.eraseValue), e') ∧
      e.Reads e' ∧ raw.toList = Sector.slice (img j) o c.entrySize.toNat := by
  obtain ⟨b, e', hr, hre, hb⟩ := run_read hc hcfg hpl hh hj ho
  refine ⟨b, e', ?_, hre, hb⟩
  simp only [readSlot, run_bind, run_store, Store.entrySize, hcfg, hr, run_pure]

/-- Appending a value at the data cursor writes it there and moves the cursor past its write
blocks. -/
theorem run_writeData (hc : c.Usable) (hpol : Flash.Polar c.eraseValue) (hcfg : e.store.config = c)
    (hpl : c.Placed e.rig.chip) (hh : c.Hosts e.rig.chip img) {j d : Nat}
    (hj : j < c.sectorCount.toNat) (hd : e.store.dataCursor = Address.at j d)
    (hW : c.writeBlock.toNat ∣ d) {p : ByteArray}
    (hroom : d + Nat.blockCeil p.size c.writeBlock.toNat ≤ c.sectorSize.toNat)
    (hblank : Sector.Blank (img j) c.eraseValue d (Nat.blockCeil p.size c.writeBlock.toNat)) :
    ∃ e', (writeData p).run.run e = (.ok (), e') ∧
      e'.store = { e.store with
        dataCursor := Address.at j (d + Nat.blockCeil p.size c.writeBlock.toNat) } ∧
      c.Placed e'.rig.chip ∧
      c.Hosts e'.rig.chip (Function.update img j (Sector.put (img j) d p.toList)) ∧
      c.Confined e.rig.chip e'.rig.chip := by
  subst hcfg
  have hn := hc.count_le
  have hS := hc.sector_le
  have hbc := Nat.le_blockCeil (n := p.size) hc.block_pos
  have hblock : (alignUp p.size.toUInt32 e.store.config.writeBlock).toNat = Nat.blockCeil p.size e.store.config.writeBlock.toNat := by
    rw [alignUp_toNat hc.block, Nat.toUInt32_eq, UInt32.toNat_ofNat', Nat.mod_eq_of_lt (by omega)]
    have : e.store.config.writeBlock.toNat ≤ 32 := Nat.le_of_dvd (by decide) (dvd_32_of_mem_blockSizes hc.block)
    rw [Nat.toUInt32_eq, UInt32.toNat_ofNat', Nat.mod_eq_of_lt (by omega)]
    omega
  obtain ⟨e', hrun, hst, hpl', hh', hcf⟩ := run_program (e := { e with store := { e.store with
      dataCursor := Address.at j (d + Nat.blockCeil p.size e.store.config.writeBlock.toNat) } })
    hc hpol rfl hpl hh hj hW hroom hblank
  refine ⟨e', ?_, hst, hpl', hh', hcf⟩
  simp only [writeData, run_bind, run_store, run_modifyStore, hd]
  rw [Address.plus_at (by omega) (by rw [hblock]; omega), hblock]
  exact hrun

/-- Appending an entry at the entry cursor writes it there and moves the cursor one slot down. -/
theorem run_writeEntry (hc : c.Usable) (hpol : Flash.Polar c.eraseValue) (hcfg : e.store.config = c)
    (hpl : c.Placed e.rig.chip) (hh : c.Hosts e.rig.chip img) {j t : Nat}
    (hj : j < c.sectorCount.toNat) (ht : e.store.ateCursor = Address.at j t)
    (hW : c.writeBlock.toNat ∣ t) (hE : c.entrySize.toNat ≤ t)
    (hroom : t + c.entrySize.toNat ≤ c.sectorSize.toNat) (en : Entry)
    (hblank : Sector.Blank (img j) c.eraseValue t c.entrySize.toNat) :
    ∃ e', (writeEntry en).run.run e = (.ok (), e') ∧
      e'.store = { e.store with ateCursor := Address.at j (t - c.entrySize.toNat) } ∧
      c.Placed e'.rig.chip ∧
      c.Hosts e'.rig.chip (Function.update img j (Sector.put (img j) t en.encode)) ∧
      c.Confined e.rig.chip e'.rig.chip := by
  subst hcfg
  have hn := hc.count_le
  have hS := hc.sector_le
  have hsize : en.encode.toByteArray.size = entryWidth := by
    rw [List.size_toByteArray, Entry.length_encode]
  have hEb : Nat.blockCeil en.encode.toByteArray.size e.store.config.writeBlock.toNat =
      e.store.config.entrySize.toNat := by
    rw [hsize, Config.entrySize_toNat hc.block]
    rfl
  have hlist : en.encode.toByteArray.toList = en.encode := by
    rw [ByteArray.toList_eq, List.data_toByteArray, List.toList_toArray]
  obtain ⟨e', hrun, hst, hpl', hh', hcf⟩ := run_program (p := en.encode.toByteArray) (e := { e with
      store := { e.store with ateCursor := Address.at j (t - e.store.config.entrySize.toNat) } })
    hc hpol rfl hpl hh hj hW (by rw [hEb]; exact hroom) (by rw [hEb]; exact hblank)
  rw [hlist] at hh'
  refine ⟨e', ?_, hst, hpl', hh', hcf⟩
  simp only [writeEntry, run_bind, run_store, run_modifyStore, ht, Store.entrySize]
  rw [Address.minus_at (by omega) (by omega) hE]
  exact hrun

end StoreM

end NorStore
