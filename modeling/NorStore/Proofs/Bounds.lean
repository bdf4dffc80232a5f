import NorStore.Proofs.Advance
import NorStore.Proofs.Remount

/-!
# Address arithmetic stays exact

The store computes with addresses as 32-bit words, the sector in the high half and the offset in
the low half, and never checks a sum for a carry: an offset that ran past sixteen bits would
silently name the next sector, and a sum past `2^32` would wrap round to sector zero. On a
configuration that `Config.validate` accepts, neither happens where the store looks.

*Ranges.* `Config.Within c a n` says that the `n` bytes from `a` lie in one sector of the
region. Every address is byte `offset` of sector `sector` (`Address.eq_at`), so the device offset
of such a range is its natural number, and the range ends by the end of the region, which itself
ends inside the 32-bit space (`Config.Within.physical`). Every sector, its close slot and its
table slots are such ranges.

*The ring.* Stepping forward or back round a ring of at most 65535 sectors gives the next or the
previous sector at the same offset, without a carry or a wrap, and the two steps undo each other
(`Address.advance_eq`, `Address.retreat_advance`).

*A stored ring.* Where the part holds a ring and the cursors stand where the ring puts them
(`Ring.Stored`), the store's sums are exact (`Engine.Exact`): both cursors lie in the active
sector; one entry up from the entry cursor, the offset a close entry records, stays in the
sector and fits its 16-bit field; for every value the size check admits, the room check adds
without wrapping and decides exactly whether value and entry fit, and once it passes both are
programmed inside the sector and the cursors move by exact sums; and every entry a walk can reach
names a value inside its own sector, under its slot (`Ring.Stored.exact`). Every state a rotation
passes through is such a ring, and so is every state a client reaches. In the middle of a
collection's copying loop, a record the collection keeps is copied from the collected sector to
the data cursor in chunks that each start at an exact sum (`Config.Within.plus_exact`), and its
entry goes above it in the same sector (`Ring.Stored.relocates`).

*Main statement* (`Session.Reachable.addresses_exact`).
-/

namespace NorStore

/-! ## Ranges of the region -/

/-- The `n` bytes from `a` lie in one sector of the region of `c`. -/
def Config.Within (c : Config) (a : Address) (n : Nat) : Prop :=
  a.sector.toNat < c.sectorCount.toNat ∧ a.offset.toNat + n ≤ c.sectorSize.toNat

namespace Address

theorem sector_toNat (a : Address) : a.sector.toNat = a.raw.toNat / 65536 := by
  simp only [sector, UInt32.toNat_shiftRight]
  rw [show (16 : UInt32).toNat % 32 = 16 from rfl, Nat.shiftRight_eq_div_pow]

theorem offset_toNat (a : Address) : a.offset.toNat = a.raw.toNat % 65536 := by
  simp only [offset, UInt32.toNat_and]
  rw [show (65535 : UInt32).toNat = 2 ^ 16 - 1 from rfl, Nat.and_two_pow_sub_one_eq_mod]

theorem sector_lt (a : Address) : a.sector.toNat < 65536 := by
  have := a.raw.toNat_lt
  rw [sector_toNat]
  omega

theorem offset_lt (a : Address) : a.offset.toNat < 65536 := by
  rw [offset_toNat]
  omega

/-- Every address is byte `offset` of sector `sector`. -/
theorem eq_at (a : Address) : a = Address.at a.sector.toNat a.offset.toNat := by
  rw [eq_iff_raw_toNat, at_raw_toNat a.sector_lt a.offset_lt, sector_toNat, offset_toNat]
  omega

/-- A sum that stays below `2^32` is the sum of the numbers. -/
theorem plus_raw_toNat {a : Address} {k : UInt32} (h : a.raw.toNat + k.toNat < 4294967296) :
    (a.plus k).raw.toNat = a.raw.toNat + k.toNat := by
  show (a.raw + k).toNat = _
  rw [UInt32.toNat_add, Nat.mod_eq_of_lt h]

/-- A difference that stays at or above zero is the difference of the numbers. -/
theorem minus_raw_toNat {a : Address} {k : UInt32} (h : k.toNat ≤ a.raw.toNat) :
    (a.minus k).raw.toNat = a.raw.toNat - k.toNat := by
  show (a.raw - k).toNat = _
  rw [UInt32.toNat_sub_of_le _ _ (UInt32.le_iff_toNat_le.2 h)]

/-- The next sector of a ring of at most 65535, at the same offset. -/
theorem advance_eq {n : UInt32} (hn : n.toNat ≤ 65535) {a : Address}
    (ha : a.sector.toNat < n.toNat) :
    a.advance n = Address.at ((a.sector.toNat + 1) % n.toNat) a.offset.toNat := by
  conv_lhs => rw [eq_at a]
  exact advance_at ha hn a.offset_lt

/-- The previous sector of a ring of at most 65535, at the same offset. -/
theorem retreat_eq {n : UInt32} (hn : n.toNat ≤ 65535) {a : Address}
    (ha : a.sector.toNat < n.toNat) :
    a.retreat n = Address.at ((a.sector.toNat + n.toNat - 1) % n.toNat) a.offset.toNat := by
  conv_lhs => rw [eq_at a]
  exact retreat_at ha hn a.offset_lt

/-- Stepping back undoes stepping forward. -/
theorem retreat_advance {n : UInt32} (hn : n.toNat ≤ 65535) {a : Address}
    (ha : a.sector.toNat < n.toNat) : (a.advance n).retreat n = a := by
  have hnext : (a.sector.toNat + 1) % n.toNat < n.toNat := Nat.mod_lt _ (by omega)
  -- the sector before the next one is the sector itself, also across the end of the ring
  have hback : ((a.sector.toNat + 1) % n.toNat + n.toNat - 1) % n.toNat = a.sector.toNat := by
    by_cases hlast : a.sector.toNat + 1 = n.toNat
    · rw [hlast, Nat.mod_self, Nat.zero_add,
        Nat.mod_eq_of_lt (show n.toNat - 1 < n.toNat by omega)]
      omega
    · rw [Nat.mod_eq_of_lt (show a.sector.toNat + 1 < n.toNat by omega),
        show a.sector.toNat + 1 + n.toNat - 1 = a.sector.toNat + n.toNat by omega,
        Nat.add_mod_right, Nat.mod_eq_of_lt ha]
  rw [advance_eq hn ha, retreat_at hnext hn a.offset_lt, hback, ← eq_at]

/-- Stepping forward undoes stepping back. -/
theorem advance_retreat {n : UInt32} (hn : n.toNat ≤ 65535) {a : Address}
    (ha : a.sector.toNat < n.toNat) : (a.retreat n).advance n = a := by
  have hprev : (a.sector.toNat + n.toNat - 1) % n.toNat < n.toNat := Nat.mod_lt _ (by omega)
  -- the sector after the previous one is the sector itself, also across the start of the ring
  have hfwd : ((a.sector.toNat + n.toNat - 1) % n.toNat + 1) % n.toNat = a.sector.toNat := by
    by_cases hfirst : a.sector.toNat = 0
    · rw [hfirst, Nat.zero_add, Nat.mod_eq_of_lt (show n.toNat - 1 < n.toNat by omega),
        Nat.sub_add_cancel (show 1 ≤ n.toNat by omega), Nat.mod_self]
    · rw [show a.sector.toNat + n.toNat - 1 = a.sector.toNat - 1 + n.toNat by omega,
        Nat.add_mod_right, Nat.mod_eq_of_lt (show a.sector.toNat - 1 < n.toNat by omega),
        Nat.sub_add_cancel (show 1 ≤ a.sector.toNat by omega), Nat.mod_eq_of_lt ha]
  rw [retreat_eq hn ha, advance_at hprev hn a.offset_lt, hfwd, ← eq_at]

end Address

namespace Config

variable {c : Config}

/-- A range inside one sector is a range of device offsets that does not wrap, and it ends by
the end of the region, which ends inside the 32-bit space. -/
theorem Within.physical (hc : c.Usable) {s : Store} (hs : s.config = c) {a : Address} {n : Nat}
    (h : c.Within a n) :
    (s.physical a).toNat = c.offset.toNat + a.sector.toNat * c.sectorSize.toNat + a.offset.toNat ∧
      (s.physical a).toNat + n ≤ c.offset.toNat + c.sectorSize.toNat * c.sectorCount.toNat ∧
      c.offset.toNat + c.sectorSize.toNat * c.sectorCount.toNat ≤ 4294967295 := by
  obtain ⟨hsec, hend⟩ := h
  have hp := StoreM.physical_at hc hs hsec (by omega : a.offset.toNat ≤ c.sectorSize.toNat)
  rw [← Address.eq_at] at hp
  -- the sector ends by the start of the next one, at most the end of the region
  have hrow : a.sector.toNat * c.sectorSize.toNat + c.sectorSize.toNat ≤
      c.sectorSize.toNat * c.sectorCount.toNat := by
    rw [← Nat.succ_mul, Nat.mul_comm]
    exact Nat.mul_le_mul_left _ hsec
  exact ⟨hp, by omega, hc.region⟩

/-- A slot counted from the top lies under the close slot, also where the count runs past the
bottom of the sector. -/
theorem slot_add_le_closeOffset (hc : c.Usable) (k : Nat) :
    c.slot k + c.entrySize.toNat ≤ c.closeOffset := by
  have := hc.four_entries
  have : 2 * c.entrySize.toNat ≤ (k + 2) * c.entrySize.toNat := Nat.mul_le_mul_right _ (by omega)
  unfold slot closeOffset
  omega

/-- Bytes `o` to `o + n` of a sector of the region are a range of it. -/
theorem within_at (hc : c.Usable) {j o n : Nat} (hj : j < c.sectorCount.toNat)
    (h : o + n ≤ c.sectorSize.toNat) : c.Within (Address.at j o) n := by
  have := hc.sector_le
  have := hc.count_le
  refine ⟨?_, ?_⟩
  · rw [Address.sector_at (by omega) (by omega)]
    exact hj
  · rw [Address.offset_at (by omega) (by omega)]
    exact h

/-- A whole sector of the region is a range of it. -/
theorem within_sector (hc : c.Usable) {j : Nat} (hj : j < c.sectorCount.toNat) :
    c.Within (Address.at j 0) c.sectorSize.toNat :=
  within_at hc hj (Nat.zero_add _).le

/-- The close slot of a sector of the region is a range of it. -/
theorem within_closeSlot (hc : c.Usable) {j : Nat} (hj : j < c.sectorCount.toNat) :
    c.Within (Address.at j c.closeOffset) c.entrySize.toNat := by
  have := hc.four_entries
  exact within_at hc hj (by unfold closeOffset; omega)

/-- A table slot is a range of the region. -/
theorem TableSlot.within (hc : c.Usable) {a : Address} (h : c.TableSlot a) :
    c.Within a c.entrySize.toNat := by
  obtain ⟨j, i, hj, -, rfl⟩ := h
  have := slot_add_le_closeOffset hc i
  exact within_at hc hj (by unfold closeOffset at this; omega)

/-- Every step into a range of the region is an exact sum: the chunks a copy reads or writes
start where the numbers say. -/
theorem Within.plus_exact {a : Address} {n : Nat} (h : c.Within a n) (hc : c.Usable) {m : Nat}
    (hm : m ≤ n) : (a.plus m.toUInt32).raw.toNat = a.raw.toNat + m := by
  have hS := hc.sector_le
  have hN := hc.count_le
  have hraw : a.raw.toNat = a.sector.toNat * 65536 + a.offset.toNat := by
    rw [Address.sector_toNat, Address.offset_toNat]
    omega
  obtain ⟨hsec, hend⟩ := h
  have hm' : m.toUInt32.toNat = m := by
    rw [Nat.toUInt32_eq, UInt32.toNat_ofNat', Nat.mod_eq_of_lt (by omega)]
  rw [Address.plus_raw_toNat (by omega), hm']

/-- Where closing a sector writes its close entry, and where a collection of the sector stops:
the close slot, and the slot under it. -/
theorem closeSlot_at (hc : c.Usable) {s : Store} (hs : s.config = c) {j : Nat}
    (hj : j < c.sectorCount.toNat) :
    (Address.at j 0).plus s.closeSlot = Address.at j c.closeOffset ∧
      (Address.at j c.closeOffset).minus s.entrySize = Address.at j (c.slot 0) := by
  have := hc.sector_le
  have := hc.count_le
  have := hc.four_entries
  have hclose := Store.closeSlot_toNat hs hc
  have hE : s.entrySize.toNat = c.entrySize.toNat := by rw [Store.entrySize, hs]
  rw [Address.plus_at (by omega) (by rw [hclose]; unfold closeOffset; omega), hclose, Nat.zero_add,
    Address.minus_at (by omega) (by unfold closeOffset; omega) (by rw [hE]; unfold closeOffset; omega),
    hE]
  refine ⟨rfl, ?_⟩
  unfold closeOffset slot
  congr 1
  omega

/-! ## Values named by entries -/

/-- In an open sector holding `rs`, an entry met below a run of slots that are not erased is the
entry of one of the records: its value starts in the sector and ends, in whole write blocks, an
entry under its slot. -/
theorem layout_value_below (hc : c.Usable) (hpol : Flash.Polar c.eraseValue) {rs : List Record}
    (h : c.Fits rs) (hkeys : ∀ r ∈ rs, r.key ≠ Entry.closeKey) {i : Nat}
    (hreach : ∀ k ≤ i, c.slotIn (c.layout rs) (c.slot k) ≠ .erased) {en : Entry}
    (hen : c.slotIn (c.layout rs) (c.slot i) = .valid en) :
    en.offset.toNat + Nat.blockCeil en.length.toNat c.writeBlock.toNat + c.entrySize.toNat ≤
      c.slot i := by
  have hS := hc.sector_le
  -- the free slot reads as erased, so the run stops above it, among the records
  have hi : i < rs.length := by
    by_contra hge
    exact hreach rs.length (by omega) (slotIn_free hc h)
  obtain ⟨pre, r, post, rfl, rfl⟩ : ∃ pre r post, rs = pre ++ r :: post ∧ post.length = i := by
    refine ⟨rs.take (rs.length - 1 - i), rs[rs.length - 1 - i],
      rs.drop (rs.length - 1 - i + 1), ?_, ?_⟩
    · rw [← List.drop_eq_getElem_cons, List.take_append_drop]
    · rw [List.length_drop]
      omega
  have hentry := slotIn_entry hc hpol h (hkeys r (List.mem_append_right _ List.mem_cons_self))
  rw [hen, Slot.valid.injEq] at hentry
  subst hentry
  have hfit : c.Fits (r :: post) := Fits.of_append h
  obtain ⟨hsize, hdata, hslot, -, -⟩ := hfit.cons_offsets hc
  have hend : c.dataEnd post ≤ c.sectorSize.toNat := by
    have := hfit.tail.dataEnd_le
    unfold slot at this
    omega
  -- the entry records the value's offset and length as they are
  have hoff : (r.entry (c.dataEnd post)).offset.toNat = c.dataEnd post := by
    show (c.dataEnd post).toUInt16.toNat = _
    simp only [Nat.toUInt16_eq, UInt16.toNat_ofNat']
    omega
  have hlen : (r.entry (c.dataEnd post)).length.toNat = r.value.size := by
    show r.value.size.toUInt16.toNat = _
    simp only [Nat.toUInt16_eq, UInt16.toNat_ofNat']
    have := hfit.dataEnd_le
    unfold slot at this
    rw [dataEnd_cons] at this
    omega
  rw [hoff, hlen]
  omega

end Config

namespace Ring

variable {c : Config} {R : Ring} {e : Engine}

/-- An entry met below a run of slots that are not erased, in any sector of a ring: its value
starts in the sector and ends, in whole write blocks, an entry under its slot. A blank sector
has no such entry, and a closed one reads below its close slot as it did open. -/
theorem value_below (hc : c.Usable) (hpol : Flash.Polar c.eraseValue) (hR : R.Fit c) (j : Nat)
    {i : Nat} (hreach : ∀ k ≤ i, c.slotIn (R.image c j) (c.slot k) ≠ .erased) {en : Entry}
    (hen : c.slotIn (R.image c j) (c.slot i) = .valid en) :
    en.offset.toNat + Nat.blockCeil en.length.toNat c.writeBlock.toNat + c.entrySize.toNat ≤
      c.slot i := by
  unfold image at hreach hen
  cases hb : c.distance R.active j with
  | zero =>
    rw [hb, sectorAt] at hreach hen
    exact Config.layout_value_below hc hpol hR.current
      (fun r hr => hR.keys r (List.mem_append_left _ hr)) hreach hen
  | succ b =>
    rw [hb, sectorAt] at hreach hen
    cases hcl : R.closed[b]? with
    | none =>
      -- a blank sector reads as erased from its first slot
      rw [hcl] at hreach
      exact absurd (Config.slotIn_blank fun _ _ => rfl) (hreach 0 (Nat.zero_le _))
    | some rs =>
      rw [hcl] at hreach hen
      have hmem : rs ∈ R.closed := List.mem_of_getElem? hcl
      have hreach' : ∀ k ≤ i, c.slotIn (c.layout rs) (c.slot k) ≠ .erased := fun k hk => by
        rw [← Config.slotIn_closedLayout (Config.slot_add_le_closeOffset hc k)]
        exact hreach k hk
      rw [Config.slotIn_closedLayout (Config.slot_add_le_closeOffset hc i)] at hen
      exact Config.layout_value_below hc hpol (hR.closed rs hmem).1
        (fun r hr => hR.keys r (List.mem_append_right _ (List.mem_flatten.2 ⟨rs, hmem, hr⟩)))
        hreach' hen

end Ring

/-! ## A stored ring -/

/-- The address sums of an engine's store stay exact and inside the region of `c`. -/
structure Engine.Exact (c : Config) (e : Engine) : Prop where
  /-- The store runs with configuration `c`. -/
  config : e.store.config = c
  /-- Both cursors lie in one sector of the region, before its end, the data cursor not past the
  entry cursor. -/
  cursors : e.store.ateCursor.sector.toNat < c.sectorCount.toNat ∧
    e.store.ateCursor.offset.toNat < c.sectorSize.toNat ∧
    e.store.dataCursor.sector.toNat < c.sectorCount.toNat ∧
    e.store.dataCursor.offset.toNat < c.sectorSize.toNat ∧
    e.store.dataCursor.sector = e.store.ateCursor.sector ∧ e.store.dataCursor ≤ e.store.ateCursor
  /-- One entry up from the entry cursor, where a close entry points, is an exact sum that stays
  in the sector, and its offset fits the close entry's 16-bit field as it is. -/
  closing : (e.store.ateCursor.plus c.entrySize).raw.toNat =
      e.store.ateCursor.raw.toNat + c.entrySize.toNat ∧
    (e.store.ateCursor.plus c.entrySize).offset.toUInt16.toNat =
      e.store.ateCursor.offset.toNat + c.entrySize.toNat
  /-- For a value the size check admits: the room check adds without wrapping and decides
  exactly whether the value and its entry fit between the cursors; the value's length and the
  data cursor's offset fit the entry's 16-bit fields as they are; and once the check passes, the
  value and the entry are programmed inside the sector and both cursors move by exact sums, the
  data cursor staying at or under the entry cursor. -/
  writing : ∀ data : ByteArray, (data.size : Int) ≤ c.maxValueSize →
    let need : UInt32 :=
      if data.size = 0 then c.entrySize else c.entrySize + alignUp data.size.toUInt32 c.writeBlock
    let step : UInt32 := alignUp data.size.toUInt32 c.writeBlock
    (e.store.dataCursor.plus need).raw.toNat = e.store.dataCursor.raw.toNat + need.toNat ∧
    (e.store.ateCursor ≥ e.store.dataCursor.plus need ↔
      e.store.dataCursor.offset.toNat + need.toNat ≤ e.store.ateCursor.offset.toNat) ∧
    data.size.toUInt16.toNat = data.size ∧
    e.store.dataCursor.offset.toUInt16.toNat = e.store.dataCursor.offset.toNat ∧
    (e.store.ateCursor ≥ e.store.dataCursor.plus need →
      c.Within e.store.dataCursor step.toNat ∧ c.Within e.store.ateCursor c.entrySize.toNat ∧
      (e.store.dataCursor.plus step).raw.toNat = e.store.dataCursor.raw.toNat + step.toNat ∧
      (e.store.ateCursor.minus c.entrySize).raw.toNat =
        e.store.ateCursor.raw.toNat - c.entrySize.toNat ∧
      e.store.dataCursor.plus step ≤ e.store.ateCursor.minus c.entrySize)
  /-- Every entry met below a run of slots that are not erased, from the top of a sector down,
  names a value that starts in its own sector and ends, in whole write blocks, an entry under its
  slot. -/
  values : ∀ j < c.sectorCount.toNat, ∀ i,
    (∀ k ≤ i, c.slotIn (c.sectorOn e.rig.chip j) (c.slot k) ≠ .erased) →
    ∀ en, c.slotIn (c.sectorOn e.rig.chip j) (c.slot i) = .valid en →
      StoreM.valueAddr (Address.at j (c.slot i)) en = Address.at j en.offset.toNat ∧
      en.offset.toNat + Nat.blockCeil en.length.toNat c.writeBlock.toNat + c.entrySize.toNat ≤
        c.slot i

/-- Copying a value of `len` bytes from byte `o` of sector `src` to the data cursor, and then its
entry to the entry cursor, as a collection relocates a record, stays in the region: the value
is read from one sector and written into the sector of the cursors, the entry records the data
cursor's offset and the length in its 16-bit fields as they are, and the entry goes into its
slot above the copied value, the entry cursor moving down by an exact difference. -/
structure Engine.Relocates (c : Config) (e : Engine) (src o len : Nat) : Prop where
  /-- The value's bytes lie in one sector of the region. -/
  source : c.Within (Address.at src o) len
  /-- The copy, in whole write blocks, lies in the sector of the data cursor. -/
  target : c.Within e.store.dataCursor (Nat.blockCeil len c.writeBlock.toNat)
  /-- The moved entry's offset and length fields hold the numbers as they are. -/
  fields : e.store.dataCursor.offset.toUInt16.toNat = e.store.dataCursor.offset.toNat ∧
    len.toUInt16.toNat = len
  /-- The entry's slot lies in the sector of the entry cursor. -/
  entry : c.Within e.store.ateCursor c.entrySize.toNat
  /-- One entry down from the entry cursor is an exact difference. -/
  down : (e.store.ateCursor.minus c.entrySize).raw.toNat =
    e.store.ateCursor.raw.toNat - c.entrySize.toNat
  /-- The data cursor after the copy stays at or under the entry cursor after the entry. -/
  apart : e.store.dataCursor.plus (Nat.blockCeil len c.writeBlock.toNat).toUInt32 ≤
    e.store.ateCursor.minus c.entrySize

namespace Ring

variable {c : Config} {R : Ring} {e : Engine}

/-- The cursors of a stored ring: the free slot `t` and the end `d` of the values of the active
sector, with the values under the free slot and the free slot two entries under the sector's
end. -/
theorem Stored.bounds (hst : R.Stored c e) :
    e.store.ateCursor = Address.at R.active (c.slot R.current.length) ∧
      e.store.dataCursor = Address.at R.active (c.dataEnd R.current) ∧
      R.active < c.sectorCount.toNat ∧ c.dataEnd R.current ≤ c.slot R.current.length ∧
      c.slot R.current.length + 2 * c.entrySize.toNat ≤ c.sectorSize.toNat := by
  have hfit := hst.current
  have htwo : 2 * c.entrySize.toNat ≤ (R.current.length + 2) * c.entrySize.toNat :=
    Nat.mul_le_mul_right _ (by omega)
  refine ⟨hst.ate, hst.data, hst.active_lt, hfit.dataEnd_le, ?_⟩
  unfold Config.Fits at hfit
  unfold Config.slot
  omega

section Exact

variable (hc : c.Usable) (hst : R.Stored c e)
include hc hst

theorem Stored.exact_cursors :
    e.store.ateCursor.sector.toNat < c.sectorCount.toNat ∧
      e.store.ateCursor.offset.toNat < c.sectorSize.toNat ∧
      e.store.dataCursor.sector.toNat < c.sectorCount.toNat ∧
      e.store.dataCursor.offset.toNat < c.sectorSize.toNat ∧
      e.store.dataCursor.sector = e.store.ateCursor.sector ∧
      e.store.dataCursor ≤ e.store.ateCursor := by
  have hS := hc.sector_le
  have hN := hc.count_le
  have hE : 30 ≤ c.entrySize.toNat := hc.entry_ge
  obtain ⟨hate, hdata, hj, hdt, ht⟩ := hst.bounds
  have hsd := Address.sector_at (i := R.active) (o := c.dataEnd R.current) (by omega) (by omega)
  have hst' := Address.sector_at (i := R.active) (o := c.slot R.current.length) (by omega) (by omega)
  rw [hate, hdata, hsd, hst', Address.offset_at (by omega) (by omega),
    Address.offset_at (by omega) (by omega),
    Address.at_le_at_iff (by omega) (by omega) (by omega) (by omega)]
  exact ⟨hj, by omega, hj, by omega, UInt32.toNat_inj.1 (hsd.trans hst'.symm), by omega⟩

theorem Stored.exact_closing :
    (e.store.ateCursor.plus c.entrySize).raw.toNat =
        e.store.ateCursor.raw.toNat + c.entrySize.toNat ∧
      (e.store.ateCursor.plus c.entrySize).offset.toUInt16.toNat =
        e.store.ateCursor.offset.toNat + c.entrySize.toNat := by
  have := hc.sector_le
  have := hc.count_le
  have hE : 30 ≤ c.entrySize.toNat := hc.entry_ge
  obtain ⟨hate, -, hj, -, ht⟩ := hst.bounds
  rw [hate, Address.plus_at (by omega) (by omega), Address.at_raw_toNat (by omega) (by omega),
    Address.at_raw_toNat (by omega) (by omega), UInt32.toNat_toUInt16,
    Address.offset_at (by omega) (by omega), Address.offset_at (by omega) (by omega)]
  exact ⟨by omega, by omega⟩

theorem Stored.exact_writing (data : ByteArray) (hsize : (data.size : Int) ≤ c.maxValueSize) :
    let need : UInt32 :=
      if data.size = 0 then c.entrySize else c.entrySize + alignUp data.size.toUInt32 c.writeBlock
    let step : UInt32 := alignUp data.size.toUInt32 c.writeBlock
    (e.store.dataCursor.plus need).raw.toNat = e.store.dataCursor.raw.toNat + need.toNat ∧
    (e.store.ateCursor ≥ e.store.dataCursor.plus need ↔
      e.store.dataCursor.offset.toNat + need.toNat ≤ e.store.ateCursor.offset.toNat) ∧
    data.size.toUInt16.toNat = data.size ∧
    e.store.dataCursor.offset.toUInt16.toNat = e.store.dataCursor.offset.toNat ∧
    (e.store.ateCursor ≥ e.store.dataCursor.plus need →
      c.Within e.store.dataCursor step.toNat ∧ c.Within e.store.ateCursor c.entrySize.toNat ∧
      (e.store.dataCursor.plus step).raw.toNat = e.store.dataCursor.raw.toNat + step.toNat ∧
      (e.store.ateCursor.minus c.entrySize).raw.toNat =
        e.store.ateCursor.raw.toNat - c.entrySize.toNat ∧
      e.store.dataCursor.plus step ≤ e.store.ateCursor.minus c.entrySize) := by
  intro need step
  have hS := hc.sector_le
  have hN := hc.count_le
  have hE : 30 ≤ c.entrySize.toNat := hc.entry_ge
  have hW : c.writeBlock.toNat ≤ 32 := Nat.le_of_dvd (by decide) (dvd_32_of_mem_blockSizes hc.block)
  obtain ⟨hate, hdata, hj, hdt, ht⟩ := hst.bounds
  -- the value and three entries fit a sector: so the entry and the value need less than 65536
  have hroom : Nat.blockCeil data.size c.writeBlock.toNat + 3 * c.entrySize.toNat ≤
      c.sectorSize.toNat := by
    have := Config.fits_single hc (r := ⟨Entry.closeKey, data⟩) hsize
    unfold Config.Fits at this
    simp only [Config.dataEnd_cons, Config.dataEnd_nil, List.length_singleton] at this
    omega
  have hle := Nat.le_blockCeil (n := data.size) hc.block_pos
  have hneed : need.toNat = c.entrySize.toNat + Nat.blockCeil data.size c.writeBlock.toNat :=
    Config.need_toNat hc (by omega)
  have hstep : step.toNat = Nat.blockCeil data.size c.writeBlock.toNat := by
    rw [alignUp_toNat hc.block (by rw [Nat.toUInt32_eq, UInt32.toNat_ofNat']; omega),
      Nat.toUInt32_eq, UInt32.toNat_ofNat', Nat.mod_eq_of_lt (by omega)]
  rw [hate, hdata]
  -- every sum is a sum of numbers inside the sector or, for the room check, just past it
  have hdr := Address.at_raw_toNat (i := R.active) (o := c.dataEnd R.current) (by omega) (by omega)
  have htr := Address.at_raw_toNat (i := R.active) (o := c.slot R.current.length) (by omega) (by omega)
  have hdo := Address.offset_at (i := R.active) (o := c.dataEnd R.current) (by omega) (by omega)
  have hto := Address.offset_at (i := R.active) (o := c.slot R.current.length) (by omega) (by omega)
  refine ⟨Address.plus_raw_toNat (by omega), ?_, ?_, ?_, fun hcheck => ?_⟩
  · rw [GE.ge, Address.plus_le_at_iff (by omega) (by omega) (by omega) (by omega), hdo, hto]
  · simp only [Nat.toUInt16_eq, UInt16.toNat_ofNat']
    omega
  · rw [UInt32.toNat_toUInt16, hdo]
    omega
  · rw [GE.ge, Address.plus_le_at_iff (by omega) (by omega) (by omega) (by omega)] at hcheck
    have hnext := Address.at_raw_toNat (i := R.active) (o := c.dataEnd R.current + step.toNat)
      (by omega) (by omega)
    have hdown := Address.at_raw_toNat (i := R.active)
      (o := c.slot R.current.length - c.entrySize.toNat) (by omega) (by omega)
    rw [Address.plus_at (by omega) (by omega), Address.minus_at (by omega) (by omega) (by omega),
      Address.at_le_at_iff (by omega) (by omega) (by omega) (by omega), hnext, hdown]
    exact ⟨Config.within_at hc hj (by omega), Config.within_at hc hj (by omega), by omega, by omega,
      by omega⟩

theorem Stored.exact_values (hpol : Flash.Polar c.eraseValue) {j : Nat}
    (hj : j < c.sectorCount.toNat) {i : Nat}
    (hreach : ∀ k ≤ i, c.slotIn (c.sectorOn e.rig.chip j) (c.slot k) ≠ .erased) {en : Entry}
    (hen : c.slotIn (c.sectorOn e.rig.chip j) (c.slot i) = .valid en) :
    StoreM.valueAddr (Address.at j (c.slot i)) en = Address.at j en.offset.toNat ∧
      en.offset.toNat + Nat.blockCeil en.length.toNat c.writeBlock.toNat + c.entrySize.toNat ≤
        c.slot i := by
  have hS := hc.sector_le
  have hN := hc.count_le
  -- the part shows each slot of the sector as the ring's image does
  have himg : ∀ k, c.slotIn (c.sectorOn e.rig.chip j) (c.slot k) =
      c.slotIn (R.image c j) (c.slot k) := fun k => by
    have := Config.slot_add_le_closeOffset hc k
    exact slotIn_sectorOn hst.toHosted hj (by unfold Config.closeOffset at this; omega)
  rw [himg] at hen
  have hbound := value_below hc hpol hst.toFit j (fun k hk => by rw [← himg]; exact hreach k hk) hen
  have hslot : c.slot i ≤ c.sectorSize.toNat := by
    unfold Config.slot
    omega
  have hoff : en.offset.toUInt32.toNat = en.offset.toNat := UInt16.toNat_toUInt32 _
  refine ⟨?_, hbound⟩
  unfold StoreM.valueAddr
  rw [Address.sectorStart_at (by omega) (by omega), Address.plus_at (by omega) (by omega),
    Nat.zero_add, hoff]

/-- The address sums of a stored ring's store are exact. -/
theorem Stored.exact (hpol : Flash.Polar c.eraseValue) : e.Exact c where
  config := hst.config
  cursors := hst.exact_cursors hc
  closing := hst.exact_closing hc
  writing := hst.exact_writing hc
  values _ hj _ hreach _ hen := hst.exact_values hc hpol hj hreach hen

end Exact

/-- A collection in the middle of copying out of the oldest sector, once it has visited the
records `pre` of it, holds a ring; where the next record `g` is one it keeps, the copy of its
value and entry stays exact. -/
theorem Stored.relocates (hc : c.Usable) (hR : R.Fit c) (hne : R.current ≠ [])
    (hfull : R.closed.length + 2 = c.sectorCount.toNat) {pre post : List Record} {g : Record}
    (hG : R.oldest = pre ++ g :: post) (hst : (R.copying c pre).Stored c e)
    (hv : g.value.size ≠ 0) (hk : g.key ∉ R.newerKeys ++ pre.map (·.key)) :
    e.Relocates c (R.collected c) (c.dataEnd post) g.value.size := by
  have hS := hc.sector_le
  have hN := hc.count_le
  have hE : 30 ≤ c.entrySize.toNat := hc.entry_ge
  have hcol := collected_lt hc (R := R)
  -- the value sits in the collected sector, under the slot of `g`
  have hbd := bounds_of_mem_sites hc hst.toFit (site_mem_copying hc hfull hR hne hG)
  have hsrc : c.dataEnd post + g.value.size ≤ c.sectorSize.toNat := by
    have := hbd.value
    have := hbd.slot
    simp only [Config.slot] at *
    omega
  -- the copies so far and `g` fit the new active sector, whose cursors stand above the copies
  obtain ⟨hate, hdata, ha, -, -⟩ := hst.bounds
  set cr := (R.copying c pre).current
  have hfits : c.Fits (g :: cr) := by
    have := (Fit.copying hc hR hne hfull (show R.oldest = (pre ++ [g]) ++ post by rw [hG]; simp))
    rw [copying_append_kept hv hk] at this
    exact this.current
  have hroom : c.dataEnd cr + Nat.blockCeil g.value.size c.writeBlock.toNat +
      (cr.length + 3) * c.entrySize.toNat ≤ c.sectorSize.toNat := by
    have := hfits
    unfold Config.Fits at this
    rw [Config.dataEnd_cons, List.length_cons] at this
    omega
  have h3 : 3 * c.entrySize.toNat ≤ (cr.length + 3) * c.entrySize.toNat :=
    Nat.mul_le_mul_right _ (by omega)
  have hslot1 : c.slot cr.length = c.sectorSize.toNat - (cr.length + 2) * c.entrySize.toNat := rfl
  have hmul : (cr.length + 3) * c.entrySize.toNat =
      (cr.length + 2) * c.entrySize.toNat + c.entrySize.toNat := by
    rw [show cr.length + 3 = (cr.length + 2).succ from rfl, Nat.succ_mul]
  have hbc : Nat.blockCeil g.value.size c.writeBlock.toNat < 65536 := by omega
  have hbc32 : (Nat.blockCeil g.value.size c.writeBlock.toNat).toUInt32.toNat =
      Nat.blockCeil g.value.size c.writeBlock.toNat := by
    rw [Nat.toUInt32_eq, UInt32.toNat_ofNat', Nat.mod_eq_of_lt (by omega)]
  refine ⟨Config.within_at hc hcol hsrc, ?_, ⟨?_, ?_⟩, ?_, ?_, ?_⟩
  · rw [hdata]
    exact Config.within_at hc ha (by omega)
  · rw [hdata, UInt32.toNat_toUInt16, Address.offset_at (by omega) (by omega)]
    omega
  · simp only [Nat.toUInt16_eq, UInt16.toNat_ofNat']
    omega
  · rw [hate]
    exact Config.within_at hc ha (by omega)
  · rw [hate, Address.minus_at (by omega) (by omega) (by omega),
      Address.at_raw_toNat (by omega) (by omega), Address.at_raw_toNat (by omega) (by omega)]
    omega
  · rw [hate, hdata, Address.plus_at (by omega) (by omega),
      Address.minus_at (by omega) (by omega) (by omega),
      Address.at_le_at_iff (by omega) (by omega) (by omega) (by omega), hbc32]
    omega

end Ring

/-! ## Every state a client reaches -/

namespace Session

variable {c : Config} {s : Session}

/-- Address arithmetic never wraps. In every session a client reaches on a configuration that
`Config.validate` accepts and a part of either polarity:
* the store's sums are exact (`Engine.Exact`): both cursors lie in one sector of the region
  before its end, the offset a close entry records is one entry up from the entry cursor, the
  room check adds without wrapping and decides exactly whether a value fits, and a write that
  passes it programs value and entry inside the sector and moves both cursors by exact sums;
  lengths and offsets fit their 16-bit fields as they are; every entry a walk can reach names a
  value inside its own sector;
* a range inside one sector of the region is a range of device offsets that does not wrap and
  ends by the end of the region, which ends by `2^32 - 1`, and every step into it, where a copy
  reads or writes its next chunk, is an exact sum;
* every sector of the region, its close slot, and the slot under it where a collection stops are
  such ranges, reached by exact sums from the sector's start;
* a walk reads table slots only, each a range of the region, and steps from one to another
  whatever the part holds;
* stepping a sector forward or back round a ring of at most 65535 sectors keeps the offset and
  gives the next or the previous sector, the two steps undo each other, and a sector's start is
  offset zero of the same sector;
* the states a rotation passes through keep their sums exact too: every engine that holds a
  ring does, the ring after closing the active sector and the rings of a collection in the
  middle of its copying loop among them; and there, each record the collection keeps is copied
  from inside the collected sector into the sector of the cursors, its entry written above it,
  with exact sums and lossless 16-bit fields (`Engine.Relocates`). -/
theorem Reachable.addresses_exact (hv : c.validate = .ok ()) (hpol : Flash.Polar c.eraseValue)
    (hs : s.Reachable c) :
    s.engine.Exact c ∧
    (∀ (a : Address) (n : Nat), c.Within a n →
      ((s.engine.store.physical a).toNat =
          c.offset.toNat + a.sector.toNat * c.sectorSize.toNat + a.offset.toNat ∧
        (s.engine.store.physical a).toNat + n ≤
          c.offset.toNat + c.sectorSize.toNat * c.sectorCount.toNat ∧
        c.offset.toNat + c.sectorSize.toNat * c.sectorCount.toNat ≤ 4294967295) ∧
      ∀ m ≤ n, (a.plus m.toUInt32).raw.toNat = a.raw.toNat + m) ∧
    (∀ j < c.sectorCount.toNat, c.Within (Address.at j 0) c.sectorSize.toNat ∧
      c.Within (Address.at j c.closeOffset) c.entrySize.toNat ∧
      (Address.at j 0).plus s.engine.store.closeSlot = Address.at j c.closeOffset ∧
      (Address.at j c.closeOffset).minus s.engine.store.entrySize = Address.at j (c.slot 0)) ∧
    (∀ w : Walker, c.TableSlot w.addr → c.Within w.addr c.entrySize.toNat ∧
      StoreM.Walks c w.next (fun p => c.TableSlot p.2.2.addr) (fun _ => True)) ∧
    (∀ (n : UInt32) (a : Address), n.toNat ≤ 65535 → a.sector.toNat < n.toNat →
      a.advance n = Address.at ((a.sector.toNat + 1) % n.toNat) a.offset.toNat ∧
      a.retreat n = Address.at ((a.sector.toNat + n.toNat - 1) % n.toNat) a.offset.toNat ∧
      (a.advance n).retreat n = a ∧ (a.retreat n).advance n = a ∧
      a.sectorStart = Address.at a.sector.toNat 0) ∧
    (∀ (R : Ring) (e : Engine), R.Stored c e → e.Exact c) ∧
    (∀ (R : Ring) (e : Engine) (pre post : List Record) (g : Record), R.Fit c →
      R.current ≠ [] → R.closed.length + 2 = c.sectorCount.toNat →
      R.oldest = pre ++ g :: post → (R.copying c pre).Stored c e →
      g.value.size ≠ 0 → g.key ∉ R.newerKeys ++ pre.map (·.key) →
        e.Relocates c (R.collected c) (c.dataEnd post) g.value.size) := by
  have hc := Config.usable_of_validate hv
  obtain ⟨R, h⟩ := hs.faithful hv hpol
  have hexact := h.stored.exact hc hpol
  refine ⟨hexact, fun a n hw => ⟨hw.physical hc hexact.config, fun _ hm => hw.plus_exact hc hm⟩,
    fun j hj => ?_, fun w hw => ?_, fun n a hn ha => ?_, fun _ _ hst => hst.exact hc hpol,
    fun _ _ _ _ _ hR hne hfull hG hst hv hk => Ring.Stored.relocates hc hR hne hfull hG hst hv hk⟩
  · exact ⟨Config.within_sector hc hj, Config.within_closeSlot hc hj,
      Config.closeSlot_at hc hexact.config hj⟩
  · refine ⟨hw.within hc, (StoreM.walks_next hc hw).mono (fun p hp => hp.2.2.2.2) fun _ _ => trivial⟩
  · refine ⟨Address.advance_eq hn ha, Address.retreat_eq hn ha, Address.retreat_advance hn ha,
      Address.advance_retreat hn ha, ?_⟩
    conv_lhs => rw [Address.eq_at a]
    exact Address.sectorStart_at a.sector_lt a.offset_lt

/-- After the calls the store's address sums are exact. -/
theorem addresses_exact_rotated :
    sampleConfig.validate = .ok () ∧ Flash.Polar sampleConfig.eraseValue ∧
      rotated.Reachable sampleConfig ∧ rotated.engine.Exact sampleConfig :=
  ⟨rfl, .inr rfl, reachable_rotated,
    (Reachable.addresses_exact rfl (.inr rfl) reachable_rotated).1⟩

end Session

end NorStore
