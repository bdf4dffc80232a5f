import NorStore.Proofs.Codec
import NorStore.Proofs.Words

/-!
# Sector layouts

What the store has written into a sector is determined by the records it appended there, newest
first. This module computes the bytes of such a sector, `Config.layout`, from the records alone.

* A sector's bytes are a function from offsets to bytes. Writing bytes from an offset is
  `Sector.put`; reading a range back is `Sector.slice`.
* A record's value goes at the data cursor, and its entry in the next free slot of the table,
  which grows downwards from just below the close slot. The padding the store adds to fill
  whole write blocks is the erase value, as the unwritten bytes already are, so the layout
  writes the value and the 30 bytes of the entry only.
* A closed sector has, on top, the close entry in its last slot, naming the slot of its
  newest entry.
* `Config.Fits` bounds a sector's records: the values end below the free slot. Under it, the
  layout holds every entry and every value the records call for, and the bytes between the
  values and the table, like the close slot of an open sector, read as erased.
-/

namespace NorStore

/-! ## Bytes of a sector -/

namespace Sector

/-- The sector `img` with `bytes` written from offset `o`. -/
def put (img : Nat → UInt8) (o : Nat) (bytes : List UInt8) : Nat → UInt8 :=
  fun p => if o ≤ p ∧ p < o + bytes.length then bytes.getD (p - o) 0 else img p

/-- The `len` bytes of `img` from offset `o`. -/
def slice (img : Nat → UInt8) (o len : Nat) : List UInt8 :=
  (List.range len).map fun j => img (o + j)

/-- The `len` bytes of `img` from offset `o` all read as `ev`. -/
def Blank (img : Nat → UInt8) (ev : UInt8) (o len : Nat) : Prop :=
  ∀ j < len, img (o + j) = ev

variable {img img' : Nat → UInt8} {ev : UInt8}

theorem put_of_mem {o p : Nat} {bytes : List UInt8} (h : o ≤ p ∧ p < o + bytes.length) :
    put img o bytes p = bytes.getD (p - o) 0 :=
  if_pos h

theorem put_of_not_mem {o p : Nat} {bytes : List UInt8} (h : ¬(o ≤ p ∧ p < o + bytes.length)) :
    put img o bytes p = img p :=
  if_neg h

@[simp] theorem length_slice (o len : Nat) : (slice img o len).length = len := by
  simp [slice]

theorem getElem_slice {o len j : Nat} (h : j < (slice img o len).length) :
    (slice img o len)[j] = img (o + j) := by
  simp [slice]

/-- Two sectors that agree byte by byte on two ranges read the same bytes there. -/
theorem slice_congr {o o' len : Nat} (h : ∀ j < len, img (o + j) = img' (o' + j)) :
    slice img o len = slice img' o' len := by
  apply List.map_congr_left
  intro j hj
  exact h j (List.mem_range.1 hj)

theorem slice_eq_replicate {o len : Nat} (h : Blank img ev o len) :
    slice img o len = List.replicate len ev := by
  apply List.ext_getElem
  · simp
  · intro j h1 h2
    rw [getElem_slice, List.getElem_replicate]
    exact h j (by simpa using h1)

theorem slice_append (o a b : Nat) :
    slice img o (a + b) = slice img o a ++ slice img (o + a) b := by
  simp only [slice, List.range_add, List.map_append, List.map_map]
  congr 1
  apply List.map_congr_left
  intro j _
  simp [Function.comp, Nat.add_assoc]

/-- Reading back what was written. -/
theorem slice_put_self (o : Nat) (bytes : List UInt8) :
    slice (put img o bytes) o bytes.length = bytes := by
  apply List.ext_getElem
  · simp
  · intro j h1 _
    rw [getElem_slice, put_of_mem (by simp at h1; omega), Nat.add_sub_cancel_left,
      List.getD_eq_getElem?_getD, List.getElem?_eq_getElem (by simpa using h1), Option.getD_some]

/-- Writing leaves the bytes outside what it wrote. -/
theorem slice_put_of_disjoint {o p len : Nat} {bytes : List UInt8}
    (h : o + bytes.length ≤ p ∨ p + len ≤ o) :
    slice (put img o bytes) p len = slice img p len :=
  slice_congr fun j hj => put_of_not_mem (by omega)

theorem blank_put_of_disjoint {o p len : Nat} {bytes : List UInt8}
    (h : o + bytes.length ≤ p ∨ p + len ≤ o) (hb : Blank img ev p len) :
    Blank (put img o bytes) ev p len := by
  intro j hj
  rw [put_of_not_mem (by omega)]
  exact hb j hj

theorem Blank.mono {o len o' len' : Nat} (hb : Blank img ev o len) (h1 : o ≤ o')
    (h2 : o' + len' ≤ o + len) : Blank img ev o' len' := by
  intro j hj
  have := hb (o' - o + j) (by omega)
  rwa [show o + (o' - o + j) = o' + j by omega] at this

theorem Blank.append {o a b : Nat} (h1 : Blank img ev o a) (h2 : Blank img ev (o + a) b) :
    Blank img ev o (a + b) := by
  intro t ht
  by_cases h : t < a
  · exact h1 t h
  · have := h2 (t - a) (by omega)
    rwa [Nat.add_assoc, Nat.add_sub_cancel' (by omega)] at this

theorem all_slice_iff {o n : Nat} : (slice img o n).all (· == ev) = true ↔ Blank img ev o n := by
  simp [slice, Blank]

@[simp] theorem slice_zero (o : Nat) : slice img o 0 = [] := rfl

@[simp] theorem put_nil (o : Nat) : put img o [] = img := by
  funext p
  exact put_of_not_mem (by simp)

/-- Writing two lists one after the other writes their concatenation. -/
theorem put_put_append (o : Nat) (l1 l2 : List UInt8) :
    put (put img o l1) (o + l1.length) l2 = put img o (l1 ++ l2) := by
  funext p
  simp only [put, List.length_append]
  by_cases h2 : o + l1.length ≤ p ∧ p < o + l1.length + l2.length
  · rw [if_pos h2, if_pos (by omega), List.getD_eq_getElem?_getD, List.getD_eq_getElem?_getD,
      List.getElem?_append_right (by omega)]
    congr 2
    omega
  · rw [if_neg h2]
    by_cases h1 : o ≤ p ∧ p < o + l1.length
    · rw [if_pos h1, if_pos (by omega), List.getD_eq_getElem?_getD, List.getD_eq_getElem?_getD,
        List.getElem?_append_left (by omega)]
    · rw [if_neg h1, if_neg (by omega)]

end Sector

/-! ## Records and their entries -/

/-- A record of the log: a key field and the value written under it. An empty value is a
deletion. -/
structure Record where
  /-- The padded key. -/
  key : Vector UInt8 24
  /-- The value; empty for a deletion. -/
  value : ByteArray

/-- The table entry of record `r` when its value starts at offset `d` of its sector. -/
def Record.entry (r : Record) (d : Nat) : Entry :=
  Entry.sealed { key := r.key, offset := d.toUInt16, length := r.value.size.toUInt16 }

/-- The entry that closes a sector whose newest entry is at offset `o`. -/
def closeEntry (o : Nat) : Entry :=
  Entry.sealed { key := Entry.closeKey, offset := o.toUInt16, length := 0 }

namespace Config

variable (c : Config)

/-- Where the values of `rs`, newest first, end: each takes whole write blocks. -/
def dataEnd : List Record → Nat
  | [] => 0
  | r :: rs => dataEnd rs + Nat.blockCeil r.value.size c.writeBlock.toNat

/-- The offset of the `i`-th entry of a sector, counting from the first, just under the close
slot. -/
def slot (i : Nat) : Nat :=
  c.sectorSize.toNat - (i + 2) * c.entrySize.toNat

/-- The offset of the close slot. -/
def closeOffset : Nat :=
  c.sectorSize.toNat - c.entrySize.toNat

/-- The bytes of an open sector holding `rs`, newest first. -/
def layout : List Record → Nat → UInt8
  | [] => fun _ => c.eraseValue
  | r :: rs => Sector.put (Sector.put (layout rs) (c.dataEnd rs) r.value.toList)
      (c.slot rs.length) (r.entry (c.dataEnd rs)).encode

/-- The bytes of a closed sector holding `rs`, newest first: the close slot names the slot of
the newest entry. -/
def closedLayout (rs : List Record) : Nat → UInt8 :=
  Sector.put (c.layout rs) c.closeOffset (closeEntry (c.slot (rs.length - 1))).encode

/-- The values of `rs` end below the slot the next entry would take. -/
def Fits (rs : List Record) : Prop :=
  c.dataEnd rs + (rs.length + 2) * c.entrySize.toNat ≤ c.sectorSize.toNat

variable {c}

@[simp] theorem dataEnd_nil : c.dataEnd [] = 0 := rfl

theorem dataEnd_cons (r : Record) (rs : List Record) :
    c.dataEnd (r :: rs) = c.dataEnd rs + Nat.blockCeil r.value.size c.writeBlock.toNat := rfl

theorem dataEnd_append_le (pre rs : List Record) : c.dataEnd rs ≤ c.dataEnd (pre ++ rs) := by
  induction pre with
  | nil => exact Nat.le_refl _
  | cons p pre ih =>
    rw [List.cons_append, dataEnd_cons]
    omega

theorem Fits.of_append {pre rs : List Record} (h : c.Fits (pre ++ rs)) : c.Fits rs := by
  unfold Fits at *
  have := dataEnd_append_le (c := c) pre rs
  simp only [List.length_append] at h
  have : (rs.length + 2) * c.entrySize.toNat ≤ (pre.length + rs.length + 2) * c.entrySize.toNat :=
    Nat.mul_le_mul_right _ (by omega)
  omega

theorem Fits.tail {r : Record} {rs : List Record} (h : c.Fits (r :: rs)) : c.Fits rs :=
  Fits.of_append (show c.Fits ([r] ++ rs) from h)

/-! ## Where things lie -/

/-- A later slot lies at least one entry below an earlier one. -/
theorem slot_add_le {i j : Nat} (hij : i < j) (hj : (j + 2) * c.entrySize.toNat ≤ c.sectorSize.toNat) :
    c.slot j + c.entrySize.toNat ≤ c.slot i := by
  have : (i + 2) * c.entrySize.toNat + c.entrySize.toNat ≤ (j + 2) * c.entrySize.toNat := by
    rw [← Nat.succ_mul]
    exact Nat.mul_le_mul_right _ (by omega)
  unfold slot
  omega

theorem Fits.dataEnd_le {rs : List Record} (h : c.Fits rs) : c.dataEnd rs ≤ c.slot rs.length := by
  unfold Fits slot at *
  omega

theorem Fits.mul_le {rs : List Record} (h : c.Fits rs) {k : Nat} (hk : k ≤ rs.length + 2) :
    k * c.entrySize.toNat ≤ c.sectorSize.toNat := by
  have : k * c.entrySize.toNat ≤ (rs.length + 2) * c.entrySize.toNat := Nat.mul_le_mul_right _ hk
  unfold Fits at h
  omega

section Bounds

variable (hc : c.Usable)
include hc

theorem Usable.entry_ge : entryWidth ≤ c.entrySize.toNat := by
  rcases entrySize_cases hc.block with h | h <;> rw [h] <;> decide

theorem Usable.block_pos : 0 < c.writeBlock.toNat :=
  pos_of_mem_blockSizes hc.block

/-- The value of the newest record ends below the free slot, an entry under its own slot. -/
theorem Fits.cons_bounds {r : Record} {rs : List Record} (h : c.Fits (r :: rs)) :
    c.dataEnd rs + r.value.size + c.entrySize.toNat ≤ c.slot rs.length ∧
      (rs.length + 1 + 2) * c.entrySize.toNat ≤ c.sectorSize.toNat := by
  unfold Fits at h
  simp only [List.length_cons, dataEnd_cons] at h
  have hle := Nat.le_blockCeil (n := r.value.size) hc.block_pos
  have hs := slot_add_le (c := c) (Nat.lt_add_one rs.length) (by omega)
  have hd : c.dataEnd rs + Nat.blockCeil r.value.size c.writeBlock.toNat ≤ c.slot (rs.length + 1) := by
    unfold slot
    omega
  exact ⟨by omega, by omega⟩

end Bounds

/-! ## What a layout holds -/

section Holds

variable (hc : c.Usable)
include hc

omit hc in
@[simp] theorem length_toList_value (r : Record) : r.value.toList.length = r.value.size :=
  ByteArray.length_toList _

/-- The offsets around the newest record of a sector that fits. -/
theorem Fits.cons_offsets {r : Record} {rs : List Record} (h : c.Fits (r :: rs)) :
    r.value.size ≤ Nat.blockCeil r.value.size c.writeBlock.toNat ∧
      c.dataEnd rs + Nat.blockCeil r.value.size c.writeBlock.toNat ≤ c.slot (rs.length + 1) ∧
      c.slot (rs.length + 1) + c.entrySize.toNat ≤ c.slot rs.length ∧
      entryWidth ≤ c.entrySize.toNat ∧ c.slot rs.length + 2 * c.entrySize.toNat ≤ c.sectorSize.toNat := by
  have hd := h.dataEnd_le
  rw [dataEnd_cons, List.length_cons] at hd
  have hlen := (h.cons_bounds hc).2
  have hs := slot_add_le (c := c) (Nat.lt_add_one rs.length) hlen
  have : (rs.length + 2) * c.entrySize.toNat ≤ c.sectorSize.toNat :=
    Nat.le_trans (Nat.mul_le_mul_right _ (by omega)) hlen
  have : 2 * c.entrySize.toNat ≤ (rs.length + 2) * c.entrySize.toNat :=
    Nat.mul_le_mul_right _ (by omega)
  exact ⟨Nat.le_blockCeil hc.block_pos, hd, hs, hc.entry_ge, by unfold slot; omega⟩

/-- Between the values and the table, the free slot included, a sector reads as erased. -/
theorem blank_layout_gap {rs : List Record} (h : c.Fits rs) :
    Sector.Blank (c.layout rs) c.eraseValue (c.dataEnd rs)
      (c.slot rs.length + c.entrySize.toNat - c.dataEnd rs) := by
  induction rs with
  | nil => exact fun _ _ => rfl
  | cons r rs ih =>
    obtain ⟨hle, hd, hs, -, -⟩ := h.cons_offsets hc
    simp only [layout, dataEnd_cons, List.length_cons]
    -- the new entry lies above the gap, the new value below it
    apply Sector.blank_put_of_disjoint (by omega)
    apply Sector.blank_put_of_disjoint (by simp only [length_toList_value]; omega)
    exact (ih h.tail).mono (by omega) (by omega)

/-- The close slot of an open sector reads as erased. -/
theorem blank_layout_close {rs : List Record} (h : c.Fits rs) :
    Sector.Blank (c.layout rs) c.eraseValue c.closeOffset c.entrySize.toNat := by
  induction rs with
  | nil => exact fun _ _ => rfl
  | cons r rs ih =>
    obtain ⟨hle, hd, hs, hw, htop⟩ := h.cons_offsets hc
    simp only [layout]
    apply Sector.blank_put_of_disjoint
      (by simp only [Entry.length_encode, closeOffset]; omega)
    apply Sector.blank_put_of_disjoint
      (by simp only [length_toList_value, closeOffset]; omega)
    exact ih h.tail

/-- The newer records of a sector leave the slot and the value of an older one alone. -/
theorem slice_layout_append {pre rs : List Record} (h : c.Fits (pre ++ rs)) {o len : Nat}
    (hlo : c.slot rs.length + c.entrySize.toNat ≤ o ∨ o + len ≤ c.dataEnd rs) :
    Sector.slice (c.layout (pre ++ rs)) o len = Sector.slice (c.layout rs) o len := by
  induction pre with
  | nil => rfl
  | cons p pre ih =>
    have h' : c.Fits (p :: (pre ++ rs)) := h
    obtain ⟨hle, hd, hs, hw, -⟩ := h'.cons_offsets hc
    have hpre := dataEnd_append_le (c := c) pre rs
    have hslot : c.slot (pre ++ rs).length ≤ c.slot rs.length := by
      unfold slot
      have : (rs.length + 2) * c.entrySize.toNat ≤ ((pre ++ rs).length + 2) * c.entrySize.toNat :=
        Nat.mul_le_mul_right _ (by simp)
      omega
    simp only [List.cons_append, layout]
    rw [Sector.slice_put_of_disjoint (by simp only [Entry.length_encode]; omega),
      Sector.slice_put_of_disjoint (by simp only [length_toList_value]; omega)]
    exact ih h'.tail

/-- The slot of a record holds its entry, followed by erase-value padding. -/
theorem slice_layout_entry {pre rs : List Record} {r : Record} (h : c.Fits (pre ++ r :: rs)) :
    Sector.slice (c.layout (pre ++ r :: rs)) (c.slot rs.length) c.entrySize.toNat =
      (r.entry (c.dataEnd rs)).encode ++
        List.replicate (c.entrySize.toNat - entryWidth) c.eraseValue := by
  have hfit := h.of_append
  obtain ⟨hle, hd, hs, hw, -⟩ := hfit.cons_offsets hc
  rw [slice_layout_append hc h (Or.inl (by simp only [List.length_cons]; omega)),
    show c.entrySize.toNat = entryWidth + (c.entrySize.toNat - entryWidth) by omega,
    Sector.slice_append, Nat.add_sub_cancel_left]
  simp only [layout]
  congr 1
  · rw [← Entry.length_encode (r.entry (c.dataEnd rs)), Sector.slice_put_self]
  · rw [Sector.slice_put_of_disjoint (by simp only [Entry.length_encode]; omega),
      Sector.slice_put_of_disjoint (by simp only [length_toList_value]; omega)]
    apply Sector.slice_eq_replicate
    exact (blank_layout_gap hc hfit.tail).mono (by omega) (by omega)

/-- The value of a record is where its entry says. -/
theorem slice_layout_value {pre rs : List Record} {r : Record} (h : c.Fits (pre ++ r :: rs)) :
    Sector.slice (c.layout (pre ++ r :: rs)) (c.dataEnd rs) r.value.size = r.value.toList := by
  have hfit := h.of_append
  obtain ⟨hle, hd, hs, hw, -⟩ := hfit.cons_offsets hc
  rw [slice_layout_append hc h (Or.inr (by rw [dataEnd_cons]; omega))]
  simp only [layout]
  rw [Sector.slice_put_of_disjoint (by simp only [Entry.length_encode]; omega),
    ← length_toList_value r, Sector.slice_put_self]

omit hc in
/-- Below its close slot, a closed sector holds what it held open. -/
theorem slice_closedLayout {rs : List Record} {o len : Nat} (hlo : o + len ≤ c.closeOffset) :
    Sector.slice (c.closedLayout rs) o len = Sector.slice (c.layout rs) o len :=
  Sector.slice_put_of_disjoint (Or.inr hlo)

/-- The close slot of a closed sector holds its close entry. -/
theorem slice_closedLayout_close {rs : List Record} (h : c.Fits rs) :
    Sector.slice (c.closedLayout rs) c.closeOffset c.entrySize.toNat =
      (closeEntry (c.slot (rs.length - 1))).encode ++
        List.replicate (c.entrySize.toNat - entryWidth) c.eraseValue := by
  have hw := hc.entry_ge
  rw [show c.entrySize.toNat = entryWidth + (c.entrySize.toNat - entryWidth) by omega,
    Sector.slice_append, Nat.add_sub_cancel_left]
  congr 1
  · rw [← Entry.length_encode (closeEntry _), closedLayout, Sector.slice_put_self]
  · rw [closedLayout, Sector.slice_put_of_disjoint (by simp only [Entry.length_encode]; omega)]
    apply Sector.slice_eq_replicate
    exact (blank_layout_close hc h).mono (by omega) (by omega)

end Holds

end Config

end NorStore
