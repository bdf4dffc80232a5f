import NorStore.Proofs.Cells
import NorStore.Store.Entry

/-!
# Reading back table entries

The store writes a table entry as its 30 bytes followed by erase-value padding, and reads a slot
back through `Slot.classify`. This module shows that the two agree for every entry the store
writes.

* A little-endian field reads back as the value it was written from (`ofLe16_le16`), so
  decoding the bytes of an entry gives the entry, whatever follows them (`decode_of_toList`).
* Sealing sets the checksum the other fields call for, so a sealed entry is valid.
* An entry whose part byte is `0xFF` and that is either not a close entry or records no length
  has a byte that is not the erase value, for both polarities. So its slot never reads as erased
  (`classify_of_encode`), while a slot of erase-value bytes always does (`classify_of_blank`).
* A usable key is padded with NULs into its field, so the field reads back as the key
  (`keyBytes_of_padKey?`) and two keys never share a field (`padKey?_inj`).
-/

namespace NorStore

namespace Entry

theorem ofLe16_le16 (v : UInt16) : ofLe16 v.toUInt8 (v >>> 8).toUInt8 = v := by
  unfold ofLe16
  apply UInt16.toNat_inj.1
  simp only [UInt16.toNat_or, UInt16.toNat_shiftLeft, UInt8.toNat_toUInt16, UInt16.toNat_toUInt8,
    UInt16.toNat_shiftRight, show UInt16.toNat 8 % 16 = 8 from rfl, Nat.shiftRight_eq_div_pow]
  have hv := v.toNat_lt
  -- the high byte lands above the low one, so the `|||` of the two is their sum
  have high : (v.toNat / 2 ^ 8 % 2 ^ 8) <<< 8 % 2 ^ 16 = (v.toNat / 2 ^ 8 % 2 ^ 8) <<< 8 :=
    Nat.mod_eq_of_lt (by rw [Nat.shiftLeft_eq]; omega)
  rw [high, Nat.or_comm, ← Nat.shiftLeft_add_eq_or_of_lt (Nat.mod_lt _ (Nat.two_pow_pos 8)),
    Nat.shiftLeft_eq]
  omega

@[simp] theorem length_encode (e : Entry) : e.encode.length = entryWidth := by
  simp [encode, body, le16, entryWidth]

/-- Decoding the bytes of an entry, and whatever follows them, gives the entry. -/
theorem decode_of_toList {raw : ByteArray} {e : Entry} {pad : List UInt8}
    (h : raw.toList = e.encode ++ pad) : decode raw = e := by
  have byte := ByteArray.get!_of_toList h
  rcases e with ⟨key, offset, length, part, crc⟩
  -- past the key, the bytes are the five fields and the padding
  have tail : ∀ i, 24 ≤ i → (key.toList ++ (offset.toUInt8 :: (offset >>> 8).toUInt8 ::
      length.toUInt8 :: (length >>> 8).toUInt8 :: part :: crc :: pad))[i]? =
      (offset.toUInt8 :: (offset >>> 8).toUInt8 :: length.toUInt8 :: (length >>> 8).toUInt8 ::
        part :: crc :: pad)[i - 24]? := by
    intro i hi
    rw [List.getElem?_append_right (by simpa using hi), Vector.length_toList]
  simp only [decode, byte]
  simp [encode, body, le16, tail, ofLe16_le16]
  apply Vector.ext
  intro i hi
  rw [Vector.getElem_ofFn, List.getElem?_append_left (by rw [Vector.length_toList]; exact hi)]
  simp [hi]

@[simp] theorem body_sealed (e : Entry) : e.sealed.body = e.body := rfl

@[simp] theorem crcValid_sealed (e : Entry) : e.sealed.crcValid = true := by
  show (Checksum.crc 0xFF e.body == Checksum.crc 0xFF e.sealed.body) = true
  rw [body_sealed]
  exact beq_self_eq_true _

/-- Resealing after a change of offset forgets the old checksum. -/
theorem sealed_sealed_offset (e : Entry) (o : UInt16) :
    sealed { e.sealed with offset := o } = sealed { e with offset := o } := rfl

/-- An entry the store writes has a byte that is not the erase value. -/
theorem exists_ne_of_polar {ev : UInt8} (hp : Flash.Polar ev) {e : Entry} (hpart : e.part = 0xFF)
    (hk : e.key ≠ closeKey ∨ e.length = 0) : ∃ b ∈ e.encode, b ≠ ev := by
  rcases hp with rfl | rfl
  · -- erased bytes are zero: the part byte is not
    exact ⟨e.part, by simp [encode, body], by rw [hpart]; decide⟩
  · rcases hk with hk | hk
    · -- erased bytes are `0xFF`: some key byte is not, or the key is the close key
      have : ∃ i, ∃ hi : i < 24, e.key[i] ≠ 0xFF := by
        apply Classical.byContradiction
        intro hall
        apply hk
        apply Vector.ext
        intro i hi
        simp only [closeKey, Vector.getElem_replicate]
        exact Classical.byContradiction fun hne => hall ⟨i, hi, hne⟩
      obtain ⟨i, hi, hne⟩ := this
      exact ⟨e.key[i], by simp [encode, body, Vector.getElem_mem], hne⟩
    · -- a deletion or a close entry has a zero length byte
      exact ⟨e.length.toUInt8, by simp [encode, body, le16], by rw [hk]; decide⟩

end Entry

namespace Slot

/-- A slot holding a valid entry that is not all erase value reads as that entry. -/
theorem classify_of_encode {raw : ByteArray} {e : Entry} {pad : List UInt8} {ev : UInt8}
    (h : raw.toList = e.encode ++ pad) (hv : e.crcValid = true) (hne : ∃ b ∈ e.encode, b ≠ ev) :
    classify raw ev = .valid e := by
  obtain ⟨b, hb, hbe⟩ := hne
  have hall : raw.toList.all (· == ev) = false := by
    rw [List.all_eq_false]
    exact ⟨b, by rw [h]; exact List.mem_append_left _ hb, by simpa using hbe⟩
  simp [classify, hall, Entry.decode_of_toList h, hv]

/-- A slot of erase-value bytes reads as erased. -/
theorem classify_of_blank {raw : ByteArray} {ev : UInt8} (h : ∀ b ∈ raw.toList, b = ev) :
    classify raw ev = .erased := by
  have hall : raw.toList.all (· == ev) = true := by
    rw [List.all_eq_true]
    intro b hb
    simp [h b hb]
  simp [classify, hall]

end Slot

/-! ## Key fields -/

namespace Entry

/-- A key of at most 24 bytes, padded with NULs to the field's width. -/
theorem toList_padded {key : ByteArray} (hsz : key.size ≤ 24) :
    (Vector.ofFn fun (i : Fin 24) => key[i.val]?.getD 0).toList =
      key.toList ++ List.replicate (24 - key.size) 0 := by
  apply List.ext_getElem?
  intro i
  rw [Vector.toList_ofFn, List.getElem?_ofFn]
  by_cases hik : i < key.size
  · rw [List.getElem?_append_left (by rwa [ByteArray.length_toList]), ByteArray.getElem?_toList]
    simp [hik, show i < 24 by omega]
  · rw [List.getElem?_append_right (by rw [ByteArray.length_toList]; omega),
      ByteArray.length_toList, List.getElem?_replicate]
    by_cases h24 : i < 24
    · simp [hik, h24, show i - key.size < 24 - key.size by omega]
    · simp [h24, show ¬ i - key.size < 24 - key.size by omega]

/-- A padded key is the close key only when it is 24 bytes of `0xFF` itself: a shorter key ends
in a NUL of padding. -/
theorem padded_eq_closeKey_iff {key : ByteArray} (hsz : key.size ≤ 24) :
    (Vector.ofFn fun (i : Fin 24) => key[i.val]?.getD 0) = closeKey ↔
      key.toList = List.replicate 24 0xFF := by
  rw [← Vector.toList_inj, toList_padded hsz, closeKey, Vector.toList_replicate]
  constructor
  · intro h
    by_cases hfull : key.size = 24
    · rwa [hfull, Nat.sub_self, List.replicate_zero, List.append_nil] at h
    · -- the last byte of the field is padding, so it is a NUL and not `0xFF`
      have hlast := congrArg (·[23]?) h
      simp only [List.getElem?_replicate] at hlast
      rw [List.getElem?_append_right (by rw [ByteArray.length_toList]; omega),
        ByteArray.length_toList, List.getElem?_replicate, if_pos (by omega), if_pos (by omega)] at hlast
      cases hlast
  · intro h
    have hfull : key.size = 24 := by rw [← ByteArray.length_toList, h, List.length_replicate]
    rw [h, hfull]
    rfl

/-- What a usable key field is: the key's bytes, none of them NUL, then NULs up to the
field's width; and it is not the key that marks a close entry. -/
theorem padKey?_eq_some {key : ByteArray} {k : Vector UInt8 24} (h : padKey? key = some k) :
    0 ∉ key.toList ∧ k ≠ closeKey ∧ k.toList = key.toList ++ List.replicate (24 - key.size) 0 := by
  unfold padKey? at h
  by_cases h1 : key.size = 0 ∨ key.size > keyWidth ∨ key.toList.contains 0
  · rw [if_pos h1] at h
    cases h
  rw [if_neg h1] at h
  have hk : Vector.ofFn (fun (i : Fin 24) => key[i.val]?.getD 0) = k ∧ k ≠ closeKey := by
    by_cases h2 : Vector.ofFn (fun (i : Fin 24) => key[i.val]?.getD 0) = closeKey
    · simp only [h2, if_true] at h
      cases h
    · simp only [h2, if_false, Option.some.injEq] at h
      exact ⟨h, h ▸ h2⟩
  obtain ⟨rfl, hclose⟩ := hk
  have hsz : key.size ≤ 24 := by simp only [keyWidth] at h1; omega
  exact ⟨by simp at h1; exact h1.2.2, hclose, toList_padded hsz⟩

/-- The keys the store takes: 1 to 24 bytes, none of them NUL, and not 24 bytes of `0xFF`. -/
theorem padKey?_isSome_iff {key : ByteArray} :
    (padKey? key).isSome ↔ 0 < key.size ∧ key.size ≤ keyWidth ∧ 0 ∉ key.toList ∧
      key.toList ≠ List.replicate keyWidth 0xFF := by
  unfold padKey?
  by_cases h1 : key.size = 0 ∨ key.size > keyWidth ∨ key.toList.contains 0
  · rw [if_pos h1, Option.isSome_none, Bool.false_eq_true, false_iff]
    rintro ⟨hpos, hle, hz, -⟩
    rcases h1 with h | h | h
    · omega
    · omega
    · exact hz (List.contains_iff_mem.mp h)
  · rw [if_neg h1]
    have hsz : key.size ≤ 24 := by simp only [keyWidth] at h1; omega
    have hrest : 0 < key.size ∧ key.size ≤ keyWidth ∧ 0 ∉ key.toList := by
      simp only [keyWidth, List.contains_iff_mem, not_or] at h1 ⊢
      exact ⟨by omega, by omega, h1.2.2⟩
    by_cases h2 : Vector.ofFn (fun (i : Fin 24) => key[i.val]?.getD 0) = closeKey
    · -- the field is the close key: refused
      simp only [h2, if_true, Option.isSome_none, Bool.false_eq_true, false_iff]
      exact fun h => h.2.2.2 ((padded_eq_closeKey_iff hsz).mp h2)
    · simp only [h2, if_false, Option.isSome_some, true_iff]
      exact ⟨hrest.1, hrest.2.1, hrest.2.2, fun h => h2 ((padded_eq_closeKey_iff hsz).mpr h)⟩

/-- The key of an entry whose field was padded from `key` reads back as `key`. -/
theorem keyBytes_of_padKey? {key : ByteArray} {k : Vector UInt8 24} (h : padKey? key = some k)
    {e : Entry} (he : e.key = k) : e.keyBytes = key := by
  obtain ⟨hz, -, hk⟩ := padKey?_eq_some h
  apply ByteArray.ext_toList
  have hvec : k.toArray.toList = k.toList := rfl
  simp only [keyBytes, ByteArray.toList_mk_toArray, he, hvec, hk]
  have hnz : ∀ b ∈ key.toList, (b != 0) = true := by
    intro b hb
    simpa using fun h0 : b = 0 => hz (h0 ▸ hb)
  rw [List.takeWhile_append_of_pos hnz]
  cases 24 - key.size <;> simp

/-- Two keys with one key field are one key. -/
theorem padKey?_inj {a b : ByteArray} {k : Vector UInt8 24} (ha : padKey? a = some k)
    (hb : padKey? b = some k) : a = b := by
  rw [← keyBytes_of_padKey? ha (e := ofKeyField k 0 0) rfl, keyBytes_of_padKey? hb rfl]

end Entry

end NorStore
