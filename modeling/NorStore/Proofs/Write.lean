import NorStore.Proofs.Rotate

/-!
# Writing a key

On a store holding a ring at rest, `write key data` ends in one of four ways:

* the key is refused, or the value is larger than the configuration allows: nothing changes;
* the newest record of the key already leaves it holding what the write would (the same bytes,
  or nothing for a deletion): nothing changes and the write answers `0`;
* there is room, at once or after some rotations: the record is pushed onto the active sector,
  so the key holds the value (`Record.held`) and every other key what it held;
* a whole round of rotations found no room: the write fails for lack of space, and every key
  still holds what it held, since rotations keep the view (`Ring.view_rotate`).

The rotation loop keeps `Ring.Rotating`: the ring is settled, and the one way it can stray from
being at rest (an empty active sector at the ring's end after a first rotation found nothing to
keep) is repaired by the push that always follows, because an empty sector takes any value the
configuration allows (`Config.fits_single`).

`StoreM.WriteEnd` names the four ways with the ring each leaves: the ring as it was, the ring
`n` rotations on with the record pushed (`n` below the number of sectors), or the ring a whole
round of rotations on. `run_write_ends` says every write ends so; `run_write` reads off what each
way leaves each key holding.
-/

namespace NorStore

/-- What record `r` leaves its key holding: its value, or nothing when it is a deletion. -/
def Record.held (r : Record) : Option ByteArray :=
  if r.value.size = 0 then none else some r.value

@[simp] theorem Fault.is_store_kind (op : String) (key : ByteArray) (a : Option Address)
    (ctx : String) (k k' : FaultKind) :
    (Fault.store op key a ctx (some (.kind k))).is k' = decide (k' = k) := by
  simp [Fault.is, Fault.kinds]

/-! ## Room in the active sector -/

namespace Address

/-- Moving forward from an address of a sector and comparing with another of it acts on the
offsets alone, also when the move runs past the sector's end. -/
theorem plus_le_at_iff {j o t : Nat} {k : UInt32} (hj : j < 65535) (ho : o < 65536)
    (ht : t < 65536) (hk : k.toNat < 65536) :
    (Address.at j o).plus k ≤ Address.at j t ↔ o + k.toNat ≤ t := by
  show (Address.at j o).raw + k ≤ (Address.at j t).raw ↔ _
  rw [UInt32.le_iff_toNat_le, UInt32.toNat_add, at_raw_toNat (by omega) ho,
    at_raw_toNat (by omega) ht, Nat.mod_eq_of_lt (by omega)]
  omega

end Address

namespace Config

variable {c : Config}

/-- The room a write of `size` bytes asks for: an entry, and the value in whole write blocks. -/
theorem need_toNat (hc : c.Usable) {size : Nat} (hs : size ≤ c.sectorSize.toNat) :
    (if size = 0 then c.entrySize else c.entrySize + alignUp size.toUInt32 c.writeBlock).toNat =
      c.entrySize.toNat + Nat.blockCeil size c.writeBlock.toNat := by
  have hS := hc.sector_le
  have hE := entrySize_cases hc.block
  have hW : c.writeBlock.toNat ≤ 32 := by
    have := hc.block
    simp only [blockSizes, List.mem_cons, List.not_mem_nil, or_false] at this
    omega
  split
  next h0 => rw [h0, Nat.blockCeil_zero, Nat.add_zero]
  next =>
    have hsize : size.toUInt32.toNat = size := by
      rw [Nat.toUInt32_eq, UInt32.toNat_ofNat', Nat.mod_eq_of_lt (by omega)]
    have hceil := Nat.blockCeil_lt (n := size) hc.block_pos
    rw [UInt32.toNat_add, alignUp_toNat hc.block (by rw [hsize]; omega), hsize,
      Nat.mod_eq_of_lt (by omega)]

/-- An empty sector takes any value the configuration allows. -/
theorem fits_single (hc : c.Usable) {r : Record} (hr : (r.value.size : Int) ≤ c.maxValueSize) :
    c.Fits [r] := by
  have h4 := hc.four_entries
  have hdvd : c.writeBlock.toNat ∣ c.sectorSize.toNat - 3 * c.entrySize.toNat :=
    Nat.dvd_sub hc.block_dvd (Nat.dvd_mul_left_of_dvd (block_dvd_entrySize hc.block) _)
  have hceil := Nat.blockCeil_le_of_le_of_dvd (n := r.value.size) hc.block_pos
    (by unfold maxValueSize at hr; omega) hdvd
  unfold Fits
  simp only [dataEnd_cons, dataEnd_nil, List.length_singleton]
  omega

end Config

/-! ## Pushing a record -/

namespace Ring

variable {c : Config} {R : Ring}

/-- The ring with record `r` added to the active sector, as its newest record. -/
def push (R : Ring) (r : Record) : Ring :=
  { R with current := r :: R.current }

/-- A pushed record decides what its key holds; every other key holds what it held. -/
theorem view_push (R : Ring) (r : Record) :
    (R.push r).view = Function.update R.view r.key r.held := by
  funext k
  by_cases hk : k = r.key
  · subst hk
    simp [view, push, records, Record.held]
  · rw [Function.update_of_ne hk]
    simp [view, push, records, Ne.symm hk]

theorem Fit.push (h : R.Fit c) {r : Record} (hfit : c.Fits (r :: R.current))
    (hk : r.key ≠ Entry.closeKey) : (R.push r).Fit c where
  active_lt := h.active_lt
  span := h.span
  current := hfit
  closed := h.closed
  keys q hq := by
    rcases List.mem_cons.1 hq with rfl | hq
    · exact hk
    · exact h.keys q hq

/-! ## The rotation loop -/

/-- What a write's rotation loop keeps after `r` rotations: the ring is settled, a ring with
nothing closed has its active sector at an end of the ring, every record a rotation left in the
active sector holds a value, and only a first rotation can leave the whole ring empty. -/
structure Rotating (c : Config) (R : Ring) (r : Nat) : Prop where
  settled : R.closed.length + 2 ≤ c.sectorCount.toNat
  ends : R.closed = [] → R.active = 0 ∨ R.active + 1 = c.sectorCount.toNat
  live : 0 < r → ∀ g ∈ R.current, g.value.size ≠ 0
  refilled : R.closed = [] → R.current = [] → r ≤ 1

variable {r : Nat}

theorem AtRest.rotating (h : R.AtRest c) : R.Rotating c 0 where
  settled := h.settled
  ends hnil := (h.found hnil).imp_right And.left
  live h0 := absurd h0 (Nat.lt_irrefl 0)
  refilled _ _ := Nat.zero_le 1

/-- Collecting a sector whose records all hold values keeps at least one of them. -/
theorem keep_nil_ne_nil {G : List Record} (hG : G ≠ []) (hv : ∀ g ∈ G, g.value.size ≠ 0) :
    keep [] G ≠ [] := by
  obtain ⟨g, gs, rfl⟩ := List.exists_cons_of_ne_nil hG
  simp [keep, hv g List.mem_cons_self]

/-- A rotation keeps the loop's invariant, one rotation further on. -/
theorem Rotating.rotate (h : R.Rotating c r) (hc : c.Usable) (hne : R.current ≠ []) :
    (R.rotate c).Rotating c (r + 1) := by
  have hn := hc.count_ge
  by_cases hfull : R.closed.length + 2 = c.sectorCount.toNat
  · -- the oldest sector is collected: what survives of it becomes the active sector
    unfold Ring.rotate
    rw [if_pos hfull]
    refine ⟨by simp only [length_newer]; exact h.settled, fun hnil => ?_, fun _ g hg => ?_,
      fun hnil hcur => ?_⟩
    · -- nothing closed is left only on a ring of two sectors, where both are ends
      simp only at hnil
      have h0 : R.closed.length = 0 := by rw [← length_newer, hnil, List.length_nil]
      have : (R.active + 1) % c.sectorCount.toNat < 2 := by
        rw [← show R.closed.length + 2 = 2 by omega, hfull]
        exact Nat.mod_lt _ (by omega)
      simp only
      omega
    · exact (mem_keep (List.mem_reverse.1 hg)).1
    · -- the first rotation may find nothing to keep; a later one always keeps the newest value
      simp only at hnil hcur
      have hnil' : R.closed = [] := List.eq_nil_of_length_eq_zero (by
        rw [← length_newer, hnil, List.length_nil])
      rcases Nat.eq_zero_or_pos r with rfl | hr
      · exact Nat.le_refl 1
      · have hkeys : R.newerKeys = [] := by simp [newerKeys, newer, hnil']
        have hold : R.oldest = R.current := by simp [oldest, hnil']
        rw [hkeys, hold, List.reverse_eq_nil_iff] at hcur
        exact absurd hcur (keep_nil_ne_nil hne (h.live hr))
  · -- the next sector is blank: the active sector is closed and the next one opened
    rw [rotate_of_not_full hfull]
    refine ⟨?_, fun hnil => absurd hnil (List.cons_ne_nil _ _), fun _ g hg => absurd hg
      List.not_mem_nil, fun hnil => absurd hnil (List.cons_ne_nil _ _)⟩
    have := h.settled
    simp only [close, List.length_cons]
    omega

/-- After a push, the ring the loop kept is at rest again. -/
theorem Rotating.push (h : R.Rotating c r) (g : Record) : (R.push g).AtRest c where
  settled := h.settled
  found hnil := (h.ends hnil).imp_right fun h' => ⟨h', List.cons_ne_nil _ _⟩

/-- A ring the loop kept past its first rotation is at rest. -/
theorem Rotating.atRest (h : R.Rotating c r) (hr : 2 ≤ r) : R.AtRest c where
  settled := h.settled
  found hnil := (h.ends hnil).imp_right fun h' =>
    ⟨h', fun hcur => absurd (h.refilled hnil hcur) (by omega)⟩

/-- A rotation moves the active sector one on, whether or not it collects. -/
theorem active_rotate (R : Ring) : (R.rotate c).active = (R.active + 1) % c.sectorCount.toNat := by
  unfold rotate
  split <;> rfl

/-- `n` rotations move the active sector `n` sectors on round the ring. -/
theorem active_rotate_iterate (ha : R.active < c.sectorCount.toNat) (n : Nat) :
    ((rotate c)^[n] R).active = (R.active + n) % c.sectorCount.toNat := by
  induction n with
  | zero => exact (Nat.mod_eq_of_lt ha).symm
  | succ n ih =>
    rw [Function.iterate_succ_apply', active_rotate, ih, Nat.mod_add_mod, Nat.add_assoc]

/-- Rotations keep what the ring holds for every key. -/
theorem view_rotate_iterate (R : Ring) (n : Nat) : ((rotate c)^[n] R).view = R.view := by
  induction n with
  | zero => rfl
  | succ n ih => rw [Function.iterate_succ_apply', funext (view_rotate _), ih]

end Ring

/-! ## The steps of a write -/

namespace StoreM

variable {c : Config} {R : Ring} {e : Engine}

theorem run_keyField_some (op : String) {key : ByteArray} {k : Vector UInt8 24}
    (hk : Entry.padKey? key = some k) (e : Engine) : (keyField op key).run.run e = (.ok k, e) := by
  simp only [keyField, hk]
  rfl

theorem run_keyField_none (op : String) {key : ByteArray} (hk : Entry.padKey? key = none)
    (e : Engine) :
    (keyField op key).run.run e = (.error (.store op key none "" (some (.kind .invalidKey))), e) := by
  simp only [keyField, hk]
  rfl

/-- The check for a write that would change nothing only reads, and answers whether the key
already holds what the write would leave it holding. -/
theorem run_unchanged (hc : c.Usable) (hpol : Flash.Polar c.eraseValue) (hst : R.Stored c e)
    (k : Vector UInt8 24) (data : ByteArray) :
    ∃ b e', (unchanged k data).run.run e = (.ok b, e') ∧ e.Reads e' ∧
      (b = true ↔ R.view k = Record.held ⟨k, data⟩) := by
  obtain ⟨e1, hfind, hr1⟩ := run_findNewest hc hpol hst k
  have hview := Ring.find?_sites (c := c) (R := R) k
  cases hs : (R.sites c).find? (·.record.key = k) with
  | none =>
    rw [hs, Option.map_none] at hview hfind
    refine ⟨decide (data.size = 0), e1, ?_, hr1, ?_⟩
    · simp only [unchanged, run_bind, hfind]
      rfl
    · simp [Ring.view, ← hview, Record.held]
  | some s =>
    have hmem : s ∈ R.sites c := List.mem_of_find?_eq_some hs
    rw [hs, Option.map_some] at hview hfind
    have hv : R.view k = s.record.held := by simp [Ring.view, ← hview, Record.held]
    have hlen := Ring.entry_length hc hst.toFit hmem
    by_cases hd : data.size = 0
    · -- a deletion changes nothing exactly when the newest record is one
      refine ⟨decide (s.entry.length = 0), e1, ?_, hr1, ?_⟩
      · simp only [unchanged, run_bind, hfind, hd]
        rfl
      · have h0 : s.entry.length = 0 ↔ s.record.value.size = 0 := by
          rw [← hlen]
          exact ⟨fun h => by rw [h]; rfl, fun h => UInt16.toNat_inj.1 h⟩
        rw [hv]
        simp [Record.held, hd, h0]
    by_cases hl : s.entry.length.toNat = data.size
    · -- a value of the same length: compare the bytes on flash
      have hst1 := hst.reads hr1
      have hbd := Ring.bounds_of_mem_sites hc hst.toFit hmem
      have hslot : c.slot s.index ≤ c.sectorSize.toNat := by
        have := hbd.slot
        simp only [Config.slot]
        omega
      obtain ⟨b, e2, hh, hr2, hb⟩ := run_holds hc e1 hst1.config hst1.placed hst1.hosts
        hbd.sector (o := s.data)
        (show s.data + data.size ≤ c.sectorSize.toNat by have := hbd.value; omega)
      refine ⟨b, e2, ?_, hr1.trans hr2, ?_⟩
      · simp only [unchanged, run_bind, hfind, hd, if_false, hl, bne_self_eq_false,
          Bool.false_eq_true, Ring.valueAddr_site hc hst.toFit hmem]
        exact hh
      · have hval := Ring.slice_site_value hc hst.toFit hmem
        rw [← hlen, hl] at hval
        rw [hb, hval, hv]
        simp only [Record.held, ← hlen, hl, hd, if_false, Option.some.injEq]
        exact ⟨fun h => ByteArray.ext_toList h, fun h => h ▸ rfl⟩
    · -- a value of another length is a change
      refine ⟨false, e1, ?_, hr1, ?_⟩
      · simp only [unchanged, run_bind, hfind, hd, if_false]
        rw [if_pos (by simpa using hl)]
        rfl
      · rw [hv]
        simp only [Record.held, Bool.false_eq_true, false_iff]
        split
        · simp
        · intro h
          exact hl (by rw [hlen, Option.some.inj h])

/-- A record that fits is appended, value first and then its entry, and pushed onto the
ring. -/
theorem run_append (hc : c.Usable) (hpol : Flash.Polar c.eraseValue) (hst : R.Stored c e)
    {k : Vector UInt8 24} {data : ByteArray} (hk : k ≠ Entry.closeKey)
    (hfit : c.Fits (⟨k, data⟩ :: R.current)) :
    ∃ e', (append k data).run.run e = (.ok (), e') ∧ (R.push ⟨k, data⟩).Stored c e' ∧
      e'.store.mounted = e.store.mounted ∧ c.Confined e.rig.chip e'.rig.chip := by
  have hS := hc.sector_le
  have hn := hc.count_le
  have hE : 30 ≤ c.entrySize.toNat := hc.entry_ge
  have ha := hst.active_lt
  have hcfg := hst.config
  obtain ⟨hb1, hb2⟩ := hfit.cons_bounds hc
  simp only at hb1
  have hgap := Config.blank_layout_gap hc hst.current
  have hmul : (R.current.length + 1 + 2) * c.entrySize.toNat =
      (R.current.length + 2) * c.entrySize.toNat + c.entrySize.toNat := by
    rw [← Nat.succ_mul]
  have h2E : 2 * c.entrySize.toNat ≤ (R.current.length + 2) * c.entrySize.toNat :=
    Nat.mul_le_mul_right _ (by omega)
  have hbc := Nat.le_blockCeil (n := data.size) hc.block_pos
  have hroom : c.dataEnd R.current + Nat.blockCeil data.size c.writeBlock.toNat +
      (R.current.length + 1 + 2) * c.entrySize.toNat ≤ c.sectorSize.toNat := hfit
  -- the value, at the data cursor
  obtain ⟨e1, hwd, hst1, hpl1, hh1, hcf1⟩ := run_writeData hc hpol hcfg hst.placed hst.hosts ha hst.data
    (Config.block_dvd_dataEnd R.current) (p := data) (by omega)
    (by
      rw [Ring.image_active]
      exact hgap.mono (Nat.le_refl _) (by simp only [Config.slot] at hroom ⊢; omega))
  -- then its entry, at the entry cursor
  have hate1 : e1.store.ateCursor = Address.at R.active (c.slot R.current.length) := by
    rw [hst1]
    exact hst.ate
  obtain ⟨e2, hwe, hst2, hpl2, hh2, hcf2⟩ := run_writeEntry hc hpol (by rw [hst1]; exact hcfg) hpl1 hh1
    ha hate1 (Config.block_dvd_slot hc _) (by simp only [Config.slot]; omega)
    (by simp only [Config.slot]; omega) (Record.entry ⟨k, data⟩ (c.dataEnd R.current))
    (by
      rw [Function.update_self]
      apply Sector.blank_put_of_disjoint (by simp only [ByteArray.length_toList]; omega)
      rw [Ring.image_active]
      exact hgap.mono (by omega) (by omega))
  have hoff : (Address.at R.active (c.dataEnd R.current)).offset.toUInt16 =
      (c.dataEnd R.current).toUInt16 :=
    congrArg Nat.toUInt16 (Address.offset_at (by omega)
      (show c.dataEnd R.current < 65536 by simp only [Config.slot] at hb1; omega))
  refine ⟨e2, ?_, ?_, by rw [hst2, hst1], hcf1.trans hcf2⟩
  · simp only [append, run_bind, run_store, hst.data, Ring.dataEnd, hoff, hwd]
    exact hwe
  · rw [Function.update_self, Function.update_idem, Ring.image_active] at hh2
    exact {
      toFit := hst.toFit.push hfit hk
      config := by rw [hst2, hst1]; exact hcfg
      placed := hpl2
      hosts := hh2.congr fun j hj o _ => by
        rw [show R.push ⟨k, data⟩ = { R with current := ⟨k, data⟩ :: R.current } from rfl,
          Ring.image_current ha _ hj]
        rfl
      ate := by
        rw [hst2]
        show Address.at _ (c.slot R.current.length - c.entrySize.toNat) =
          Address.at _ (c.slot (R.current.length + 1))
        rw [Config.slot_succ]
        rfl
      data := by
        rw [hst2, hst1]
        rfl }

/-- The room check of the rotation loop: the write fits the active sector exactly when its
record does. -/
theorem room_iff (hc : c.Usable) (hst : R.Stored c e) {k : Vector UInt8 24} {data : ByteArray}
    (hsize : (data.size : Int) ≤ c.maxValueSize) {need : UInt32}
    (hneed : need.toNat = c.entrySize.toNat + Nat.blockCeil data.size c.writeBlock.toNat) :
    e.store.ateCursor ≥ e.store.dataCursor.plus need ↔ c.Fits (⟨k, data⟩ :: R.current) := by
  have hS := hc.sector_le
  have hn := hc.count_le
  have ha := hst.active_lt
  have hsingle := Config.fits_single hc (r := ⟨k, data⟩) hsize
  have hcur := hst.current
  have hmul : (R.current.length + 1 + 2) * c.entrySize.toNat =
      (R.current.length + 2) * c.entrySize.toNat + c.entrySize.toNat := by
    rw [← Nat.succ_mul]
  unfold Config.Fits at hsingle hcur ⊢
  simp only [Config.dataEnd_cons, Config.dataEnd_nil, List.length_cons, List.length_nil] at hsingle ⊢
  rw [hst.ate, hst.data, Ring.ate, Ring.dataEnd, GE.ge,
    Address.plus_le_at_iff (by omega) (by omega) (by simp only [Config.slot]; omega) (by omega), hneed]
  simp only [Config.slot]
  omega

/-- The rotation loop, from a ring it keeps after `r` rotations: the record is pushed once there
is room, `n` rotations on with `r + n` below the number of sectors, and a whole round of rotations
without room fails for lack of space, the record having fit neither the active sector nor, when
a turn was left for it, the one a rotation opens. Either way the ring ends at rest. -/
theorem run_rotate (hc : c.Usable) (hpol : Flash.Polar c.eraseValue) (op : String)
    (key : ByteArray) {k : Vector UInt8 24} {data : ByteArray} {need : UInt32}
    (hk : k ≠ Entry.closeKey) (hsize : (data.size : Int) ≤ c.maxValueSize)
    (hneed : need.toNat = c.entrySize.toNat + Nat.blockCeil data.size c.writeBlock.toNat) :
    ∀ (fuel r : Nat) (R : Ring) (e : Engine), R.Stored c e → R.Rotating c r →
      r + fuel = c.sectorCount.toNat + 1 →
      ∃ (res : Except Fault Nat) (e' : Engine) (n : Nat),
        (write.rotate op key k data need r fuel).run.run e = (res, e') ∧
        e'.store.mounted = e.store.mounted ∧ c.Confined e.rig.chip e'.rig.chip ∧
        (res = .ok data.size ∧ r + n < c.sectorCount.toNat ∧
            (n = 0 ↔ c.Fits (⟨k, data⟩ :: R.current)) ∧
            (((Ring.rotate c)^[n] R).push ⟨k, data⟩).Stored c e' ∧
            (((Ring.rotate c)^[n] R).push ⟨k, data⟩).AtRest c ∨
          res = .error (.store op key none "" (some (.kind .noSpace))) ∧
            (r < c.sectorCount.toNat → ¬ c.Fits (⟨k, data⟩ :: R.current)) ∧
            (r + 1 < c.sectorCount.toNat → ¬ c.Fits (⟨k, data⟩ :: (R.rotate c).current)) ∧
            ((Ring.rotate c)^[n] R).Stored c e' ∧ ((Ring.rotate c)^[n] R).AtRest c) := by
  have hn := hc.count_ge
  intro fuel
  induction fuel with
  | zero =>
    -- never reached from a write, which gives the loop one turn more than there are sectors
    intro r R e hst hrot hr
    exact ⟨_, e, 0, rfl, rfl, Config.Confined.refl _,
      Or.inr ⟨rfl, fun h => absurd h (by omega), fun h => absurd h (by omega), hst,
        hrot.atRest (by omega)⟩⟩
  | succ fuel ih =>
    intro r R e hst hrot hr
    have hcfg := hst.config
    by_cases hround : r = c.sectorCount.toNat
    · -- a whole round of rotations found no room
      obtain ⟨e1, hlog, hq⟩ := run_logAt .warn "no space for entry"
        [Log.Field.bytes "key" key, ("len", .int data.size)] e
      refine ⟨_, e1, 0, ?_, by rw [hq.1], hq.reads.confined, Or.inr ⟨rfl,
        fun h => absurd h (by omega), fun h => absurd h (by omega), hst.reads hq.reads,
        hrot.atRest (by omega)⟩⟩
      simp only [write.rotate, run_bind, run_store, hcfg, if_pos hround, hlog]
      rfl
    by_cases hfit : c.Fits (⟨k, data⟩ :: R.current)
    · -- there is room: the record is pushed
      obtain ⟨e1, happ, hst1, hm1, hcf1⟩ := run_append hc hpol hst hk hfit
      refine ⟨_, e1, 0, ?_, hm1, hcf1,
        Or.inl ⟨rfl, by omega, iff_of_true rfl hfit, hst1, hrot.push _⟩⟩
      simp only [write.rotate, run_bind, run_store, hcfg, if_neg hround,
        if_pos ((room_iff hc hst hsize hneed).2 hfit), run_wrapFault_ok happ]
      rfl
    · -- no room: the active sector is closed and the next one collected
      have hne : R.current ≠ [] := by
        rintro hnil
        exact hfit (hnil ▸ Config.fits_single hc hsize)
      obtain ⟨e1, hclose, hst1, hm1, hcf1⟩ := run_closeSector hc hpol hst hrot.settled hne
      obtain ⟨e2, hcoll, hst2, hm2, hcf2⟩ := run_collect hc hpol hst.toFit hne hrot.settled hst1
      obtain ⟨res, e3, n, hrun, hm3, hcf3, hres⟩ :=
        ih (r + 1) (R.rotate c) e2 hst2 (hrot.rotate hc hne) (by omega)
      refine ⟨res, e3, n + 1, ?_, by rw [hm3, hm2, hm1], hcf1.trans (hcf2.trans hcf3), ?_⟩
      · simp only [write.rotate, run_bind, run_store, hcfg, if_neg hround,
          if_neg (mt (room_iff hc hst hsize hneed).1 hfit), run_wrapFault_ok hclose,
          run_wrapFault_ok hcoll]
        exact hrun
      · -- the rings of the rest of the loop are `n` rotations on from `R.rotate c`
        rcases hres with ⟨hok, hlt, -, hs, hr⟩ | ⟨hfull, hnext, -, hs, hr⟩
        · exact Or.inl ⟨hok, by omega, iff_of_false (Nat.succ_ne_zero n) hfit, hs, hr⟩
        · exact Or.inr ⟨hfull, fun _ => hfit, hnext, hs, hr⟩

/-- A fault by which a write refuses its arguments or finds no space: of exactly one of those
classes. -/
def Refusal (f : Fault) : Prop :=
  f.kinds = [.invalidKey] ∨ f.kinds = [.valueTooLarge] ∨ f.kinds = [.noSpace]

theorem Refusal.is {f : Fault} (h : Refusal f) :
    f.is .invalidKey ∨ f.is .valueTooLarge ∨ f.is .noSpace := by
  rcases h with h | h | h <;> simp [Fault.is, h]

/-- What a write leaves: the key holding the record written, or, when it fails, a fault that
refuses its arguments or finds no space, and every key as it was. -/
def Written (R R' : Ring) (key data : ByteArray) : Except Fault Nat → Prop
  | .ok _ => ∃ k, Entry.padKey? key = some k ∧
      R'.view = Function.update R.view k (Record.held ⟨k, data⟩)
  | .error f => Refusal f ∧ R'.view = R.view

/-- How a write of `data` under `key` on an engine `e` whose store holds ring `R` ends, with the
engine `e'` and the ring `R'` it leaves. -/
inductive WriteEnd (c : Config) (R : Ring) (key data : ByteArray) (e : Engine) :
    Except Fault Nat → Engine → Ring → Prop
  /-- The key is refused before anything is read. -/
  | badKey {e' : Engine} : Entry.padKey? key = none → e.Reads e' →
      WriteEnd c R key data e
        (.error (.store (if data.size = 0 then "delete" else "write") key none ""
          (some (.kind .invalidKey)))) e' R
  /-- The value is refused before anything is read. -/
  | tooLarge {k : Vector UInt8 24} {e' : Engine} : Entry.padKey? key = some k →
      (data.size : Int) > c.maxValueSize → e.Reads e' →
      WriteEnd c R key data e
        (.error (.store (if data.size = 0 then "delete" else "write") key none
          ("max " ++ toString c.maxValueSize) (some (.kind .valueTooLarge)))) e' R
  /-- The key already holds what the write would leave it holding: the write only reads. -/
  | unchanged {k : Vector UInt8 24} {e' : Engine} : Entry.padKey? key = some k →
      (data.size : Int) ≤ c.maxValueSize → R.view k = Record.held ⟨k, data⟩ → e.Reads e' →
      WriteEnd c R key data e (.ok 0) e' R
  /-- The record is pushed after `n` rotations, fewer than there are sectors, and after none
  exactly when it fits the active sector. -/
  | appended {k : Vector UInt8 24} {e' : Engine} (n : Nat) : Entry.padKey? key = some k →
      (data.size : Int) ≤ c.maxValueSize → R.view k ≠ Record.held ⟨k, data⟩ →
      n < c.sectorCount.toNat → (n = 0 ↔ c.Fits (⟨k, data⟩ :: R.current)) →
      WriteEnd c R key data e (.ok data.size) e' (((Ring.rotate c)^[n] R).push ⟨k, data⟩)
  /-- A whole round of rotations found no room; the record fit neither the active sector nor
  the one the first rotation opened. -/
  | full {k : Vector UInt8 24} {e' : Engine} (n : Nat) : Entry.padKey? key = some k →
      (data.size : Int) ≤ c.maxValueSize → R.view k ≠ Record.held ⟨k, data⟩ →
      ¬ c.Fits (⟨k, data⟩ :: R.current) → ¬ c.Fits (⟨k, data⟩ :: (R.rotate c).current) →
      WriteEnd c R key data e
        (.error (.store (if data.size = 0 then "delete" else "write") key none ""
          (some (.kind .noSpace)))) e' ((Ring.rotate c)^[n] R)

section WriteEnd

variable {key data : ByteArray} {res : Except Fault Nat} {e' : Engine} {R' : Ring}

/-- Logging and metering after a write change none of its ends. -/
theorem WriteEnd.quiet (h : WriteEnd c R key data e res e' R') {e'' : Engine} (hq : e'.Quiet e'') :
    WriteEnd c R key data e res e'' R' := by
  cases h with
  | badKey hk hr => exact .badKey hk (hr.trans hq.reads)
  | tooLarge hk hbig hr => exact .tooLarge hk hbig (hr.trans hq.reads)
  | unchanged hk hsize hv hr => exact .unchanged hk hsize hv (hr.trans hq.reads)
  | appended n hk hsize hv hn hfit => exact .appended n hk hsize hv hn hfit
  | full n hk hsize hv hfit hnext => exact .full n hk hsize hv hfit hnext

/-- Each end leaves the written key holding the record, or every key as it held. -/
theorem WriteEnd.written (h : WriteEnd c R key data e res e' R') : Written R R' key data res := by
  cases h with
  | badKey => exact ⟨Or.inl (by simp only [Fault.kinds]), rfl⟩
  | tooLarge => exact ⟨Or.inr (Or.inl (by simp only [Fault.kinds])), rfl⟩
  | unchanged hk _ hv => exact ⟨_, hk, by rw [← hv, Function.update_eq_self]⟩
  | appended n hk => exact ⟨_, hk, by rw [Ring.view_push, Ring.view_rotate_iterate]⟩
  | full n => exact ⟨Or.inr (Or.inr (by simp only [Fault.kinds])), Ring.view_rotate_iterate R n⟩

end WriteEnd

/-- A write on a mounted store at rest ends in one of the ways `WriteEnd` names; the store is at
rest and mounted after it, and the part changed inside the region only. -/
theorem run_write_ends (hc : c.Usable) (hpol : Flash.Polar c.eraseValue) (hst : R.Stored c e)
    (hrest : R.AtRest c) (hm : e.store.mounted = true) (key data : ByteArray) :
    ∃ (res : Except Fault Nat) (e' : Engine), (write key data).run.run e = (res, e') ∧
      ∃ R' : Ring, R'.Stored c e' ∧ R'.AtRest c ∧ e'.store.mounted = true ∧
        WriteEnd c R key data e res e' R' ∧ c.Confined e.rig.chip e'.rig.chip := by
  have hcfg := hst.config
  -- how the write ends does not depend on the meters around it
  have hP : ∀ r e' e'', (∃ R' : Ring, R'.Stored c e' ∧ R'.AtRest c ∧ e'.store.mounted = true ∧
      WriteEnd c R key data e r e' R' ∧ c.Confined e.rig.chip e'.rig.chip) → e'.Quiet e'' →
      ∃ R' : Ring, R'.Stored c e'' ∧ R'.AtRest c ∧ e''.store.mounted = true ∧
        WriteEnd c R key data e r e'' R' ∧ c.Confined e.rig.chip e''.rig.chip := by
    rintro r e' e'' ⟨R', hst', hrest', hm', hw, hcf⟩ hq
    exact ⟨R', hst'.reads hq.reads, hrest', by rw [hq.1]; exact hm', hw.quiet hq,
      hcf.trans hq.reads.confined⟩
  unfold write
  refine run_observed_of hP ?_
  cases hk : Entry.padKey? key with
  | none =>
    refine ⟨_, e, ?_, R, hst, hrest, hm, .badKey hk (Engine.Reads.refl e), Config.Confined.refl _⟩
    rw [run_bind, run_keyField_none _ hk]
  | some k =>
    obtain ⟨-, hclose, -⟩ := Entry.padKey?_eq_some hk
    by_cases hbig : (data.size : Int) > c.maxValueSize
    · -- a value too large is refused before anything is read
      refine ⟨_, e, ?_, R, hst, hrest, hm, .tooLarge hk hbig (Engine.Reads.refl e),
        Config.Confined.refl _⟩
      simp only [run_bind, run_keyField_some _ hk, run_store, hcfg, if_pos hbig]
      rfl
    have hsize : (data.size : Int) ≤ c.maxValueSize := by omega
    obtain ⟨b, e1, hun, hr1, hb⟩ := run_unchanged hc hpol hst k data
    cases b with
    | true =>
      -- the key already holds what the write would leave: nothing is written
      refine ⟨.ok 0, e1, ?_, R, hst.reads hr1, hrest, by rw [hr1.1]; exact hm,
        .unchanged hk hsize (hb.1 rfl) hr1, hr1.confined⟩
      simp only [run_bind, run_keyField_some _ hk, run_store, hcfg, if_neg hbig, hm,
        Bool.not_true, Bool.false_eq_true, if_false, run_wrapFault_ok hun, if_true]
      rfl
    | false =>
      -- otherwise the rotation loop runs, with one turn more than there are sectors
      have hv : R.view k ≠ Record.held ⟨k, data⟩ := fun h => Bool.false_ne_true (hb.2 h)
      have hneed := Config.need_toNat hc
        (show data.size ≤ c.sectorSize.toNat by unfold Config.maxValueSize at hsize; omega)
      obtain ⟨res, e2, n, hrot, hm2, hcf2, hout⟩ := run_rotate hc hpol
        (if data.size = 0 then "delete" else "write") key hclose hsize hneed
        (c.sectorCount.toNat + 1) 0 R e1 (hst.reads hr1) hrest.rotating (by omega)
      refine ⟨res, e2, ?_, ?_⟩
      · simp only [run_bind, run_keyField_some _ hk, run_store, hcfg, if_neg hbig, hm,
          Bool.not_true, Bool.false_eq_true, if_false, run_wrapFault_ok hun, Store.entrySize]
        exact hrot
      · rcases hout with ⟨rfl, hlt, hfit, hst2, hrest2⟩ | ⟨rfl, hfit, hnext, hst2, hrest2⟩
        · exact ⟨_, hst2, hrest2, by rw [hm2, hr1.1]; exact hm,
            .appended n hk hsize hv (by omega) hfit, hr1.confined.trans hcf2⟩
        · exact ⟨_, hst2, hrest2, by rw [hm2, hr1.1]; exact hm,
            .full n hk hsize hv (hfit (by have := hc.count_ge; omega))
              (hnext (by have := hc.count_ge; omega)), hr1.confined.trans hcf2⟩

/-- A write on a mounted store at rest, in each of its four ways; the store is at rest and
mounted after it. -/
theorem run_write (hc : c.Usable) (hpol : Flash.Polar c.eraseValue) (hst : R.Stored c e)
    (hrest : R.AtRest c) (hm : e.store.mounted = true) (key data : ByteArray) :
    ∃ (res : Except Fault Nat) (e' : Engine), (write key data).run.run e = (res, e') ∧
      ∃ R' : Ring, R'.Stored c e' ∧ R'.AtRest c ∧ e'.store.mounted = true ∧
        Written R R' key data res := by
  obtain ⟨res, e', hrun, R', hst', hrest', hm', hend, -⟩ := run_write_ends hc hpol hst hrest hm key data
  exact ⟨res, e', hrun, R', hst', hrest', hm', hend.written⟩

/-- A deletion is the write of an empty value, its count dropped. -/
theorem run_delete (key : ByteArray) (e : Engine) :
    (delete key).run.run e = (((write key ByteArray.empty).run.run e).1.map fun _ => (),
      ((write key ByteArray.empty).run.run e).2) := by
  simp only [delete, run_bind]
  rcases (write key ByteArray.empty).run.run e with ⟨r, e'⟩
  cases r <;> rfl

end StoreM

end NorStore
