import NorStore.Proofs.Site
import NorStore.Profile.Check

/-!
# Checked profiles are usable

A profile passes its check when no field is out of its bounds and the layout as a whole has no
fault (`Profile.validate`). The layout check asks that the partitions make valid storage
options, that a device size, when given, is whole sectors and reaches past both partitions, and
that an enabled cache has a value size. This module shows that this is enough for the tools.

*Storage options.* Valid options put each partition on whole sectors of a sector size that is
not zero (`aligned_of_validate`), and the store of a partition has exactly the partition's bytes
(`storeConfig_size`). The store check keeps the region inside the 32-bit address space, so a
partition ends there and its end, computed in a 32-bit word, is exact (`layout_end_le`,
`toNat_layout_end`). The overlap test then compares true positions, and the partitions lie apart
(`apart_of_validate`).

*Device.* The device is as large as given, or ends where the later partition ends. Either way it
is whole sectors, not empty, and holds both partitions (`sector_dvd_deviceSize`,
`deviceSize_pos`, `layout_end_le_deviceSize`), so its geometry passes the flash check
(`geometry_validate`).

*Main statement.* `checked_profile_usable`: every profile that passes the check, and so every
profile read from a file, is `Profile.Usable`.
-/

namespace NorStore

namespace Storage.Options

variable {o : Options}

/-! ## Storage options -/

/-- Valid options put each partition on whole sectors of a sector size that is not zero. -/
theorem aligned_of_validate (hv : o.validate = .ok ()) (q : Partition) :
    0 < o.sectorSize.toNat ∧ o.sectorSize.toNat ∣ (o.layout q).offset.toNat ∧
      o.sectorSize.toNat ∣ (o.layout q).size.toNat := by
  have h := validatePartition_of_validate hv q
  unfold validatePartition at h
  have hcond : ¬(o.sectorSize == 0 || (o.layout q).size % o.sectorSize != 0 ||
      (o.layout q).offset % o.sectorSize != 0) = true := by
    intro hc
    rw [if_pos hc] at h
    cases h
  simp only [Bool.or_eq_true, beq_iff_eq, bne_iff_ne, ne_eq, not_or, Decidable.not_not] at hcond
  obtain ⟨⟨hz, hsize⟩, hoff⟩ := hcond
  refine ⟨Nat.pos_of_ne_zero fun h0 => hz (UInt32.toNat_inj.1 h0), ?_, ?_⟩
  · exact Nat.dvd_of_mod_eq_zero (by rw [← UInt32.toNat_mod, hoff]; rfl)
  · exact Nat.dvd_of_mod_eq_zero (by rw [← UInt32.toNat_mod, hsize]; rfl)

/-- The sectors of a partition's store are the partition's bytes. -/
theorem storeConfig_size (hv : o.validate = .ok ()) (q : Partition) :
    o.sectorSize.toNat * (o.storeConfig q).sectorCount.toNat = (o.layout q).size.toNat := by
  obtain ⟨hpos, -, hdvd⟩ := aligned_of_validate hv q
  have hgt : o.sectorSize > 0 := UInt32.lt_iff_toNat_lt.2 hpos
  simp only [storeConfig, hgt, if_true, UInt32.toNat_div]
  exact Nat.mul_div_cancel' hdvd

/-- A partition of valid options ends inside the 32-bit address space. -/
theorem layout_end_le (hv : o.validate = .ok ()) (q : Partition) :
    (o.layout q).offset.toNat + (o.layout q).size.toNat ≤ 4294967295 := by
  have hc := Config.usable_of_validate (storeConfig_validate hv q)
  have hregion := hc.region
  rw [show (o.storeConfig q).sectorSize = o.sectorSize from rfl, storeConfig_size hv q] at hregion
  exact hregion

theorem toNat_layout_end (hv : o.validate = .ok ()) (q : Partition) :
    ((o.layout q).offset + (o.layout q).size).toNat =
      (o.layout q).offset.toNat + (o.layout q).size.toNat := by
  rw [UInt32.toNat_add]
  exact Nat.mod_eq_of_lt (by have := layout_end_le hv q; omega)

/-- Valid options place the partitions apart. -/
theorem apart_of_validate (hv : o.validate = .ok ()) :
    o.factory.offset.toNat + o.factory.size.toNat ≤ o.user.offset.toNat ∨
      o.user.offset.toNat + o.user.size.toNat ≤ o.factory.offset.toNat := by
  have hf := toNat_layout_end hv .factory
  have hu := toNat_layout_end hv .user
  simp only [layout] at hf hu
  have hok := hv
  unfold validate at hok
  rw [validatePartition_of_validate hv .factory, validatePartition_of_validate hv .user] at hok
  -- the overlap test was passed
  have hnot : ¬(o.factory.offset < o.user.offset + o.user.size ∧
      o.user.offset < o.factory.offset + o.factory.size) := by
    intro hc
    simp [hc, throw, throwThe, MonadExceptOf.throw, bind, Except.bind] at hok
  rw [UInt32.lt_iff_toNat_lt, UInt32.lt_iff_toNat_lt, hf, hu] at hnot
  omega

theorem toNat_max (x y : UInt32) : (max x y).toNat = max x.toNat y.toNat := by
  show (if x ≤ y then y else x).toNat = _
  rw [Nat.max_def]
  by_cases hxy : x ≤ y
  · rw [if_pos hxy, if_pos (UInt32.le_iff_toNat_le.1 hxy)]
  · rw [if_neg hxy, if_neg (mt UInt32.le_iff_toNat_le.2 hxy)]

/-- The device of valid options ends where the later partition ends. -/
theorem toNat_deviceSize (hv : o.validate = .ok ()) :
    o.deviceSize.toNat = max (o.factory.offset.toNat + o.factory.size.toNat)
      (o.user.offset.toNat + o.user.size.toNat) := by
  have hf := toNat_layout_end hv .factory
  have hu := toNat_layout_end hv .user
  simp only [layout] at hf hu
  rw [deviceSize, toNat_max, hf, hu]

/-- A partition of valid options holds at least two sectors. -/
theorem size_pos (hv : o.validate = .ok ()) (q : Partition) : 0 < (o.layout q).size.toNat := by
  have hc := Config.usable_of_validate (storeConfig_validate hv q)
  have hpos := (aligned_of_validate hv q).1
  rw [← storeConfig_size hv q]
  exact Nat.mul_pos hpos (by have := hc.count_ge; omega)

end Storage.Options

namespace Profile

variable {p : Profile}

/-! ## The layout of a checked profile -/

theorem layoutFaults_of_validate (h : p.validate = .ok ()) : p.layoutFaults = [] := by
  unfold validate at h
  cases hf : p.fieldFault with
  | some f => rw [hf] at h; cases h
  | none =>
    rw [hf] at h
    cases hl : p.layoutFaults with
    | nil => rfl
    | cons f fs => rw [hl] at h; cases fs <;> cases h

theorem options_validate (h : p.validate = .ok ()) : p.options.validate = .ok () := by
  have hl := layoutFaults_of_validate h
  unfold layoutFaults at hl
  simp only [List.append_eq_nil_iff] at hl
  obtain ⟨⟨hpart, -⟩, -⟩ := hl
  split at hpart
  · cases hpart
  · next hv => exact hv

/-- A device size that is given is whole sectors and reaches past both partitions. -/
theorem size_of_validate (h : p.validate = .ok ()) (hpos : p.part.size > 0) :
    p.part.sectorSize.toNat ∣ p.part.size.toNat ∧ p.options.deviceSize.toNat ≤ p.part.size.toNat := by
  have hl := layoutFaults_of_validate h
  unfold layoutFaults at hl
  simp only [List.append_eq_nil_iff, hpos, if_true] at hl
  obtain ⟨⟨-, hwhole, hreach⟩, -⟩ := hl
  have hmod : p.part.size % p.part.sectorSize = 0 := by
    by_contra hne
    simp [hne] at hwhole
  have hle : ¬p.options.deviceSize > p.part.size := by
    intro hgt
    simp [hgt] at hreach
  refine ⟨Nat.dvd_of_mod_eq_zero (by rw [← UInt32.toNat_mod, hmod]; rfl), ?_⟩
  simpa [UInt32.lt_iff_toNat_lt] using hle

theorem layout_end_le_deviceSize (h : p.validate = .ok ()) (q : Storage.Partition) :
    (p.options.layout q).offset.toNat + (p.options.layout q).size.toNat ≤ p.deviceSize.toNat := by
  have hv := options_validate h
  have hend : (p.options.layout q).offset.toNat + (p.options.layout q).size.toNat ≤
      p.options.deviceSize.toNat := by
    rw [Storage.Options.toNat_deviceSize hv]
    cases q
    · exact le_max_left _ _
    · exact le_max_right _ _
  unfold deviceSize
  split
  · next hpos => exact hend.trans (size_of_validate h hpos).2
  · exact hend

theorem sector_dvd_deviceSize (h : p.validate = .ok ()) :
    p.part.sectorSize.toNat ∣ p.deviceSize.toNat := by
  have hv := options_validate h
  unfold deviceSize
  split
  · next hpos => exact (size_of_validate h hpos).1
  · -- both partitions end on a sector boundary, and so does the later one
    have hend : ∀ q, p.part.sectorSize.toNat ∣
        (p.options.layout q).offset.toNat + (p.options.layout q).size.toNat := fun q =>
      have ⟨_, hoff, hsize⟩ := Storage.Options.aligned_of_validate hv q
      Nat.dvd_add hoff hsize
    rw [Storage.Options.toNat_deviceSize hv, max_def]
    split
    · exact hend .user
    · exact hend .factory

theorem deviceSize_pos (h : p.validate = .ok ()) : 0 < p.deviceSize.toNat :=
  Nat.lt_of_lt_of_le (Nat.lt_of_lt_of_le (Storage.Options.size_pos (options_validate h) .factory)
    (Nat.le_add_left _ _)) (layout_end_le_deviceSize h .factory)

/-- The device of a checked profile passes the flash geometry check. -/
theorem geometry_validate (h : p.validate = .ok ()) : p.geometry.validate = .ok () := by
  have hv := options_validate h
  have hc := Config.usable_of_validate (Storage.Options.storeConfig_validate hv .factory)
  have hsector : 0 < p.part.sectorSize.toNat := (Storage.Options.aligned_of_validate hv .factory).1
  have hblock : 0 < p.part.writeBlock.toNat := pos_of_mem_blockSizes hc.block
  have hdvd : p.part.writeBlock.toNat ∣ p.part.sectorSize.toNat := hc.block_dvd
  have hsize := deviceSize_pos h
  have hnest := sector_dvd_deviceSize h
  have hzero : (p.deviceSize.toNat == 0 || p.part.sectorSize.toNat == 0 ||
      p.part.writeBlock.toNat == 0) = false := by
    simp only [Bool.or_eq_false_iff, beq_eq_false_iff_ne, ne_eq]
    omega
  have hnests : (p.deviceSize.toNat % p.part.sectorSize.toNat == 0 &&
      p.part.sectorSize.toNat % p.part.writeBlock.toNat == 0) = true := by
    simp [Nat.mod_eq_zero_of_dvd hnest, Nat.mod_eq_zero_of_dvd hdvd]
  simp only [Flash.Geometry.validate, Flash.Geometry.hasZero, Flash.Geometry.nests, geometry, hzero,
    hnests]
  rfl

/-! ## Usable profiles -/

/-- A profile that reads and checks passed the check. -/
theorem validate_of_parse {data : ByteArray} (h : parse data = .ok p) : p.validate = .ok () := by
  unfold parse at h
  cases hd : decode data with
  | error e => simp [hd, bind, Except.bind, throw, throwThe, MonadExceptOf.throw] at h
  | ok p' =>
    simp only [hd, bind, Except.bind, pure, Except.pure] at h
    cases hv : p'.validate with
    | error f => simp [hv] at h
    | ok u =>
      simp only [hv, Except.ok.injEq] at h
      exact h ▸ hv

/-- What the tools rely on in a profile: its partitions make valid storage options, each with a
valid store covering exactly its bytes; the device passes the flash geometry check; both
partitions end inside the device and lie apart; and no partition's end wraps around the 32-bit
word it is computed in. -/
structure Usable (p : Profile) : Prop where
  options_valid : p.options.validate = .ok ()
  stores_valid : ∀ q, (p.options.storeConfig q).validate = .ok ()
  store_size : ∀ q, (p.options.storeConfig q).size.toNat = (p.options.layout q).size.toNat
  geometry_valid : p.geometry.validate = .ok ()
  inside : ∀ q, (p.options.layout q).offset.toNat + (p.options.layout q).size.toNat ≤ p.deviceSize.toNat
  apart : p.factory.offset.toNat + p.factory.size.toNat ≤ p.user.offset.toNat ∨
    p.user.offset.toNat + p.user.size.toNat ≤ p.factory.offset.toNat
  end_exact : ∀ q, ((p.options.layout q).offset + (p.options.layout q).size).toNat =
    (p.options.layout q).offset.toNat + (p.options.layout q).size.toNat

theorem usable_of_validate (h : p.validate = .ok ()) : p.Usable := by
  have hv := options_validate h
  refine ⟨hv, Storage.Options.storeConfig_validate hv, fun q => ?_, geometry_validate h,
    layout_end_le_deviceSize h, Storage.Options.apart_of_validate hv,
    Storage.Options.toNat_layout_end hv⟩
  have hsize := Storage.Options.storeConfig_size hv q
  have hend := Storage.Options.layout_end_le hv q
  rw [Config.size, UInt32.toNat_mul, show (p.options.storeConfig q).sectorSize = p.options.sectorSize
    from rfl, hsize]
  exact Nat.mod_eq_of_lt (by omega)

end Profile

/-- Every profile that passes the check, in particular every profile read from a file, is usable:
valid storage options and store configurations, a device geometry the flash accepts, partitions
inside the device and apart, and partition ends computed without wrapping. -/
theorem checked_profile_usable :
    (∀ p : Profile, p.validate = .ok () → p.Usable) ∧
      ∀ (data : ByteArray) (p : Profile), Profile.parse data = .ok p → p.Usable :=
  ⟨fun _ => Profile.usable_of_validate, fun _ _ h => Profile.usable_of_validate (Profile.validate_of_parse h)⟩

/-- The firmware layout passes the check and is usable. -/
theorem checked_profile_usable_default :
    ({} : Profile).validate = .ok () ∧ ({} : Profile).Usable := by
  have h : ({} : Profile).validate = .ok () := by rfl
  exact ⟨h, checked_profile_usable.1 _ h⟩

end NorStore
