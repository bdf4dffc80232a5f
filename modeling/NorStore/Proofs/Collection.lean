import NorStore.Proofs.Session

/-!
# What a rotation copies

A rotation closes the active sector and collects the sector after the new active one. This
module says what the collection leaves, in terms of where the ring keeps each record.

* A record's *site* is its sector, its table slot and the offset of its value. A site
  *survives* a rotation (`Ring.Survives`) when it lies in the collected sector, holds a value,
  and is the newest site of its key in the whole ring, the one a walk from the entry cursor
  meets first.
* The new active sector holds exactly the records of the surviving sites, each once and
  unchanged, oldest first as they were copied (`Ring.rotate_current`). The proof splits the
  ring's sites into those of the newer sectors and those of the oldest one
  (`Ring.sites_split_oldest`), and reads the records a collection keeps as a filter on the
  sites of the oldest sector (`Ring.keep_eq_filter`).
* Afterwards the collected sector is blank (`Ring.image_rotate_collected`), and the data cursor
  lies below the entry cursor in the active sector (`Ring.Stored.data_le_ate`).
* `StoreM.rotation_relocates_live` puts these together for the two steps a write runs when the
  active sector is full, on a part that holds the ring: every key reads as it did before.
-/

namespace NorStore

deriving instance DecidableEq for Record, Site

namespace Ring

variable {c : Config} {R : Ring}

/-- A site survives a rotation when it lies in the collected sector, holds a value, and is the
newest site of its key in the ring. -/
def Survives (c : Config) (R : Ring) (s : Site) : Prop :=
  s.sector = R.collected c ∧ s.record.value.size ≠ 0 ∧
    (R.sites c).find? (·.record.key = s.record.key) = some s

instance (c : Config) (R : Ring) : DecidablePred (R.Survives c) :=
  fun _ => inferInstanceAs (Decidable (_ ∧ _ ∧ _))

/-! ## The sites of the oldest sector -/

theorem index_lt_of_mem_sites {j : Nat} {rs : List Record} {s : Site} (h : s ∈ c.sites j rs) :
    s.index < rs.length := by
  obtain ⟨-, pre, post, hrs, hidx, -⟩ := split_of_mem_sites h
  rw [hidx, hrs]
  simp only [List.length_append, List.length_cons]
  omega

/-- The records a collection keeps from a sector, read off the sector's sites: those holding a
value whose key was not seen newer, and that are the newest site of their key in the sector. -/
theorem keep_eq_filter (c : Config) (j : Nat) : ∀ (seen : List (Vector UInt8 24)) (G : List Record),
    keep seen G = ((c.sites j G).filter fun s => decide (s.record.value.size ≠ 0 ∧
      s.record.key ∉ seen ∧ (c.sites j G).find? (·.record.key = s.record.key) = some s)).map
        Site.record
  | _, [] => rfl
  | seen, g :: gs => by
    set s0 : Site := ⟨g, j, gs.length, c.dataEnd gs⟩
    have hsites : c.sites j (g :: gs) = s0 :: c.sites j gs := rfl
    -- an older site of the key of `g` is not the newest: `s0` comes first
    have htail : ∀ s ∈ c.sites j gs,
        decide (s.record.value.size ≠ 0 ∧ s.record.key ∉ seen ∧
          (s0 :: c.sites j gs).find? (·.record.key = s.record.key) = some s) =
        decide (s.record.value.size ≠ 0 ∧ s.record.key ∉ seen ++ [g.key] ∧
          (c.sites j gs).find? (·.record.key = s.record.key) = some s) := by
      intro s hs
      have hne : s0 ≠ s := fun h => by
        have := index_lt_of_mem_sites hs
        rw [← h] at this
        exact Nat.lt_irrefl _ this
      by_cases hk : g.key = s.record.key
      · have hfind : (s0 :: c.sites j gs).find? (·.record.key = s.record.key) = some s0 := by
          simp [s0, hk]
        simp [hfind, hne, hk]
      · have hfind : (s0 :: c.sites j gs).find? (·.record.key = s.record.key) =
            (c.sites j gs).find? (·.record.key = s.record.key) := by
          simp [s0, hk]
        simp [hfind, Ne.symm hk]
    have hhead : (s0 :: c.sites j gs).find? (·.record.key = s0.record.key) = some s0 := by simp
    have ih := keep_eq_filter c j (seen ++ [g.key]) gs
    rw [hsites, List.filter_cons, List.filter_congr htail, hhead]
    -- the newest site of the sector is kept exactly when `keep` keeps `g`
    by_cases hg : g.value.size ≠ 0 ∧ g.key ∉ seen
    · rw [keep, if_pos hg, ih, if_pos (by simpa [s0] using hg), List.map_cons]
    · rw [keep, if_neg hg, ih, if_neg (by simpa [s0] using hg)]

theorem sector_of_mem_closedSites {a : Nat} {rss : List (List Record)} {b : Nat} {s : Site}
    (h : s ∈ closedSites c a b rss) : ∃ t < rss.length, s.sector = c.behind a (b + t) := by
  obtain ⟨t, rs, ht, hs⟩ := mem_closedSites h
  exact ⟨t, (List.getElem?_eq_some_iff.1 ht).1, (split_of_mem_sites hs).1⟩

/-- Two sectors that lie different distances back from a sector are different. -/
theorem behind_inj {a b b' : Nat} (ha : a < c.sectorCount.toNat) (hb : b < c.sectorCount.toNat)
    (hb' : b' < c.sectorCount.toNat) (h : c.behind a b = c.behind a b') : b = b' := by
  rw [← Config.distance_behind ha hb, h, Config.distance_behind ha hb']

/-- The sites of a ring are those of its newer sectors, then those of its oldest sector. -/
theorem sites_split_oldest (hR : R.Fit c) : ∃ X : List Site,
    R.sites c = X ++ c.sites (c.behind R.active R.closed.length) R.oldest ∧
      X.map Site.record = R.newer.flatten ∧
      ∀ x ∈ X, x.sector ≠ c.behind R.active R.closed.length := by
  have ha := hR.active_lt
  have hspan := hR.span
  rcases List.eq_nil_or_concat' R.closed with hnil | ⟨cs, l, hcs⟩
  · -- nothing is closed: the active sector is the oldest
    refine ⟨[], ?_, ?_, by simp⟩
    · simp [sites, hnil, closedSites, oldest, Config.behind_zero ha]
    · simp [newer, hnil]
  · refine ⟨c.sites R.active R.current ++ closedSites c R.active 1 cs, ?_, ?_, ?_⟩
    · rw [sites, hcs, closedSites_append, oldest, hcs, List.getLastD_concat, List.length_append,
        List.length_singleton, Nat.add_comm cs.length 1]
      simp [closedSites]
    · rw [newer, hcs, ← List.cons_append, List.dropLast_concat]
      simp [map_record_sites, map_record_closedSites]
    · -- every newer sector lies fewer sectors back than the oldest
      have hlen : R.closed.length = cs.length + 1 := by rw [hcs, List.length_append]; rfl
      rw [hlen]
      intro x hx heq
      rcases List.mem_append.1 hx with hx | hx
      · rw [(split_of_mem_sites hx).1] at heq
        have := behind_inj ha (by omega) (by omega) ((Config.behind_zero ha).trans heq)
        omega
      · obtain ⟨t, ht, hsec⟩ := sector_of_mem_closedSites hx
        rw [hsec] at heq
        have := behind_inj ha (by omega) (by omega) heq
        omega

/-- Every site lies in the active sector or in a closed one. -/
theorem sector_of_mem_sites (hR : R.Fit c) {s : Site} (h : s ∈ R.sites c) :
    ∃ b ≤ R.closed.length, s.sector = c.behind R.active b := by
  obtain ⟨b, rs, hb, hs⟩ := mem_sites hR.active_lt h
  refine ⟨b, ?_, (split_of_mem_sites hs).1⟩
  cases b with
  | zero => exact Nat.zero_le _
  | succ b => exact (List.getElem?_eq_some_iff.1 hb).1

/-- The collected sector lies two sectors on from the active one, all but two sectors back. -/
theorem collected_eq (hc : c.Usable) : R.collected c = c.behind R.active (c.sectorCount.toNat - 2) := by
  have hn := hc.count_ge
  rw [collected, Config.behind, close, Nat.mod_add_mod]
  congr 1
  omega

/-! ## What a rotation leaves -/

/-- The new active sector holds the records of the surviving sites, each once, oldest first: a
rotation copies the newest site of a key out of the collected sector when it holds a value, and
nothing else. -/
theorem rotate_current (hc : c.Usable) (hR : R.Fit c)
    (hset : R.closed.length + 2 ≤ c.sectorCount.toNat) :
    (R.rotate c).current =
      (((R.sites c).filter fun s => decide (R.Survives c s)).map Site.record).reverse := by
  have ha := hR.active_lt
  have hn := hc.count_ge
  obtain ⟨X, hsites, hX, hsec⟩ := sites_split_oldest hR
  by_cases hfull : R.closed.length + 2 = c.sectorCount.toNat
  · -- the oldest sector is the collected one; a newer site of a key hides its older ones
    have hcol : R.collected c = c.behind R.active R.closed.length := by
      rw [collected_eq hc, show c.sectorCount.toNat - 2 = R.closed.length by omega]
    have hkeys : X.map (·.record.key) = R.newerKeys := by
      rw [newerKeys, ← hX, List.map_map]
      rfl
    set G := c.sites (c.behind R.active R.closed.length) R.oldest
    have hfilter : ∀ s ∈ G, decide (R.Survives c s) = decide (s.record.value.size ≠ 0 ∧
        s.record.key ∉ R.newerKeys ∧ G.find? (·.record.key = s.record.key) = some s) := by
      intro s hs
      have hss : s.sector = R.collected c := by rw [hcol]; exact (split_of_mem_sites hs).1
      by_cases hk : s.record.key ∈ R.newerKeys
      · -- a newer site of the key is found first, and it is not `s`
        rw [← hkeys] at hk
        obtain ⟨x, hx, hxk⟩ := List.mem_map.1 hk
        have hfind : (R.sites c).find? (·.record.key = s.record.key) ≠ some s := by
          obtain ⟨z, hz⟩ := Option.isSome_iff_exists.1
            (List.find?_isSome.2 ⟨x, hx, by simpa using hxk⟩ :
              (X.find? (·.record.key = s.record.key)).isSome)
          rw [hsites, List.find?_append, hz, Option.some_or]
          intro h
          exact hsec z (List.mem_of_find?_eq_some hz) (by rw [Option.some.inj h, hss, hcol])
        rw [← hkeys]
        simp [Survives, hfind, hk]
      · have hnone : X.find? (·.record.key = s.record.key) = none := by
          rw [List.find?_eq_none]
          intro x hx heq
          exact hk (by rw [← hkeys]; exact List.mem_map.2 ⟨x, hx, by simpa using heq⟩)
        simp [Survives, hss, hsites, List.find?_append, hnone, hk]
    have hnew : X.filter (fun s => decide (R.Survives c s)) = [] := by
      rw [List.filter_eq_nil_iff]
      intro x hx hsurv
      exact hsec x hx (by rw [← hcol]; exact (of_decide_eq_true hsurv).1)
    rw [rotate_of_full hfull, hsites, List.filter_append, hnew, List.nil_append,
      List.filter_congr hfilter, ← keep_eq_filter]
    rfl
  · -- the collected sector is blank: nothing lies there and nothing is copied
    have hnone : (R.sites c).filter (fun s => decide (R.Survives c s)) = [] := by
      rw [List.filter_eq_nil_iff]
      intro s hs hsurv
      obtain ⟨b, hb, hsb⟩ := sector_of_mem_sites hR hs
      have hcol := (of_decide_eq_true hsurv).1
      rw [hsb, collected_eq hc] at hcol
      have := behind_inj ha (by omega) (by omega) hcol
      omega
    rw [rotate_of_not_full hfull, hnone]
    rfl

/-- After a rotation the collected sector is blank. -/
theorem image_rotate_collected (hc : c.Usable) (hR : R.Fit c) (hne : R.current ≠ [])
    (hset : R.closed.length + 2 ≤ c.sectorCount.toNat) :
    (R.rotate c).image c (R.collected c) = fun _ => c.eraseValue := by
  have hn := hc.count_ge
  have hfit := Fit.rotate hc hR hne hset
  have hactive : (R.rotate c).active = (R.close c).active := by
    unfold rotate
    split <;> rfl
  have hlen : (R.rotate c).closed.length ≤ c.sectorCount.toNat - 2 := by
    unfold rotate
    split
    · simp only [length_newer]
      omega
    · simp only [close, List.length_cons]
      omega
  rw [← behind_last_collected hc, ← hactive,
    show c.sectorCount.toNat - 1 = c.sectorCount.toNat - 2 + 1 by omega]
  exact image_blank hfit hlen (by omega)

/-- The data cursor of a stored ring lies in the active sector, at or below the entry
cursor. -/
theorem Stored.data_le_ate (hc : c.Usable) {e : Engine} (hst : R.Stored c e) :
    e.store.dataCursor ≤ e.store.ateCursor ∧ e.store.dataCursor.sector = e.store.ateCursor.sector := by
  have hS := hc.sector_le
  have hn := hc.count_le
  have ha := hst.active_lt
  have hfit : c.dataEnd R.current + (R.current.length + 2) * c.entrySize.toNat ≤
      c.sectorSize.toNat := hst.current
  rw [hst.data, hst.ate, Ring.dataEnd, Ring.ate]
  refine ⟨(Address.at_le_at_iff (by omega) (by omega) (by omega)
    (by simp only [Config.slot]; omega)).2 (by simp only [Config.slot]; omega), ?_⟩
  apply UInt32.toNat_inj.1
  rw [Address.sector_at (by omega) (by omega),
    Address.sector_at (by omega) (by simp only [Config.slot]; omega)]

end Ring

namespace StoreM

variable {c : Config} {R : Ring} {e : Engine}

/-- A rotation on a part that holds a ring. Closing the active sector and collecting the sector
after the new active one both go through, and leave the part holding the rotated ring: its
active sector holds the records of the surviving sites, each once and unchanged, oldest first;
the data cursor lies at or below the entry cursor; the collected sector reads as erased; and
every key reads as it did before. -/
theorem rotation_relocates_live (hv : c.validate = .ok ()) (hpol : Flash.Polar c.eraseValue)
    (hst : R.Stored c e) (hm : e.store.mounted = true)
    (hset : R.closed.length + 2 ≤ c.sectorCount.toNat) (hne : R.current ≠ []) :
    ∃ e1 e2, closeSector.run.run e = (.ok (), e1) ∧ collect.run.run e1 = (.ok (), e2) ∧
      (R.rotate c).Stored c e2 ∧
      (R.rotate c).current =
        (((R.sites c).filter fun s => decide (R.Survives c s)).map Site.record).reverse ∧
      e2.store.dataCursor ≤ e2.store.ateCursor ∧
      (∀ o < c.sectorSize.toNat, e2.rig.chip.cells.get!
        (c.offset.toNat + R.collected c * c.sectorSize.toNat + o) = c.eraseValue) ∧
      ∀ key, (Entry.padKey? key).isSome → ((get key).run.run e2).1 = ((get key).run.run e).1 := by
  have hc := Config.usable_of_validate hv
  obtain ⟨e1, hclose, hst1, hm1, -⟩ := run_closeSector hc hpol hst hset hne
  obtain ⟨e2, hcoll, hst2, hm2, -⟩ := run_collect hc hpol hst.toFit hne hset hst1
  refine ⟨e1, e2, hclose, hcoll, hst2, Ring.rotate_current hc hst.toFit hset,
    (hst2.data_le_ate hc).1, fun o ho => ?_, fun key hkey => ?_⟩
  · rw [hst2.hosts _ (Ring.collected_lt hc) o ho,
      Ring.image_rotate_collected hc hst.toFit hne hset]
  · -- both reads answer what their ring holds for the key, and a rotation keeps that
    obtain ⟨k, hk⟩ := Option.isSome_iff_exists.1 hkey
    obtain ⟨e', hget, -⟩ := run_get hc hpol hst hm hk
    obtain ⟨e'', hget', -⟩ := run_get hc hpol hst2 (by rw [hm2, hm1, hm]) hk
    rw [hget, hget', Ring.view_rotate]

end StoreM

/-! ## A part holding a ring -/

namespace Ring

/-- An engine whose part is exactly the region, holding the image of ring `R`, with a mounted
store whose cursors are where the ring puts them. -/
def onPart (c : Config) (R : Ring) : Engine :=
  ⟨{ config := c, ateCursor := R.ate c, dataCursor := R.dataEnd c, mounted := true },
    { chip :=
        { geometry := ⟨c.sectorSize.toNat * c.sectorCount.toNat, c.sectorSize.toNat,
            c.writeBlock.toNat, c.eraseValue⟩
          cells := ⟨((List.range (c.sectorSize.toNat * c.sectorCount.toNat)).map fun p =>
            R.image c (p / c.sectorSize.toNat) (p % c.sectorSize.toNat)).toArray⟩
          wear := Array.replicate c.sectorCount.toNat 0 } }⟩

variable {c : Config} {R : Ring}

/-- A ring that keeps its shape is stored on the part made of its image, when the region starts
the part. -/
theorem stored_onPart (hoff : c.offset.toNat = 0) (hR : R.Fit c) :
    R.Stored c (R.onPart c) where
  toFit := hR
  config := rfl
  placed :=
    { erased := rfl
      size := by
        show (ByteArray.mk _).size = _
        rw [ByteArray.size, List.size_toArray, List.length_map, List.length_range]
        rfl
      region := by simp [onPart, hoff]
      write_block := .inr ⟨by simp [onPart, hoff], Nat.dvd_refl _⟩
      erase_block := .inr ⟨by simp [onPart, hoff], Nat.dvd_refl _⟩
      ready := ⟨rfl, show (-1 : Int) < 0 by decide⟩ }
  hosts := by
    intro j hj o ho
    have hlt : j * c.sectorSize.toNat + o < c.sectorSize.toNat * c.sectorCount.toNat := by
      have := Config.sector_end_le hj
      omega
    have hdiv : (j * c.sectorSize.toNat + o) / c.sectorSize.toNat = j := by
      rw [Nat.add_comm, Nat.add_mul_div_right _ _ (by omega), Nat.div_eq_of_lt ho, Nat.zero_add]
    have hmod : (j * c.sectorSize.toNat + o) % c.sectorSize.toNat = o := by
      rw [Nat.add_comm, Nat.add_mul_mod_self_right, Nat.mod_eq_of_lt ho]
    rw [hoff, Nat.zero_add, ByteArray.get!_eq]
    simp [onPart, hlt, hdiv, hmod]
  ate := rfl
  data := rfl

end Ring

/-- On a part of two sectors of 120 bytes whose active sector holds one record of one byte, the
rotation goes through, copies the record and erases the sector it was in. -/
theorem rotation_one_record :
    Config.validate ⟨0, 120, 2, 1, 0xFF⟩ = .ok () ∧ Flash.Polar 0xFF ∧
      Ring.Stored ⟨0, 120, 2, 1, 0xFF⟩ ⟨0, [⟨Vector.replicate 24 0x61, ⟨#[7]⟩⟩], []⟩
        (Ring.onPart ⟨0, 120, 2, 1, 0xFF⟩ ⟨0, [⟨Vector.replicate 24 0x61, ⟨#[7]⟩⟩], []⟩) ∧
      ∃ e1 e2, StoreM.closeSector.run.run
          (Ring.onPart ⟨0, 120, 2, 1, 0xFF⟩ ⟨0, [⟨Vector.replicate 24 0x61, ⟨#[7]⟩⟩], []⟩) =
          (.ok (), e1) ∧ StoreM.collect.run.run e1 = (.ok (), e2) ∧
        e2.store.dataCursor ≤ e2.store.ateCursor ∧
        ∀ o < 120, e2.rig.chip.cells.get! (0 + 0 * 120 + o) = 0xFF := by
  have hst := Ring.stored_onPart (c := ⟨0, 120, 2, 1, 0xFF⟩)
    (R := ⟨0, [⟨Vector.replicate 24 0x61, ⟨#[7]⟩⟩], []⟩) rfl
    { active_lt := by decide
      span := by decide
      current := by unfold Config.Fits; decide
      closed := by simp
      keys := by simp [Ring.records]; decide }
  obtain ⟨e1, e2, hclose, hcoll, -, -, hle, herased, -⟩ :=
    StoreM.rotation_relocates_live rfl (.inr rfl) hst rfl (by decide) (by simp)
  exact ⟨rfl, .inr rfl, hst, e1, e2, hclose, hcoll, hle, herased⟩

end NorStore
