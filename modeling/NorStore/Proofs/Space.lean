import NorStore.Proofs.Session

/-!
# Space accounting

`usage` walks the whole table once and counts each slot as `Usage.tally` says: a valid entry that
holds a value and is the first of its key met is live, and its cost, the value in whole write
blocks and one entry, comes off the free space; every other valid entry is reclaimable, and so
is each slot of garbage. On a part that holds a ring the walk meets the free slot and then every
record, newest first (`StoreM.run_usage`), so:

* the live entries are the records a collection of the whole ring would keep,
  `keep [] R.records`, each counted once (`Ring.usage_trail`);
* in a faithful session those are the values the client expects, one per key
  (`Session.Faithful.bindings`);
* the free space is never negative: the records of every sector fit under its close slot, and
  at most all sectors but one hold records (`Ring.Fit.costs_le`).

The main statement, `Session.Reachable.space`, gives what `freeSpace` and `stat` answer in
every session a client reaches. A ring has no slot of garbage, so the reclaimable space is the
cost of the records that are not live.
-/

namespace NorStore

/-- What a value costs on flash: its bytes in whole write blocks and one entry. -/
def Config.cost (c : Config) (v : ByteArray) : Nat :=
  Nat.blockCeil v.size c.writeBlock.toNat + c.entrySize.toNat

namespace Config

variable {c : Config}

/-- The records of a sector cost their values' write blocks and one entry each. -/
theorem sum_cost_eq (rs : List Record) :
    (rs.map fun r => c.cost r.value).sum = c.dataEnd rs + rs.length * c.entrySize.toNat := by
  induction rs with
  | nil => simp
  | cons r rs ih =>
    rw [List.map_cons, List.sum_cons, ih, dataEnd_cons, List.length_cons, Nat.succ_mul, cost]
    omega

/-- The records of a sector that fit cost at most the sector less two entries, those of the
free slot and of the close slot. -/
theorem Fits.sum_cost_le {rs : List Record} (h : c.Fits rs) :
    (rs.map fun r => c.cost r.value).sum + 2 * c.entrySize.toNat ≤ c.sectorSize.toNat := by
  have hmul : (rs.length + 2) * c.entrySize.toNat =
      rs.length * c.entrySize.toNat + 2 * c.entrySize.toNat := Nat.add_mul _ _ _
  unfold Fits at h
  rw [sum_cost_eq]
  omega

end Config

namespace Ring

variable {c : Config} {R : Ring}

/-- Which keys a collection has seen matters, not in which order or how often. -/
theorem keep_congr : ∀ {s1 s2 : List (Vector UInt8 24)}, (∀ k, k ∈ s1 ↔ k ∈ s2) →
    ∀ G : List Record, keep s1 G = keep s2 G
  | _, _, _, [] => rfl
  | s1, s2, h, g :: gs => by
    have h' : ∀ k, k ∈ s1 ++ [g.key] ↔ k ∈ s2 ++ [g.key] := by
      intro k
      simp [h k]
    simp only [keep, h g.key, keep_congr h' gs]

/-- In a list of records of distinct keys, the first record of a member's key is that
member. -/
theorem find?_key_of_mem {rs : List Record} (hp : rs.Pairwise fun x y => x.key ≠ y.key)
    {r : Record} (hr : r ∈ rs) : rs.find? (·.key = r.key) = some r := by
  induction rs with
  | nil => cases hr
  | cons x xs ih =>
    rw [List.pairwise_cons] at hp
    rcases List.mem_cons.1 hr with rfl | hr
    · simp
    · have hne : x.key ≠ r.key := hp.1 r hr
      rw [List.find?_cons_of_neg (by simpa using hne)]
      exact ih hp.2 hr

/-- A record a collection of the whole ring keeps is what the ring holds for its key. -/
theorem view_of_mem_keep {r : Record} (hr : r ∈ keep [] R.records) :
    R.view r.key = some r.value := by
  have hfind := find?_keep (k := r.key) (List.not_mem_nil) R.records
  rw [find?_key_of_mem (keep_pairwise _ _) hr] at hfind
  obtain ⟨hx, hv⟩ := Option.filter_eq_some_iff.1 hfind.symm
  rw [view_eq, hx]
  simp only [decide_eq_true_eq] at hv
  simp only [Option.bind_some, if_neg hv]

/-- What the ring holds for a key is the value of a record that a collection of the whole ring
keeps. -/
theorem mem_keep_of_view {k : Vector UInt8 24} {v : ByteArray} (hv : R.view k = some v) :
    ∃ r ∈ keep [] R.records, r.key = k ∧ r.value = v := by
  rw [view_eq] at hv
  obtain ⟨r, hr, hrv⟩ := Option.bind_eq_some_iff.1 hv
  have hne : r.value.size ≠ 0 := fun h0 => by simp [h0] at hrv
  have hfind := find?_keep (k := k) (List.not_mem_nil) R.records
  rw [hr, Option.filter_some, if_pos (by simpa using hne)] at hfind
  refine ⟨r, List.mem_of_find?_eq_some hfind, by simpa using List.find?_some hfind, ?_⟩
  simpa [hne] using hrv

/-! ## The accounting along the trail -/

/-- What the accounting adds for the entry of a record: its cost is live when the record holds a
value and its key was not met before, and reclaimable otherwise. -/
theorem tally_entry (hc : c.Usable) {s : Store} (hs : s.config = c) (hR : R.Fit c) {x : Site}
    (hx : x ∈ R.sites c) (seen : List (Vector UInt8 24)) (u : Usage) :
    Usage.tally s s.entrySize.toNat (seen, u) (.valid x.entry) =
      if x.record.key ∈ seen ∨ x.record.value.size = 0 then
        (x.record.key :: seen, { u with reclaimable := u.reclaimable + c.cost x.record.value })
      else
        (x.record.key :: seen, { u with free := u.free - c.cost x.record.value, live := u.live + 1 }) := by
  have hS := hc.sector_le
  have hlen := entry_length hc hR hx
  have hbd := bounds_of_mem_sites hc hR hx
  have hW : c.writeBlock.toNat ≤ 32 := Nat.le_of_dvd (by decide) (dvd_32_of_mem_blockSizes hc.block)
  have hsize : x.record.value.size ≤ c.sectorSize.toNat := by
    have := hbd.value
    simp only [Config.slot] at this
    omega
  -- the cost the code computes in 32-bit words is the value's write blocks and one entry
  have hcost : ((alignUp x.entry.length.toUInt32 s.config.writeBlock).toNat : Int) +
      (s.entrySize.toNat : Int) = c.cost x.record.value := by
    have hl32 : x.entry.length.toUInt32.toNat = x.record.value.size := by
      rw [UInt16.toNat_toUInt32, hlen]
    rw [hs, alignUp_toNat hc.block (by rw [hl32]; omega), hl32, Store.entrySize, hs, Config.cost]
    push_cast
    rfl
  have hkey : x.entry.key = x.record.key := rfl
  have h0 : x.entry.length = 0 ↔ x.record.value.size = 0 := by
    rw [← hlen]
    exact ⟨fun h => by rw [h]; rfl, fun h => UInt16.toNat_inj.1 h⟩
  simp only [Usage.tally, hkey, hcost, Bool.or_eq_true, List.contains_iff_mem, decide_eq_true_eq, h0]

/-- Accounting for the entries of sites of the ring, from the keys `seen` already met, subtracts
the cost of the records a collection would keep from the free space and counts them live; the
cost of the others is reclaimable. -/
theorem foldl_tally_sites (hc : c.Usable) {s : Store} (hs : s.config = c) (hR : R.Fit c) :
    ∀ (L : List Site), (∀ x ∈ L, x ∈ R.sites c) → ∀ (seen seen' : List (Vector UInt8 24))
      (u : Usage), (∀ k, k ∈ seen ↔ k ∈ seen') →
      (L.foldl (fun acc x => Usage.tally s s.entrySize.toNat acc (.valid x.entry)) (seen, u)).2 =
        ⟨u.free - (((keep seen' (L.map Site.record)).map fun r => c.cost r.value).sum : Nat),
          u.reclaimable + ((L.map fun x => c.cost x.record.value).sum : Nat) -
            (((keep seen' (L.map Site.record)).map fun r => c.cost r.value).sum : Nat),
          u.live + (keep seen' (L.map Site.record)).length⟩
  | [], _, _, _, u, _ => by simp [keep]
  | x :: L, hL, seen, seen', u, hseen => by
    have hx := hL x List.mem_cons_self
    have hL' : ∀ y ∈ L, y ∈ R.sites c := fun y hy => hL y (List.mem_cons_of_mem _ hy)
    -- the keys met so far now include that of `x`, on both sides
    have hseen' : ∀ k, k ∈ x.record.key :: seen ↔ k ∈ seen' ++ [x.record.key] := by
      intro k
      simp [hseen k, or_comm]
    rw [List.foldl_cons, tally_entry hc hs hR hx, List.map_cons, List.map_cons, List.sum_cons]
    by_cases hlive : x.record.value.size ≠ 0 ∧ x.record.key ∉ seen'
    · have hcond : ¬(x.record.key ∈ seen ∨ x.record.value.size = 0) := by
        rw [hseen]
        tauto
      rw [if_neg hcond, foldl_tally_sites hc hs hR L hL' _ _ _ hseen', keep, if_pos hlive,
        List.map_cons, List.sum_cons, List.length_cons]
      simp only [Usage.mk.injEq]
      push_cast
      omega
    · have hcond : x.record.key ∈ seen ∨ x.record.value.size = 0 := by
        rw [hseen]
        tauto
      rw [if_pos hcond, foldl_tally_sites hc hs hR L hL' _ _ _ hseen', keep, if_neg hlive]
      simp only [Usage.mk.injEq, Nat.cast_add, true_and, and_true]
      omega

/-- Accounting along the trail of a ring: the records a collection of the whole ring would keep
are live, the cost of the others is reclaimable. -/
theorem usage_trail (hc : c.Usable) {s : Store} (hs : s.config = c) (hR : R.Fit c) (u : Usage) :
    ((R.trail c).foldl (fun acc q => Usage.tally s s.entrySize.toNat acc q.1) ([], u)).2 =
      ⟨u.free - (((keep [] R.records).map fun r => c.cost r.value).sum : Nat),
        u.reclaimable + ((R.records.map fun r => c.cost r.value).sum : Nat) -
          (((keep [] R.records).map fun r => c.cost r.value).sum : Nat),
        u.live + (keep [] R.records).length⟩ := by
  have hcost : (R.sites c).map (fun x => c.cost x.record.value) =
      R.records.map fun r => c.cost r.value := by
    rw [← map_record_ringSites (c := c), List.map_map]
    rfl
  have h := foldl_tally_sites hc hs hR (R.sites c) (fun _ hx => hx) [] [] u (fun _ => Iff.rfl)
  rw [map_record_ringSites, hcost] at h
  rw [trail, List.foldl_cons, List.foldl_map]
  exact h

/-! ## No negative free space -/

theorem costs_flatten_le {rss : List (List Record)} (h : ∀ rs ∈ rss, c.Fits rs) :
    ((rss.flatten.map fun r => c.cost r.value).sum) + rss.length * (2 * c.entrySize.toNat) ≤
      rss.length * c.sectorSize.toNat := by
  induction rss with
  | nil => simp
  | cons rs rss ih =>
    have h1 := (h rs List.mem_cons_self).sum_cost_le
    have h2 := ih fun rs' hm => h rs' (List.mem_cons_of_mem _ hm)
    have e1 := Nat.add_one_mul rss.length (2 * c.entrySize.toNat)
    have e2 := Nat.add_one_mul rss.length c.sectorSize.toNat
    rw [List.flatten_cons, List.map_append, List.sum_append, List.length_cons]
    omega

/-- The records of a ring cost at most its sectors that hold records, each less two entries. -/
theorem Fit.costs_le (hR : R.Fit c) :
    (R.records.map fun r => c.cost r.value).sum + (R.closed.length + 1) * (2 * c.entrySize.toNat) ≤
      (R.closed.length + 1) * c.sectorSize.toNat := by
  have h1 := hR.current.sum_cost_le
  have h2 := costs_flatten_le fun rs hm => (hR.closed rs hm).1
  have e1 := Nat.add_one_mul R.closed.length (2 * c.entrySize.toNat)
  have e2 := Nat.add_one_mul R.closed.length c.sectorSize.toNat
  rw [records, List.map_append, List.sum_append]
  omega

/-- The live records of a ring at rest cost no more than the free space of an empty store:
all sectors but one, less their close slots. -/
theorem AtRest.live_le (hR : R.Fit c) (hrest : R.AtRest c) :
    ((keep [] R.records).map fun r => c.cost r.value).sum ≤
      (c.sectorCount.toNat - 1) * (c.sectorSize.toNat - c.entrySize.toNat) := by
  have hsub : ((keep [] R.records).map fun r => c.cost r.value).sum ≤
      (R.records.map fun r => c.cost r.value).sum :=
    ((keep_sublist [] R.records).map _).sum_le_sum fun _ _ => Nat.zero_le _
  have hall := hR.costs_le
  have hset := hrest.settled
  have hcount : R.closed.length + 1 ≤ c.sectorCount.toNat - 1 := by omega
  have hsec : (R.closed.length + 1) * (c.sectorSize.toNat - 2 * c.entrySize.toNat) ≤
      (c.sectorCount.toNat - 1) * (c.sectorSize.toNat - c.entrySize.toNat) :=
    Nat.mul_le_mul hcount (by omega)
  rw [Nat.mul_sub] at hsec
  omega

end Ring

namespace StoreM

variable {e e1 : Engine} {u : Usage}

/-- On a mounted store `freeSpace` answers the free space that `usage` counts, and only reads. -/
theorem run_freeSpace (hm : e.store.mounted = true) (hu : usage.run.run e = (.ok u, e1))
    (hr : e.Reads e1) : ∃ e', freeSpace.run.run e = (.ok u.free, e') ∧ e.Reads e' := by
  obtain ⟨e2, hmeter, hq⟩ := run_meter (fun r p => r.setFreeSpace p u.free) e1
  unfold freeSpace
  apply run_observed_reads
  refine ⟨e2, ?_, hr.trans hq.reads⟩
  simp only [run_bind, run_store, hm, Bool.not_true, Bool.false_eq_true, if_false, run_pure]
  rw [run_tryCatch_ok hu]
  simp only [hmeter]

/-- On a mounted store `stat` answers the cursors and what `usage` counts, and only reads. -/
theorem run_stat (hm : e.store.mounted = true) (hu : usage.run.run e = (.ok u, e1)) :
    stat.run.run e = (.ok ⟨e.store.config, e.store.entrySize, e.store.ateCursor.sector,
      e.store.ateCursor, e.store.dataCursor, u⟩, e1) := by
  unfold stat
  simp only [run_bind, run_store, hm, Bool.not_true, Bool.false_eq_true, if_false, run_pure]
  rw [run_tryCatch_ok hu]

end StoreM

/-! ## What a session answers -/

namespace Session

variable {c : Config} {s : Session} {R : Ring}

/-- The values a client of a faithful session expects, one per key, are those of the records a
collection of the whole ring keeps. -/
theorem Faithful.bindings (h : s.Faithful c R) :
    ∃ L : List (ByteArray × ByteArray), (L.map Prod.fst).Nodup ∧
      (∀ key v, (key, v) ∈ L ↔ s.expected key = some v) ∧
      (L.map fun b => c.cost b.2) = (Ring.keep [] R.records).map fun r => c.cost r.value := by
  -- each kept record holds a value, so its key is one a client wrote
  have hpad : ∀ r ∈ Ring.keep [] R.records,
      Entry.padKey? (Entry.ofKeyField r.key 0 0).keyBytes = some r.key := by
    intro r hr
    obtain ⟨key, hkey⟩ := h.padded r.key (by rw [Ring.view_of_mem_keep hr]; simp)
    rw [Entry.keyBytes_of_padKey? hkey rfl]
    exact hkey
  refine ⟨(Ring.keep [] R.records).map fun r => ((Entry.ofKeyField r.key 0 0).keyBytes, r.value),
    ?_, fun key v => ?_, by simp only [List.map_map]; rfl⟩
  · -- two kept records differ in their fields, and each field pads its key
    apply List.Nodup.of_map Entry.padKey?
    have hmap : (((Ring.keep [] R.records).map fun r =>
        ((Entry.ofKeyField r.key 0 0).keyBytes, r.value)).map Prod.fst).map Entry.padKey? =
        ((Ring.keep [] R.records).map Record.key).map some := by
      simp only [List.map_map]
      exact List.map_congr_left fun r hr => hpad r hr
    rw [hmap]
    exact (List.pairwise_map.2 (Ring.keep_pairwise [] R.records)).map _
      (fun _ _ hne heq => hne (Option.some_injective _ heq))
  constructor
  · intro hmem
    obtain ⟨r, hr, hrv⟩ := List.mem_map.1 hmem
    obtain ⟨rfl, rfl⟩ := Prod.mk.inj hrv
    rw [← h.agrees _ _ (hpad r hr), Ring.view_of_mem_keep hr]
  · intro hv
    obtain ⟨k, hk⟩ := h.usable key (by rw [hv]; simp)
    obtain ⟨r, hr, rfl, rfl⟩ := Ring.mem_keep_of_view ((h.agrees key k hk).trans hv)
    exact List.mem_map.2 ⟨r, hr, by rw [Entry.keyBytes_of_padKey? hk rfl]⟩

/-- In every session a client reaches, `freeSpace` and `stat` answer: the free space is that of an
empty store less the cost of each value the client expects, one per key, and never negative;
the live entries are those values; and the reclaimable space is the cost of every other entry
of the table, superseded values and deletions alike. -/
theorem Reachable.space (hv : c.validate = .ok ()) (hpol : Flash.Polar c.eraseValue)
    (hs : s.Reachable c) :
    ∃ (R : Ring) (L : List (ByteArray × ByteArray)) (u : Usage),
      s.Faithful c R ∧ (L.map Prod.fst).Nodup ∧ (∀ key v, (key, v) ∈ L ↔ s.expected key = some v) ∧
      (∃ e', StoreM.freeSpace.run.run s.engine = (.ok u.free, e')) ∧
      (∃ e', StoreM.stat.run.run s.engine = (.ok ⟨c, c.entrySize, s.engine.store.ateCursor.sector,
        s.engine.store.ateCursor, s.engine.store.dataCursor, u⟩, e')) ∧
      u.free = ((c.sectorCount.toNat - 1) * (c.sectorSize.toNat - c.entrySize.toNat) : Nat) -
        ((L.map fun b => c.cost b.2).sum : Nat) ∧
      u.live = L.length ∧
      u.reclaimable = ((R.records.map fun r => c.cost r.value).sum : Nat) -
        ((L.map fun b => c.cost b.2).sum : Nat) ∧
      0 ≤ u.free := by
  have hc := Config.usable_of_validate hv
  obtain ⟨R, h⟩ := hs.faithful hv hpol
  obtain ⟨L, hnodup, hmem, hcost⟩ := h.bindings
  have hcfg : s.engine.store.config = c := h.stored.config
  obtain ⟨e1, hu, hr⟩ := StoreM.run_usage hc hpol h.stored
  rw [Ring.usage_trail hc hcfg h.stored.toFit] at hu
  -- the capacity the code computes in 32-bit words is all sectors but one, less an entry each
  have hE : c.entrySize.toNat ≤ c.sectorSize.toNat := by
    have := hc.four_entries
    omega
  have hcap : ((s.engine.store.config.sectorCount - 1).toNat : Int) *
      ((s.engine.store.config.sectorSize - s.engine.store.entrySize).toNat : Int) =
      ((c.sectorCount.toNat - 1) * (c.sectorSize.toNat - c.entrySize.toNat) : Nat) := by
    rw [Store.entrySize, hcfg, UInt32.toNat_sub_of_le _ _ (UInt32.le_iff_toNat_le.2 hE),
      UInt32.toNat_sub_of_le _ _ (UInt32.le_iff_toNat_le.2 (by have := hc.count_ge; simp; omega))]
    push_cast
    rfl
  rw [hcap] at hu
  obtain ⟨e2, hfree, -⟩ := StoreM.run_freeSpace h.mounted hu hr
  have hlive := Ring.AtRest.live_le h.stored.toFit h.atRest
  refine ⟨R, L, _, h, hnodup, hmem, ⟨e2, hfree⟩, ⟨e1, ?_⟩, ?_, ?_, ?_, ?_⟩
  · rw [StoreM.run_stat h.mounted hu, hcfg, Store.entrySize, hcfg]
  · simp only [hcost]
  · have hlen := congrArg List.length hcost
    rw [List.length_map, List.length_map] at hlen
    simp only [zero_add, hlen]
  · simp only [hcost, zero_add]
  · -- the live values fit in the free space of an empty store
    dsimp only
    omega

/-- After the calls the free space is that of two sectors, less a close slot each, less what the
live values cost. -/
theorem space_rotated :
    sampleConfig.validate = .ok () ∧ Flash.Polar sampleConfig.eraseValue ∧
      rotated.Reachable sampleConfig ∧
      ∃ (L : List (ByteArray × ByteArray)) (u : Usage),
        (∀ key v, (key, v) ∈ L ↔ rotated.expected key = some v) ∧
        (∃ e', StoreM.freeSpace.run.run rotated.engine = (.ok u.free, e')) ∧
        u.free = 300 - ((L.map fun b => sampleConfig.cost b.2).sum : Nat) ∧ u.live = L.length := by
  obtain ⟨R, L, u, -, -, hmem, hfree, -, hu, hlive, -, -⟩ :=
    Reachable.space (c := sampleConfig) rfl (.inr rfl) reachable_rotated
  refine ⟨rfl, .inr rfl, reachable_rotated, L, u, hmem, hfree, ?_, hlive⟩
  rw [hu]
  rfl

end Session

end NorStore
