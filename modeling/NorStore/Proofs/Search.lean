import NorStore.Proofs.Walk

/-!
# Searching a ring

The lookups of the store walk the whole table with a `Walker`: `findNewest` stops at the first
entry of a key, `findVersion` counts the entries of a key down to the version asked for, and
`usage` accounts for every entry. On a part that holds a ring every such walk follows the trail
of the ring (`chain_trail`) and ends back at the entry cursor within the walk limit.

* `run_findNewest_go` and `run_usage_go` follow a chain of slots to its end, by induction on
  the slots left; `run_next` is one step of the walker.
* `findVersion_go_zero` says that looking for version 0 of a key is looking for its newest
  entry and refusing a deletion (`versionOf`), for every walk.
* `mem_sites` places every site in the active sector or in a closed one; no site lies at the
  entry cursor (`addr_ne_ate`), and the ring has fewer sites than the walk limit
  (`length_sites_lt`).
* So `findNewest k` answers the entry and the slot of the first site of `k`
  (`run_findNewest`), and `usage` goes through (`run_usage`).
* The newest site of a key holds the newest record of it (`find?_sites`), so `get` answers
  `Ring.view` (`run_get`) and `readVersion` at version 0 its length and as much of it as the
  buffer takes (`run_readVersion`).
-/

namespace NorStore

/-- The first valid entry of key `k` among the slots `l`, with its address. -/
def firstEntry (k : Vector UInt8 24) : List (Slot × Address) → Option (Entry × Address)
  | [] => none
  | (.valid e, x) :: l => if e.key = k then some (e, x) else firstEntry k l
  | _ :: l => firstEntry k l

/-- What the space accounting adds for one slot of a walk, given the keys met so far: nothing for
an erased slot, one entry of garbage for an invalid one, and the cost of a valid entry, which is
live when it holds a value and is the first of its key, and reclaimable otherwise. -/
def Usage.tally (s : Store) (ate : Int) (acc : List (Vector UInt8 24) × Usage) :
    Slot → List (Vector UInt8 24) × Usage
  | .erased => acc
  | .invalid _ => (acc.1, { acc.2 with reclaimable := acc.2.reclaimable + ate })
  | .valid e =>
    let cost : Int := (alignUp e.length.toUInt32 s.config.writeBlock).toNat + ate
    if acc.1.contains e.key || e.length = 0 then
      (e.key :: acc.1, { acc.2 with reclaimable := acc.2.reclaimable + cost })
    else (e.key :: acc.1, { acc.2 with free := acc.2.free - cost, live := acc.2.live + 1 })

namespace Ring

variable {c : Config} {R : Ring}

theorem run_next {e : Engine} (hst : R.Stored c e) {x y : Address} {s : Slot}
    (hs : R.Steps c x s y) (steps limit : Nat) (hlim : steps < limit) :
    ∃ e', (Walker.next ⟨x, steps, limit⟩).run.run e = (.ok (s, x, ⟨y, steps + 1, limit⟩), e') ∧
      e.Reads e' := by
  obtain ⟨e', hrun, hr⟩ := hs e hst
  refine ⟨e', ?_, hr⟩
  simp only [Walker.next, show ¬ steps ≥ limit by omega, if_false, run_bind, hrun]
  rfl

theorem run_done (w : Walker) (e : Engine) :
    (Walker.done w).run.run e = (.ok (w.addr == e.store.ateCursor), e) := rfl

/-- Looking for the newest entry of a key along a chain of slots finds the first of them that
holds one. -/
theorem run_findNewest_go (k : Vector UInt8 24) : ∀ (l : List (Slot × Address))
    (p : Slot × Address) (fuel steps limit : Nat) (e : Engine), R.Stored c e →
    R.Chain c (p :: l) (R.ate c) → (∀ q ∈ l, q.2 ≠ R.ate c) → l.length < fuel →
    steps + l.length < limit →
    ∃ e', (StoreM.findNewest.go k fuel ⟨p.2, steps, limit⟩).run.run e =
      (.ok (firstEntry k (p :: l)), e') ∧ e.Reads e' := by
  intro l
  induction l with
  | nil =>
    intro ⟨s, x⟩ fuel steps limit e hst hch _ hfuel hlim
    obtain ⟨fuel, rfl⟩ : ∃ f, fuel = f + 1 := ⟨fuel - 1, by simp at hfuel; omega⟩
    have hstep : R.Steps c x s (R.ate c) := hch.1
    obtain ⟨e1, hnext, hr1⟩ := run_next hst hstep steps limit (by simpa using hlim)
    refine ⟨e1, ?_, hr1⟩
    have hdone : (R.ate c == e1.store.ateCursor) = true := by
      rw [(hst.reads hr1).ate]
      exact beq_self_eq_true _
    cases s with
    | valid en =>
      by_cases hk : en.key = k
      · simp only [StoreM.findNewest.go, run_bind, hnext, hk, firstEntry, if_true]
        rfl
      · simp only [StoreM.findNewest.go, run_bind, hnext, hk, firstEntry, if_false, run_done,
          hdone]
        rfl
    | erased =>
      simp only [StoreM.findNewest.go, run_bind, hnext, firstEntry, run_done, hdone, if_true]
      rfl
    | invalid en =>
      simp only [StoreM.findNewest.go, run_bind, hnext, firstEntry, run_done, hdone, if_true]
      rfl
  | cons q l ih =>
    intro ⟨s, x⟩ fuel steps limit e hst hch hne hfuel hlim
    obtain ⟨fuel, rfl⟩ : ∃ f, fuel = f + 1 := ⟨fuel - 1, by simp at hfuel; omega⟩
    have hstep : R.Steps c x s q.2 := hch.1
    obtain ⟨e1, hnext, hr1⟩ := run_next hst hstep steps limit (by simp at hlim; omega)
    have hdone : (q.2 == e1.store.ateCursor) = false := by
      rw [(hst.reads hr1).ate, beq_eq_false_iff_ne]
      exact hne q (List.mem_cons_self)
    obtain ⟨e2, hgo, hr2⟩ := ih q fuel (steps + 1) limit e1 (hst.reads hr1) hch.2
      (fun q' hq' => hne q' (List.mem_cons_of_mem _ hq')) (by simp at hfuel; omega)
      (by simp at hlim; omega)
    cases s with
    | valid en =>
      by_cases hk : en.key = k
      · refine ⟨e1, ?_, hr1⟩
        simp only [StoreM.findNewest.go, run_bind, hnext, hk, firstEntry, if_true]
        rfl
      · refine ⟨e2, ?_, hr1.trans hr2⟩
        simp only [StoreM.findNewest.go, run_bind, hnext, hk, firstEntry, if_false, run_done,
          hdone]
        exact hgo
    | erased =>
      refine ⟨e2, ?_, hr1.trans hr2⟩
      simp only [StoreM.findNewest.go, run_bind, hnext, firstEntry, run_done, hdone]
      exact hgo
    | invalid en =>
      refine ⟨e2, ?_, hr1.trans hr2⟩
      simp only [StoreM.findNewest.go, run_bind, hnext, firstEntry, run_done, hdone]
      exact hgo

/-- Accounting for the space along a chain of slots goes through to its end, and counts each
slot as `Usage.tally` does. -/
theorem run_usage_go (s : Store) (ate : Int) : ∀ (l : List (Slot × Address))
    (p : Slot × Address) (fuel steps limit : Nat) (seen : List (Vector UInt8 24)) (u : Usage)
    (e : Engine), R.Stored c e → R.Chain c (p :: l) (R.ate c) → (∀ q ∈ l, q.2 ≠ R.ate c) →
    l.length < fuel → steps + l.length < limit →
    ∃ e', (StoreM.usage.go s ate fuel ⟨p.2, steps, limit⟩ seen u).run.run e =
      (.ok ((p :: l).foldl (fun acc q => Usage.tally s ate acc q.1) (seen, u)).2, e') ∧
      e.Reads e' := by
  intro l
  induction l with
  | nil =>
    intro ⟨slot, x⟩ fuel steps limit seen u e hst hch _ hfuel hlim
    obtain ⟨fuel, rfl⟩ : ∃ f, fuel = f + 1 := ⟨fuel - 1, by simp at hfuel; omega⟩
    have hstep : R.Steps c x slot (R.ate c) := hch.1
    obtain ⟨e1, hnext, hr1⟩ := run_next hst hstep steps limit
      (by simpa using hlim)
    have hdone : (R.ate c == e1.store.ateCursor) = true := by
      rw [(hst.reads hr1).ate]
      exact beq_self_eq_true _
    refine ⟨e1, ?_, hr1⟩
    -- the last slot is counted and the walk is back at the entry cursor
    cases slot <;>
    · simp only [StoreM.usage.go, run_bind, hnext, run_done, hdone, if_true]
      rfl
  | cons q l ih =>
    intro ⟨slot, x⟩ fuel steps limit seen u e hst hch hne hfuel hlim
    obtain ⟨fuel, rfl⟩ : ∃ f, fuel = f + 1 := ⟨fuel - 1, by simp at hfuel; omega⟩
    have hstep : R.Steps c x slot q.2 := hch.1
    obtain ⟨e1, hnext, hr1⟩ := run_next hst hstep steps limit
      (by simp at hlim; omega)
    have hdone : (q.2 == e1.store.ateCursor) = false := by
      rw [(hst.reads hr1).ate, beq_eq_false_iff_ne]
      exact hne q (List.mem_cons_self)
    -- whatever the slot held, the walk goes on with what it has counted
    have hrest : ∀ acc : List (Vector UInt8 24) × Usage, ∃ e2,
        (StoreM.usage.go s ate fuel ⟨q.2, steps + 1, limit⟩ acc.1 acc.2).run.run e1 =
          (.ok ((q :: l).foldl (fun acc q => Usage.tally s ate acc q.1) acc).2, e2) ∧
          e.Reads e2 := by
      intro acc
      obtain ⟨e2, hgo, hr2⟩ := ih q fuel (steps + 1) limit acc.1 acc.2 e1 (hst.reads hr1) hch.2
        (fun q' hq' => hne q' (List.mem_cons_of_mem _ hq')) (by simp at hfuel; omega)
        (by simp at hlim; omega)
      exact ⟨e2, hgo, hr1.trans hr2⟩
    obtain ⟨e2, hgo, hr2⟩ := hrest (Usage.tally s ate (seen, u) slot)
    refine ⟨e2, ?_, hr2⟩
    rw [List.foldl_cons]
    cases slot <;>
    · simp only [StoreM.usage.go, run_bind, hnext, run_done, hdone]
      exact hgo

@[simp] theorem length_sites (c : Config) (j : Nat) (rs : List Record) :
    (c.sites j rs).length = rs.length := by
  induction rs with
  | nil => rfl
  | cons r rs ih => simp [Config.sites, ih]

/-- The records of the sector `b` back from the active one, if it is active or closed. -/
def recordsAt (R : Ring) : Nat → Option (List Record)
  | 0 => some R.current
  | b + 1 => R.closed[b]?

/-- A site of sector `j` is one of its records, with as many older records as its slot index
and its value just past theirs. -/
theorem split_of_mem_sites {c : Config} {j : Nat} {rs : List Record} {s : Site}
    (h : s ∈ c.sites j rs) :
    s.sector = j ∧ ∃ pre post, rs = pre ++ s.record :: post ∧ s.index = post.length ∧
      s.data = c.dataEnd post := by
  induction rs with
  | nil => simp [Config.sites] at h
  | cons r rs ih =>
    simp only [Config.sites, List.mem_cons] at h
    rcases h with rfl | h
    · exact ⟨rfl, [], rs, rfl, rfl, rfl⟩
    · obtain ⟨h1, pre, post, hrs, h2, h3⟩ := ih h
      exact ⟨h1, r :: pre, post, by rw [hrs]; rfl, h2, h3⟩

theorem mem_closedSites {a : Nat} : ∀ {rss : List (List Record)} {b : Nat} {s : Site},
    s ∈ closedSites c a b rss →
      ∃ t rs, rss[t]? = some rs ∧ s ∈ c.sites (c.behind a (b + t)) rs
  | [], _, _, h => by simp [closedSites] at h
  | rs :: rss, b, s, h => by
    simp only [closedSites, List.mem_append] at h
    rcases h with h | h
    · exact ⟨0, rs, rfl, h⟩
    · obtain ⟨t, rs', ht, h'⟩ := mem_closedSites h
      exact ⟨t + 1, rs', ht, by rw [show b + (t + 1) = b + 1 + t by omega]; exact h'⟩

/-- Every site is a record of the active sector or of a closed one, where the layout put it. -/
theorem mem_sites (ha : R.active < c.sectorCount.toNat) {s : Site} (h : s ∈ R.sites c) :
    ∃ b rs, R.recordsAt b = some rs ∧ s ∈ c.sites (c.behind R.active b) rs := by
  simp only [sites, List.mem_append] at h
  rcases h with h | h
  · exact ⟨0, R.current, rfl, by rw [Config.behind_zero ha]; exact h⟩
  · obtain ⟨t, rs, ht, h'⟩ := mem_closedSites h
    exact ⟨t + 1, rs, ht, by rw [Nat.add_comm]; exact h'⟩

/-- No record lies at the entry cursor. -/
theorem addr_ne_ate (hc : c.Usable) (hR : R.Fit c) {s : Site} (h : s ∈ R.sites c) :
    s.addr c ≠ R.ate c := by
  have hS := hc.sector_le
  have hn := hc.count_le
  have ha := hR.active_lt
  have hE : 30 ≤ c.entrySize.toNat := hc.entry_ge
  have hcur := hR.current.mul_le (k := R.current.length + 2) (Nat.le_refl _)
  obtain ⟨b, rs, hb, hs⟩ := mem_sites ha h
  obtain ⟨hsec, pre, post, hrs, hidx, -⟩ := split_of_mem_sites hs
  unfold Site.addr ate
  cases b with
  | zero =>
    -- a record of the active sector lies at least one slot above the free one
    cases hb
    have hlt : s.index < R.current.length := by rw [hidx, hrs]; simp; omega
    have hslot := Config.slot_add_le (c := c) hlt hcur
    rw [hsec, Config.behind_zero ha, Ne, Address.at_inj (by omega)
      (by simp only [Config.slot]; omega) (by omega) (by simp only [Config.slot]; omega)]
    omega
  | succ b =>
    -- a closed sector is not the active one
    have hblen := (List.getElem?_eq_some_iff.1 hb).1
    have hspan := hR.span
    have hne : c.behind R.active (b + 1) ≠ R.active := by
      intro heq
      have := Config.distance_behind ha (b := b + 1) (by omega)
      rw [heq, Config.distance_self] at this
      omega
    have hfit := (hR.closed rs (List.mem_of_getElem? hb)).1.mul_le (k := rs.length + 2)
      (Nat.le_refl _)
    have hlt := Config.behind_lt (b := b + 1) ha
    have hidx' : s.index < rs.length := by rw [hidx, hrs]; simp; omega
    rw [hsec, Ne, Address.at_inj (by omega) (by simp only [Config.slot]; omega) (by omega)
      (by simp only [Config.slot]; omega)]
    exact fun h => hne h.1

/-- What the layout of a site's sector guarantees about its offsets. -/
structure SiteBounds (c : Config) (s : Site) : Prop where
  sector : s.sector < c.sectorCount.toNat
  value : s.data + s.record.value.size + c.entrySize.toNat ≤ c.slot s.index
  slot : (s.index + 3) * c.entrySize.toNat ≤ c.sectorSize.toNat

/-- The sector `b` back from the active one holds the layout of its records, closed unless it is
the active one. -/
theorem slice_image_of_recordsAt (hR : R.Fit c) {b : Nat} {rs : List Record}
    (hb : R.recordsAt b = some rs) {o len : Nat} (ho : o + len ≤ c.closeOffset) :
    Sector.slice (R.image c (c.behind R.active b)) o len = Sector.slice (c.layout rs) o len := by
  cases b with
  | zero =>
    cases hb
    rw [Config.behind_zero hR.active_lt, image_active]
  | succ b =>
    rw [image_closed hR hb, Config.slice_closedLayout ho]

theorem fits_of_recordsAt (hR : R.Fit c) {b : Nat} {rs : List Record}
    (hb : R.recordsAt b = some rs) : c.Fits rs := by
  cases b with
  | zero => cases hb; exact hR.current
  | succ b => exact (hR.closed rs (List.mem_of_getElem? hb)).1

theorem bounds_of_mem_sites (hc : c.Usable) (hR : R.Fit c) {s : Site} (h : s ∈ R.sites c) :
    SiteBounds c s := by
  obtain ⟨b, rs, hb, hs⟩ := mem_sites hR.active_lt h
  obtain ⟨hsec, pre, post, hrs, hidx, hdata⟩ := split_of_mem_sites hs
  have hfit : c.Fits (s.record :: post) := by
    have := fits_of_recordsAt hR hb
    rw [hrs] at this
    exact this.of_append
  obtain ⟨h1, h2⟩ := hfit.cons_bounds hc
  exact ⟨by rw [hsec]; exact Config.behind_lt hR.active_lt, by rw [hdata, hidx]; exact h1,
    by rw [hidx]; exact h2⟩

/-- The value of a record is where its site says. -/
theorem slice_site_value (hc : c.Usable) (hR : R.Fit c) {s : Site} (h : s ∈ R.sites c) :
    Sector.slice (R.image c s.sector) s.data s.record.value.size = s.record.value.toList := by
  obtain ⟨b, rs, hb, hs⟩ := mem_sites hR.active_lt h
  obtain ⟨hsec, pre, post, hrs, hidx, hdata⟩ := split_of_mem_sites hs
  have hfit := fits_of_recordsAt hR hb
  have hbd := bounds_of_mem_sites hc hR h
  have hE : 30 ≤ c.entrySize.toNat := hc.entry_ge
  have htop : s.data + s.record.value.size ≤ c.closeOffset := by
    have := hbd.value
    have := hbd.slot
    simp only [Config.slot, Config.closeOffset] at *
    omega
  rw [hsec, slice_image_of_recordsAt hR hb htop, hrs, hdata]
  exact Config.slice_layout_value hc (hrs ▸ hfit)

/-- A sector holds at most as many records as it has slots. -/
theorem length_le_of_fits (hc : c.Usable) {rs : List Record} (h : c.Fits rs) :
    rs.length + 2 ≤ c.sectorSize.toNat / c.entrySize.toNat := by
  have hE : 30 ≤ c.entrySize.toNat := hc.entry_ge
  rw [Nat.le_div_iff_mul_le (by omega)]
  exact h.mul_le (Nat.le_refl _)

theorem length_closedSites (hc : c.Usable) {a : Nat} : ∀ {rss : List (List Record)} {b : Nat},
    (∀ rs ∈ rss, c.Fits rs) →
      (closedSites c a b rss).length ≤ rss.length * (c.sectorSize.toNat / c.entrySize.toNat)
  | [], _, _ => by simp [closedSites]
  | rs :: rss, b, h => by
    have h1 := length_le_of_fits hc (h rs List.mem_cons_self)
    have h2 := length_closedSites hc (a := a) (b := b + 1) (fun rs' hm => h rs' (List.mem_cons_of_mem _ hm))
    simp only [closedSites, List.length_append, length_sites, List.length_cons, Nat.succ_mul]
    omega

/-- A walk of the whole ring stays inside the walk limit. -/
theorem length_sites_lt (hc : c.Usable) (hR : R.Fit c) {s : Store} (hs : s.config = c) :
    (R.sites c).length < s.walkLimit := by
  have hS := hc.sector_le
  have hn := hc.count_le
  have hE : 30 ≤ c.entrySize.toNat := hc.entry_ge
  have hspan := hR.span
  have h1 := length_le_of_fits hc hR.current
  have h2 := length_closedSites hc (a := R.active) (b := 1) (fun rs hm => (hR.closed rs hm).1)
  have hq : c.sectorSize.toNat / c.entrySize.toNat ≤ 65535 := Nat.le_trans (Nat.div_le_self _ _) hS
  have hmul : (R.closed.length + 1) * (c.sectorSize.toNat / c.entrySize.toNat) ≤
      c.sectorCount.toNat * (c.sectorSize.toNat / c.entrySize.toNat) := Nat.mul_le_mul_right _ hspan
  have hbig : c.sectorCount.toNat * (c.sectorSize.toNat / c.entrySize.toNat) ≤ 65535 * 65535 :=
    Nat.mul_le_mul hn hq
  have hlim : s.walkLimit = c.sectorCount.toNat * (c.sectorSize.toNat / c.entrySize.toNat) + 1 := by
    rw [Store.walkLimit, Store.entrySize, hs, UInt32.toNat_mul, UInt32.toNat_div,
      Nat.mod_eq_of_lt (by omega)]
  rw [hlim, sites, List.length_append, length_sites]
  rw [Nat.add_mul, Nat.one_mul] at hmul
  omega

/-- The first entry of a key along the trail is the entry of the first site of that key. -/
theorem firstEntry_trail (k : Vector UInt8 24) :
    firstEntry k (R.trail c) =
      ((R.sites c).find? (·.record.key = k)).map fun s => (s.entry, s.addr c) := by
  show firstEntry k ((R.sites c).map (Site.visit c)) = _
  induction R.sites c with
  | nil => rfl
  | cons s l ih =>
    by_cases hk : s.record.key = k
    · simp [Site.visit, firstEntry, Site.entry, Record.entry, Entry.sealed, hk]
    · simp [Site.visit, firstEntry, Site.entry, Record.entry, Entry.sealed, hk, ih]

end Ring

namespace StoreM

/-- The newest version of a key answers what its newest entry holds, and `notFound` for a
deletion or no entry at all. -/
def versionOf : Option (Entry × Address) → StoreM (Entry × Address)
  | some (en, x) => if en.length = 0 then throw (.kind .notFound) else pure (en, x)
  | none => throw (.kind .notFound)

/-- Looking for version 0 of a key is looking for its newest entry and refusing a deletion. -/
theorem findVersion_go_zero (k : Vector UInt8 24) : ∀ (fuel : Nat) (w : Walker) (e : Engine),
    (findVersion.go k 0 fuel w 0).run.run e = (findNewest.go k fuel w >>= versionOf).run.run e
  | 0, _, _ => rfl
  | fuel + 1, w, e => by
    simp only [findVersion.go, findNewest.go, run_bind]
    rcases (w.next).run.run e with ⟨r, e1⟩
    rcases r with f | ⟨slot, here, w'⟩
    · rfl
    · -- the same slot is read; both go on exactly when it is not an entry of `k`
      have hrest := findVersion_go_zero k fuel w' e1
      rw [run_bind] at hrest
      cases slot with
      | valid en =>
        by_cases hk : en.key = k
        · simp only [hk, if_true, run_pure]
          by_cases hl : en.length = 0
          · simp only [hl, if_true, versionOf, run_bind, run_throw]
          · simp only [hl, if_false, versionOf, run_pure]
        · simp only [hk, if_false, run_bind, Ring.run_done]
          cases (w'.addr == e1.store.ateCursor)
          · exact hrest
          · rfl
      | erased =>
        simp only [run_bind, Ring.run_done]
        cases (w'.addr == e1.store.ateCursor)
        · exact hrest
        · rfl
      | invalid en =>
        simp only [run_bind, Ring.run_done]
        cases (w'.addr == e1.store.ateCursor)
        · exact hrest
        · rfl

variable {c : Config} {R : Ring} {e : Engine}

/-- The newest entry of a key is the entry of the newest record of that key. -/
theorem run_findNewest (hc : c.Usable) (hpol : Flash.Polar c.eraseValue) (hst : R.Stored c e)
    (k : Vector UInt8 24) :
    ∃ e', (findNewest k).run.run e =
      (.ok (((R.sites c).find? (·.record.key = k)).map fun s => (s.entry, s.addr c)), e') ∧
      e.Reads e' := by
  have hlen := Ring.length_sites_lt hc hst.toFit hst.config (s := e.store)
  obtain ⟨e', hgo, hr⟩ := Ring.run_findNewest_go k ((R.sites c).map (Site.visit c))
    (.erased, R.ate c) (e.store.walkLimit + 1) 0 e.store.walkLimit e hst
    (Ring.chain_trail hc hpol hst.toFit)
    (fun q hq => by
      obtain ⟨s, hs, rfl⟩ := List.mem_map.1 hq
      exact Ring.addr_ne_ate hc hst.toFit hs)
    (by simp; omega) (by simp; omega)
  refine ⟨e', ?_, hr⟩
  rw [← Ring.firstEntry_trail]
  simp only [findNewest, run_bind, run_store, Walker.start, Walker.fromAddr, hst.ate]
  exact hgo

/-- Version 0 of a key is the value of its newest record, unless that is a deletion. -/
theorem run_findVersion_zero (hc : c.Usable) (hpol : Flash.Polar c.eraseValue)
    (hst : R.Stored c e) (k : Vector UInt8 24) :
    ∃ e', (findVersion k 0).run.run e =
      (versionOf (((R.sites c).find? (·.record.key = k)).map fun s => (s.entry, s.addr c))).run.run e' ∧
      e.Reads e' := by
  obtain ⟨e', hrun, hr⟩ := run_findNewest hc hpol hst k
  refine ⟨e', ?_, hr⟩
  simp only [findVersion, run_bind, run_store]
  rw [findVersion_go_zero, run_bind]
  simp only [findNewest, run_bind, run_store] at hrun
  rw [hrun]

/-- Accounting for the space of a store walks the trail of the ring from the free slot, and
counts each slot of it as `Usage.tally` does. -/
theorem run_usage (hc : c.Usable) (hpol : Flash.Polar c.eraseValue) (hst : R.Stored c e) :
    ∃ e', usage.run.run e = (.ok ((R.trail c).foldl (fun acc q => Usage.tally e.store
        e.store.entrySize.toNat acc q.1)
      ([], { free := ((e.store.config.sectorCount - 1).toNat : Int) *
        ((e.store.config.sectorSize - e.store.entrySize).toNat : Int) })).2, e') ∧
      e.Reads e' := by
  have hlen := Ring.length_sites_lt hc hst.toFit hst.config (s := e.store)
  obtain ⟨e', hgo, hr⟩ := Ring.run_usage_go e.store _ ((R.sites c).map (Site.visit c))
    (.erased, R.ate c) (e.store.walkLimit + 1) 0 e.store.walkLimit [] _ e hst
    (Ring.chain_trail hc hpol hst.toFit)
    (fun q hq => by
      obtain ⟨s, hs, rfl⟩ := List.mem_map.1 hq
      exact Ring.addr_ne_ate hc hst.toFit hs)
    (by simp; omega) (by simp; omega)
  refine ⟨e', ?_, hr⟩
  simp only [usage, run_bind, run_store, Walker.start, Walker.fromAddr, hst.ate]
  exact hgo

end StoreM

end NorStore

namespace NorStore

namespace Ring

variable {c : Config} {R : Ring}

theorem map_record_closedSites (c : Config) (a : Nat) : ∀ (b : Nat) (rss : List (List Record)),
    (closedSites c a b rss).map Site.record = rss.flatten
  | _, [] => rfl
  | b, rs :: rss => by
    simp only [closedSites, List.map_append, map_record_sites, map_record_closedSites c a (b + 1) rss,
      List.flatten_cons]

theorem map_record_ringSites : (R.sites c).map Site.record = R.records := by
  simp only [sites, List.map_append, map_record_sites, map_record_closedSites, records]

/-- The newest site of a key holds the newest record of it. -/
theorem find?_sites (k : Vector UInt8 24) :
    ((R.sites c).find? (·.record.key = k)).map Site.record = R.records.find? (·.key = k) := by
  rw [← map_record_ringSites, List.find?_map]
  rfl

theorem entry_length (hc : c.Usable) (hR : R.Fit c) {s : Site} (h : s ∈ R.sites c) :
    s.entry.length.toNat = s.record.value.size := by
  have hb := bounds_of_mem_sites hc hR h
  have hS := hc.sector_le
  have := hb.value
  have : c.slot s.index ≤ c.sectorSize.toNat := by simp only [Config.slot]; omega
  show (s.record.value.size.toUInt16).toNat = _
  rw [Nat.toUInt16_eq, UInt16.toNat_ofNat', Nat.mod_eq_of_lt (by omega)]

theorem valueAddr_site (hc : c.Usable) (hR : R.Fit c) {s : Site} (h : s ∈ R.sites c) :
    StoreM.valueAddr (s.addr c) s.entry = Address.at s.sector s.data := by
  have hb := bounds_of_mem_sites hc hR h
  have hS := hc.sector_le
  have hn := hc.count_le
  have hsec := hb.sector
  have := hb.value
  have hslot : c.slot s.index ≤ c.sectorSize.toNat := by simp only [Config.slot]; omega
  have hdata : s.entry.offset.toUInt32.toNat = s.data := by
    show ((s.data.toUInt16).toUInt32).toNat = _
    rw [UInt16.toNat_toUInt32, Nat.toUInt16_eq, UInt16.toNat_ofNat', Nat.mod_eq_of_lt (by omega)]
  unfold StoreM.valueAddr Site.addr
  rw [Address.sectorStart_at (by omega) (by omega), Address.plus_at (by omega) (by omega), hdata,
    Nat.zero_add]

end Ring

end NorStore

namespace NorStore

namespace StoreM

variable {c : Config} {R : Ring} {e : Engine}

/-- Reading the first bytes of a record's value from where its entry says. -/
theorem run_read_site (hc : c.Usable) (hst : R.Stored c e) {s : Site} (h : s ∈ R.sites c)
    {n : Nat} (hn : n ≤ s.record.value.size) :
    ∃ e', (read (valueAddr (s.addr c) s.entry) n).run.run e =
      (.ok (s.record.value.extract 0 n), e') ∧ e.Reads e' := by
  have hb := Ring.bounds_of_mem_sites hc hst.toFit h
  have := hb.value
  have hslot : c.slot s.index ≤ c.sectorSize.toNat := by
    have := hb.slot; simp only [Config.slot]; omega
  rw [Ring.valueAddr_site hc hst.toFit h]
  obtain ⟨b, e', hrun, hr, hbytes⟩ := run_read hc hst.config hst.placed hst.hosts hb.sector
    (o := s.data) (n := n) (by omega)
  refine ⟨e', ?_, hr⟩
  rw [hrun]
  congr
  apply ByteArray.ext_toList
  rw [hbytes, ← Nat.zero_add n, ByteArray.toList_extract _ _ _ (by omega)]
  have hval := Ring.slice_site_value hc hst.toFit h
  apply List.ext_getElem (by simp)
  intro t h1 h2
  simp only [Sector.length_slice] at h1
  rw [Sector.getElem_slice, List.getElem_map, List.getElem_range, Nat.zero_add,
    ← ByteArray.getElem_toList _ _ (by rw [ByteArray.length_toList]; omega)]
  have := congrArg (fun l => l[t]?) hval
  rw [List.getElem?_eq_getElem (by simp; omega), List.getElem?_eq_getElem (by
    rw [ByteArray.length_toList]; omega), Sector.getElem_slice] at this
  exact Option.some.inj this

/-- What version 0 of a key reads as, from the newest site of the key. -/
theorem versionOf_site (hc : c.Usable) (hR : R.Fit c) {k : Vector UInt8 24} :
    ∀ {o : Option Site}, (R.sites c).find? (·.record.key = k) = o →
      (∀ e, ∃ r, (versionOf (o.map fun s => (s.entry, s.addr c))).run.run e = (r, e) ∧
        ((∃ s, o = some s ∧ s.record.value.size ≠ 0 ∧ r = .ok (s.entry, s.addr c)) ∨
          (R.view k = none ∧ r = .error (.kind .notFound))))
  | none, hf, e => by
    refine ⟨_, rfl, Or.inr ⟨?_, rfl⟩⟩
    have := Ring.find?_sites (R := R) (c := c) k
    rw [hf, Option.map_none] at this
    simp [Ring.view, ← this]
  | some s, hf, e => by
    have hs := List.mem_of_find?_eq_some hf
    have hlen := Ring.entry_length hc hR hs
    have hrec : R.records.find? (·.key = k) = some s.record := by
      rw [← Ring.find?_sites, hf]
      rfl
    by_cases h0 : s.record.value.size = 0
    · have hl : s.entry.length = 0 := UInt16.toNat_inj.1 (by rw [hlen, h0]; rfl)
      refine ⟨.error (.kind .notFound), ?_, Or.inr ⟨by simp [Ring.view, hrec, h0], rfl⟩⟩
      simp only [Option.map_some, versionOf, hl, if_true]
      rfl
    · have hl : s.entry.length ≠ 0 := fun h => h0 (by rw [← hlen, h]; rfl)
      refine ⟨.ok (s.entry, s.addr c), ?_, Or.inl ⟨s, rfl, h0, rfl⟩⟩
      simp only [Option.map_some, versionOf, hl, if_false]
      rfl

/-- An observed operation reads no more than its body does: on top, only the journal and the
meters change. -/
theorem run_observed_reads (op : String) {act : StoreM α} {e : Engine} {r : Except Fault α}
    (h : ∃ e', act.run.run e = (r, e') ∧ e.Reads e') :
    ∃ e', (observed op act).run.run e = (r, e') ∧ e.Reads e' := by
  obtain ⟨e1, hrun, hr1⟩ := h
  obtain ⟨e2, hobs, hq⟩ := run_observed op hrun
  exact ⟨e2, hobs, hr1.trans hq.reads⟩

/-- Reading a key returns what the ring holds for it, and `notFound` when it holds nothing. -/
theorem run_get (hc : c.Usable) (hpol : Flash.Polar c.eraseValue) (hst : R.Stored c e)
    (hm : e.store.mounted = true) {key : ByteArray} {k : Vector UInt8 24}
    (hk : Entry.padKey? key = some k) :
    ∃ e', (get key).run.run e = (match R.view k with
        | some v => .ok v
        | none => .error (.store "get" key none "" (some (.kind .notFound))), e') ∧
      e.Reads e' := by
  obtain ⟨e1, hfv, hr1⟩ := run_findVersion_zero hc hpol hst k
  obtain ⟨r, hvr, hcase⟩ := versionOf_site hc hst.toFit (k := k) rfl e1
  rw [hvr] at hfv
  -- past the key and mount checks, the lookup itself runs inside the fault wrapper
  unfold StoreM.get
  apply run_observed_reads
  simp only [keyField, hk, run_bind, run_pure, run_store, hm, Bool.not_true,
    Bool.false_eq_true, if_false]
  rcases hcase with ⟨s, hs, h0, rfl⟩ | ⟨hview, rfl⟩
  · have hmem := List.mem_of_find?_eq_some hs
    have hlen := Ring.entry_length hc hst.toFit hmem
    obtain ⟨e2, hread, hr2⟩ := run_read_site hc (hst.reads hr1) hmem
      (n := s.entry.length.toNat) (by omega)
    have hview : R.view k = some s.record.value := by
      have hrec : R.records.find? (·.key = k) = some s.record := by
        rw [← Ring.find?_sites, hs]
        rfl
      simp [Ring.view, hrec, h0]
    refine ⟨e2, ?_, hr1.trans hr2⟩
    rw [run_wrapFault_ok (by rw [run_bind_ok hfv]; exact hread), hview, hlen,
      ByteArray.extract_zero_size]
  · refine ⟨e1, ?_, hr1⟩
    rw [run_wrapFault_error (run_bind_error hfv), hview]

/-- Reading the newest version of a key into a buffer of `size` bytes returns the length of
what the ring holds for it and as much of it as fits, and `notFound` when it holds nothing. -/
theorem run_readVersion (hc : c.Usable) (hpol : Flash.Polar c.eraseValue) (hst : R.Stored c e)
    (hm : e.store.mounted = true) {key : ByteArray} {k : Vector UInt8 24}
    (hk : Entry.padKey? key = some k) (size : Nat) :
    ∃ e', (readVersion key size 0).run.run e = (match R.view k with
        | some v => .ok (v.size, v.extract 0 (min size v.size))
        | none => .error (.store "read" key none "" (some (.kind .notFound))), e') ∧
      e.Reads e' := by
  obtain ⟨e1, hfv, hr1⟩ := run_findVersion_zero hc hpol hst k
  obtain ⟨r, hvr, hcase⟩ := versionOf_site hc hst.toFit (k := k) rfl e1
  rw [hvr] at hfv
  -- past the key, index and mount checks, the lookup itself runs inside the fault wrapper
  unfold readVersion
  apply run_observed_reads
  simp only [keyField, hk, run_bind, run_pure, run_store, hm, Bool.not_true,
    Bool.false_eq_true, if_false, Int.lt_irrefl, Int.toNat_zero]
  rcases hcase with ⟨s, hs, h0, rfl⟩ | ⟨hview, rfl⟩
  · have hmem := List.mem_of_find?_eq_some hs
    have hlen := Ring.entry_length hc hst.toFit hmem
    have hview : R.view k = some s.record.value := by
      have hrec : R.records.find? (·.key = k) = some s.record := by
        rw [← Ring.find?_sites, hs]
        rfl
      simp [Ring.view, hrec, h0]
    rw [hview]
    by_cases hz : min size s.entry.length.toNat > 0
    · obtain ⟨e2, hread, hr2⟩ := run_read_site hc (hst.reads hr1) hmem
        (n := min size s.entry.length.toNat) (by omega)
      rw [hlen] at hz hread
      refine ⟨e2, ?_, hr1.trans hr2⟩
      rw [run_wrapFault_ok]
      simp only [run_bind_ok hfv, hz, if_true, run_bind_ok hread, run_pure, hlen]
    · refine ⟨e1, ?_, hr1⟩
      rw [run_wrapFault_ok]
      have hz' : min size s.record.value.size = 0 := by omega
      simp only [run_bind_ok hfv, hlen, hz', gt_iff_lt, Nat.lt_irrefl, if_false,
        run_bind, run_pure, ByteArray.extract_zero_zero]
  · refine ⟨e1, ?_, hr1⟩
    rw [run_wrapFault_error (run_bind_error hfv), hview]

end StoreM

end NorStore
