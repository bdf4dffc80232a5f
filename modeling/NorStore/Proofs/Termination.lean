import NorStore.Proofs.Collection

/-!
# Walks end

The lookups of the store walk the table from the entry cursor with a `Walker`, which fails with
a corrupt-table fault once it has taken as many steps as the walk limit, the number of slots of
the whole region and one more. On a part that holds a ring a walk follows the trail of the ring
(`Ring.chain_trail`) and is back at the entry cursor before that:

* the trail visits each slot once: its addresses differ (`Ring.nodup_trail_addrs`), since two
  sites of one sector have different slot indices and the sites of different sectors lie in
  different sectors (`Ring.nodup_ringSites_pos`);
* the trail is no longer than the walk limit (`Ring.length_trail_le_walkLimit`);
* so looking for any version of a key answers the entry that many entries of the key down the
  trail, or `notFound` (`StoreM.run_findVersion`), and never a corrupt-table fault.

`Session.Reachable.walks_end` puts these together for every session a client reaches: the
lookups `findNewest`, `findVersion` and `usage` go through, and every call a client makes ends,
the collections of its rotations included, succeeding or refusing its arguments or for lack of
space.
-/

namespace NorStore

/-- The entry `n` entries of key `k` down the slots `l`, deletions counted, with its address. -/
def nthEntry (k : Vector UInt8 24) : Nat → List (Slot × Address) → Option (Entry × Address)
  | _, [] => none
  | 0, (.valid e, x) :: l => if e.key = k then some (e, x) else nthEntry k 0 l
  | n + 1, (.valid e, _) :: l => if e.key = k then nthEntry k n l else nthEntry k (n + 1) l
  | n, _ :: l => nthEntry k n l

section nthEntry

variable {k : Vector UInt8 24} {n : Nat} {x : Address} {l : List (Slot × Address)}

@[simp] theorem nthEntry_erased : nthEntry k n ((.erased, x) :: l) = nthEntry k n l := by
  cases n <;> rfl

@[simp] theorem nthEntry_invalid {e : Entry} : nthEntry k n ((.invalid e, x) :: l) = nthEntry k n l := by
  cases n <;> rfl

theorem nthEntry_valid_of_ne {e : Entry} (h : e.key ≠ k) :
    nthEntry k n ((.valid e, x) :: l) = nthEntry k n l := by
  cases n <;> simp [nthEntry, h]

theorem nthEntry_valid_zero {e : Entry} (h : e.key = k) :
    nthEntry k 0 ((.valid e, x) :: l) = some (e, x) := by
  simp [nthEntry, h]

theorem nthEntry_valid_succ {e : Entry} (h : e.key = k) :
    nthEntry k (n + 1) ((.valid e, x) :: l) = nthEntry k n l := by
  simp [nthEntry, h]

end nthEntry

namespace Ring

variable {c : Config} {R : Ring}

/-! ## A walk visits each slot once -/

/-- The sites of one sector lie at different slots. -/
theorem nodup_sites_pos (j : Nat) :
    ∀ rs : List Record, ((c.sites j rs).map fun s => (s.sector, s.index)).Nodup
  | [] => List.nodup_nil
  | r :: rs => by
    simp only [Config.sites, List.map_cons, List.nodup_cons]
    refine ⟨fun hmem => ?_, nodup_sites_pos j rs⟩
    -- the newest record sits above every older one
    obtain ⟨s, hs, hpos⟩ := List.mem_map.1 hmem
    have hlt := index_lt_of_mem_sites hs
    simp only [Prod.mk.injEq] at hpos
    omega

/-- The sites of the closed sectors lie at different slots, the sectors being different. -/
theorem nodup_closedSites_pos {a : Nat} (ha : a < c.sectorCount.toNat) :
    ∀ (rss : List (List Record)) (b : Nat), b + rss.length ≤ c.sectorCount.toNat →
      ((closedSites c a b rss).map fun s => (s.sector, s.index)).Nodup
  | [], _, _ => List.nodup_nil
  | rs :: rss, b, hb => by
    simp only [List.length_cons] at hb
    rw [closedSites, List.map_append, List.nodup_append]
    refine ⟨nodup_sites_pos _ rs, nodup_closedSites_pos ha rss (b + 1) (by omega), ?_⟩
    -- a site of an older sector lies further back
    intro x hx y hy heq
    obtain ⟨s, hs, rfl⟩ := List.mem_map.1 hx
    obtain ⟨t, ht, rfl⟩ := List.mem_map.1 hy
    obtain ⟨i, hi, hti⟩ := sector_of_mem_closedSites ht
    have hsec := (split_of_mem_sites hs).1
    have hsame : c.behind a b = c.behind a (b + 1 + i) := by
      rw [← hsec, ← hti]
      exact (Prod.mk.inj heq).1
    have := behind_inj ha (by omega) (by omega) hsame
    omega

/-- The sites of a ring lie at different slots. -/
theorem nodup_ringSites_pos (hR : R.Fit c) :
    ((R.sites c).map fun s => (s.sector, s.index)).Nodup := by
  have ha := hR.active_lt
  have hspan := hR.span
  rw [sites, List.map_append, List.nodup_append]
  refine ⟨nodup_sites_pos _ _, nodup_closedSites_pos ha _ 1 (by omega), ?_⟩
  -- a closed sector is not the active one
  intro x hx y hy heq
  obtain ⟨s, hs, rfl⟩ := List.mem_map.1 hx
  obtain ⟨t, ht, rfl⟩ := List.mem_map.1 hy
  obtain ⟨i, hi, hti⟩ := sector_of_mem_closedSites ht
  have hsame : c.behind R.active 0 = c.behind R.active (1 + i) :=
    calc c.behind R.active 0 = R.active := Config.behind_zero ha
      _ = s.sector := (split_of_mem_sites hs).1.symm
      _ = t.sector := (Prod.mk.inj heq).1
      _ = c.behind R.active (1 + i) := hti
  have := behind_inj ha (by omega) (by omega) hsame
  omega

/-- Two sites of a ring at one address are at one slot of one sector. -/
theorem pos_eq_of_addr_eq (hc : c.Usable) (hR : R.Fit c) {s t : Site} (hs : s ∈ R.sites c)
    (ht : t ∈ R.sites c) (h : s.addr c = t.addr c) : (s.sector, s.index) = (t.sector, t.index) := by
  have hS := hc.sector_le
  have hn := hc.count_le
  have hE : 30 ≤ c.entrySize.toNat := hc.entry_ge
  have hbs := bounds_of_mem_sites hc hR hs
  have hbt := bounds_of_mem_sites hc hR ht
  have hslot_s := hbs.slot
  have hslot_t := hbt.slot
  unfold Site.addr at h
  rw [Address.at_inj (by have := hbs.sector; omega) (by simp only [Config.slot]; omega)
    (by have := hbt.sector; omega) (by simp only [Config.slot]; omega)] at h
  obtain ⟨hsec, hslot⟩ := h
  -- the slots lie whole entries below the sector's end, so equal slots have equal indices
  simp only [Config.slot, Nat.add_mul] at hslot hslot_s hslot_t
  have hmul : s.index * c.entrySize.toNat = t.index * c.entrySize.toNat := by omega
  rw [hsec, Nat.eq_of_mul_eq_mul_right (by omega) hmul]

/-- A walk of the trail visits each slot once: its addresses differ. -/
theorem nodup_trail_addrs (hc : c.Usable) (hR : R.Fit c) : ((R.trail c).map Prod.snd).Nodup := by
  rw [trail, List.map_cons, List.map_map, List.nodup_cons]
  refine ⟨fun hmem => ?_, ?_⟩
  · -- no record lies at the free slot
    obtain ⟨s, hs, heq⟩ := List.mem_map.1 hmem
    exact addr_ne_ate hc hR hs heq
  · have hmap : (R.sites c).map (Prod.snd ∘ Site.visit c) =
        ((R.sites c).map fun s => (s.sector, s.index)).map
          fun p => Address.at p.1 (c.slot p.2) := by
      rw [List.map_map]
      rfl
    rw [hmap]
    refine (nodup_ringSites_pos hR).map_on ?_
    intro p hp q hq heq
    obtain ⟨s, hs, rfl⟩ := List.mem_map.1 hp
    obtain ⟨t, ht, rfl⟩ := List.mem_map.1 hq
    exact pos_eq_of_addr_eq hc hR hs ht heq

/-- A walk of the trail ends within the walk limit. -/
theorem length_trail_le_walkLimit (hc : c.Usable) (hR : R.Fit c) {s : Store} (hs : s.config = c) :
    (R.trail c).length ≤ s.walkLimit := by
  have := length_sites_lt hc hR hs
  rw [trail, List.length_cons, List.length_map]
  omega

/-! ## Looking for any version of a key -/

/-- Looking for the entry `n` entries of a key down a chain of slots, having met `seen` of them,
answers what the rest of the chain holds there. -/
theorem run_findVersion_go (k : Vector UInt8 24) (n : Nat) : ∀ (l : List (Slot × Address))
    (p : Slot × Address) (fuel steps limit seen : Nat) (e : Engine), seen ≤ n → R.Stored c e →
    R.Chain c (p :: l) (R.ate c) → (∀ q ∈ l, q.2 ≠ R.ate c) → l.length < fuel →
    steps + l.length < limit →
    ∃ e', (StoreM.findVersion.go k n fuel ⟨p.2, steps, limit⟩ seen).run.run e =
      (StoreM.versionOf (nthEntry k (n - seen) (p :: l))).run.run e' ∧ e.Reads e' := by
  intro l
  induction l with
  | nil =>
    intro ⟨s, x⟩ fuel steps limit seen e hseen hst hch _ hfuel hlim
    obtain ⟨fuel, rfl⟩ : ∃ f, fuel = f + 1 := ⟨fuel - 1, by simp at hfuel; omega⟩
    have hstep : R.Steps c x s (R.ate c) := hch.1
    obtain ⟨e1, hnext, hr1⟩ := run_next hst hstep steps limit (by simpa using hlim)
    refine ⟨e1, ?_, hr1⟩
    have hdone : (R.ate c == e1.store.ateCursor) = true := by
      rw [(hst.reads hr1).ate]
      exact beq_self_eq_true _
    -- past the last slot the walk is back at the entry cursor and has found nothing
    cases s with
    | valid en =>
      by_cases hk : en.key = k
      · by_cases hn : seen = n
        · rw [hn, Nat.sub_self, nthEntry_valid_zero hk]
          simp only [StoreM.findVersion.go, run_bind, hnext, hk, if_true]
          by_cases hl : en.length = 0 <;>
            simp only [hl, if_true, if_false, StoreM.versionOf, run_bind, run_throw, run_pure]
        · rw [show n - seen = n - (seen + 1) + 1 by omega, nthEntry_valid_succ hk]
          simp only [StoreM.findVersion.go, run_bind, hnext, hk, hn, if_true, if_false, run_done,
            hdone, run_throw, nthEntry, StoreM.versionOf]
      · rw [nthEntry_valid_of_ne hk]
        simp only [StoreM.findVersion.go, run_bind, hnext, hk, if_true, if_false, run_done, hdone,
          run_throw, nthEntry, StoreM.versionOf]
    | erased =>
      simp only [StoreM.findVersion.go, run_bind, hnext, run_done, hdone, if_true, run_throw,
        nthEntry, StoreM.versionOf]
    | invalid en =>
      simp only [StoreM.findVersion.go, run_bind, hnext, run_done, hdone, if_true, run_throw,
        nthEntry, StoreM.versionOf]
  | cons q l ih =>
    intro ⟨s, x⟩ fuel steps limit seen e hseen hst hch hne hfuel hlim
    obtain ⟨fuel, rfl⟩ : ∃ f, fuel = f + 1 := ⟨fuel - 1, by simp at hfuel; omega⟩
    have hstep : R.Steps c x s q.2 := hch.1
    obtain ⟨e1, hnext, hr1⟩ := run_next hst hstep steps limit (by simp at hlim; omega)
    have hdone : (q.2 == e1.store.ateCursor) = false := by
      rw [(hst.reads hr1).ate, beq_eq_false_iff_ne]
      exact hne q (List.mem_cons_self)
    -- the walk goes on from the next slot, with the entries of the key it has met
    have hrest : ∀ seen', seen' ≤ n → ∃ e2,
        (StoreM.findVersion.go k n fuel ⟨q.2, steps + 1, limit⟩ seen').run.run e1 =
          (StoreM.versionOf (nthEntry k (n - seen') (q :: l))).run.run e2 ∧ e.Reads e2 := by
      intro seen' hseen'
      obtain ⟨e2, hgo, hr2⟩ := ih q fuel (steps + 1) limit seen' e1 hseen' (hst.reads hr1) hch.2
        (fun q' hq' => hne q' (List.mem_cons_of_mem _ hq')) (by simp at hfuel; omega)
        (by simp at hlim; omega)
      exact ⟨e2, hgo, hr1.trans hr2⟩
    cases s with
    | valid en =>
      by_cases hk : en.key = k
      · by_cases hn : seen = n
        · refine ⟨e1, ?_, hr1⟩
          rw [hn, Nat.sub_self, nthEntry_valid_zero hk]
          simp only [StoreM.findVersion.go, run_bind, hnext, hk, if_true]
          by_cases hl : en.length = 0 <;>
            simp only [hl, if_true, if_false, StoreM.versionOf, run_bind, run_throw, run_pure]
        · obtain ⟨e2, hgo, hr2⟩ := hrest (seen + 1) (by omega)
          refine ⟨e2, ?_, hr2⟩
          rw [show n - seen = n - (seen + 1) + 1 by omega, nthEntry_valid_succ hk]
          simp only [StoreM.findVersion.go, run_bind, hnext, hk, hn, if_true, if_false, run_done,
            hdone, Bool.false_eq_true]
          exact hgo
      · obtain ⟨e2, hgo, hr2⟩ := hrest seen hseen
        refine ⟨e2, ?_, hr2⟩
        rw [nthEntry_valid_of_ne hk]
        simp only [StoreM.findVersion.go, run_bind, hnext, hk, if_false, run_done, hdone,
          Bool.false_eq_true]
        exact hgo
    | erased =>
      obtain ⟨e2, hgo, hr2⟩ := hrest seen hseen
      refine ⟨e2, ?_, hr2⟩
      simp only [StoreM.findVersion.go, run_bind, hnext, run_done, hdone, nthEntry_erased,
        if_false, Bool.false_eq_true]
      exact hgo
    | invalid en =>
      obtain ⟨e2, hgo, hr2⟩ := hrest seen hseen
      refine ⟨e2, ?_, hr2⟩
      simp only [StoreM.findVersion.go, run_bind, hnext, run_done, hdone, nthEntry_invalid,
        if_false, Bool.false_eq_true]
      exact hgo

end Ring

namespace StoreM

variable {c : Config} {R : Ring} {e : Engine}

/-- Looking for any version of a key on a part that holds a ring answers the entry that many
entries of the key down the trail, or `notFound`, and only reads. -/
theorem run_findVersion (hc : c.Usable) (hpol : Flash.Polar c.eraseValue) (hst : R.Stored c e)
    (k : Vector UInt8 24) (n : Nat) :
    ∃ e', (findVersion k n).run.run e = (versionOf (nthEntry k n (R.trail c))).run.run e' ∧
      e.Reads e' := by
  have hlen := Ring.length_sites_lt hc hst.toFit hst.config (s := e.store)
  obtain ⟨e', hgo, hr⟩ := Ring.run_findVersion_go k n ((R.sites c).map (Site.visit c))
    (.erased, R.ate c) (e.store.walkLimit + 1) 0 e.store.walkLimit 0 e (Nat.zero_le n) hst
    (Ring.chain_trail hc hpol hst.toFit)
    (fun q hq => by
      obtain ⟨s, hs, rfl⟩ := List.mem_map.1 hq
      exact Ring.addr_ne_ate hc hst.toFit hs)
    (by simp; omega) (by simp; omega)
  refine ⟨e', ?_, hr⟩
  simp only [findVersion, run_bind, run_store, Walker.start, Walker.fromAddr, hst.ate]
  exact hgo

end StoreM

/-! ## Every session -/

namespace Session

variable {c : Config} {s : Session}

/-- In every session a client reaches, a walk of the table from the entry cursor meets each slot
once and is back at the cursor within the walk limit, so looking for the newest entry of a key,
for any version of it, and accounting for the space all go through, never with a corrupt-table
fault; and every call a client makes ends, succeeding or refusing its arguments or for lack of
space. -/
theorem Reachable.walks_end (hv : c.validate = .ok ()) (hpol : Flash.Polar c.eraseValue)
    (hs : s.Reachable c) :
    ∃ R : Ring, s.Faithful c R ∧
      (R.trail c).head? = some (.erased, s.engine.store.ateCursor) ∧
      ((R.trail c).map Prod.snd).Nodup ∧ (R.trail c).length ≤ s.engine.store.walkLimit ∧
      (∀ k, ∃ e', (StoreM.findNewest k).run.run s.engine = (.ok (firstEntry k (R.trail c)), e')) ∧
      (∀ k n, ∃ e', (StoreM.findVersion k n).run.run s.engine =
        (StoreM.versionOf (nthEntry k n (R.trail c))).run.run e') ∧
      (∃ u e', StoreM.usage.run.run s.engine = (.ok u, e')) ∧
      ∀ call : Call, Answered (call.run s.engine).1 := by
  have hc := Config.usable_of_validate hv
  obtain ⟨R, h⟩ := hs.faithful hv hpol
  have hR := h.stored.toFit
  refine ⟨R, h, by rw [Ring.trail, List.head?_cons, h.stored.ate], Ring.nodup_trail_addrs hc hR,
    Ring.length_trail_le_walkLimit hc hR h.stored.config, fun k => ?_, fun k n => ?_, ?_,
    fun call => (h.call hv hpol call).1⟩
  · obtain ⟨e', hrun, -⟩ := StoreM.run_findNewest hc hpol h.stored k
    exact ⟨e', by rw [hrun, Ring.firstEntry_trail]⟩
  · obtain ⟨e', hrun, -⟩ := StoreM.run_findVersion hc hpol h.stored k n
    exact ⟨e', hrun⟩
  · obtain ⟨e', hrun, -⟩ := StoreM.run_usage hc hpol h.stored
    exact ⟨_, e', hrun⟩

/-- After the calls every lookup walks to its end: the newest entry of any key is found or not,
the usage walk goes through, and any next call succeeds or refuses its arguments or finds no
space. -/
theorem walks_end_rotated :
    sampleConfig.validate = .ok () ∧ Flash.Polar sampleConfig.eraseValue ∧
      rotated.Reachable sampleConfig ∧
      ∃ R : Ring, rotated.Faithful sampleConfig R ∧
        (∀ k, ∃ e', (StoreM.findNewest k).run.run rotated.engine =
          (.ok (firstEntry k (R.trail sampleConfig)), e')) ∧
        (∃ u e', StoreM.usage.run.run rotated.engine = (.ok u, e')) ∧
        ∀ call : Call, Answered (call.run rotated.engine).1 := by
  obtain ⟨R, hR, -, -, -, hfind, -, hu, hcall⟩ :=
    Reachable.walks_end (c := sampleConfig) rfl (.inr rfl) reachable_rotated
  exact ⟨rfl, .inr rfl, reachable_rotated, R, hR, hfind, hu, hcall⟩

end Session

end NorStore
