import NorStore.Proofs.Search

/-!
# Rotating the ring

When the active sector has no room left the store *rotates*: `closeSector` writes the close
entry of the active sector and moves both cursors to the ends of the next sector, and `collect`
then clears the sector after that, so that a blank sector again follows the active one. If that
sector is the oldest of the ring, its records that still hold the newest value of their key are
copied into the new active sector first (`relocate`), newest first; everything else in it is
superseded or a deletion.

`Ring.rotate` is the ring a rotation leaves, and `Ring.keep` the records a collection copies.

* A rotation keeps what the ring holds for every key (`view_rotate`): a copied record is the
  newest of its key, and a record left behind is either older than a record that stays, or a
  deletion of a key the ring holds nothing else for.
* It keeps the shape of the ring (`Fit.rotate`): the copies are a sublist of a sector that fit,
  so they fit too (`Fits.sublist`).
* `run_closeSector` and `run_collect` say that the two steps do exactly this on a part that
  holds the ring. The copying loop is proved one record at a time (`run_relocate`) along the
  oldest sector (`run_collect_go`): `Ring.copying` is the ring after the first records of that
  sector were visited, and `find?_copying` decides whether `findNewest` names the visited slot.
-/

namespace NorStore

namespace Config

variable {c : Config}

theorem dataEnd_append (l1 l2 : List Record) :
    c.dataEnd (l1 ++ l2) = c.dataEnd l1 + c.dataEnd l2 := by
  induction l1 with
  | nil => simp
  | cons r rs ih =>
    rw [List.cons_append, dataEnd_cons, dataEnd_cons, ih]
    omega

@[simp] theorem dataEnd_reverse (rs : List Record) : c.dataEnd rs.reverse = c.dataEnd rs := by
  induction rs with
  | nil => rfl
  | cons r rs ih =>
    rw [List.reverse_cons, dataEnd_append, ih, dataEnd_cons, dataEnd_cons, dataEnd_nil]
    omega

theorem dataEnd_sublist {rs rs' : List Record} (h : rs.Sublist rs') :
    c.dataEnd rs ≤ c.dataEnd rs' := by
  induction h with
  | slnil => exact Nat.le_refl _
  | cons r _ ih =>
    rw [dataEnd_cons]
    omega
  | cons_cons r _ ih =>
    rw [dataEnd_cons, dataEnd_cons]
    omega

/-- Fewer records fit where more did. -/
theorem Fits.sublist {rs rs' : List Record} (h : c.Fits rs') (hs : rs.Sublist rs') :
    c.Fits rs := by
  unfold Fits at *
  have hd := dataEnd_sublist (c := c) hs
  have : (rs.length + 2) * c.entrySize.toNat ≤ (rs'.length + 2) * c.entrySize.toNat :=
    Nat.mul_le_mul_right _ (by have := hs.length_le; omega)
  omega

theorem fits_nil (hc : c.Usable) : c.Fits [] := by
  have := hc.four_entries
  unfold Fits
  simp only [dataEnd_nil, List.length_nil]
  omega

/-- Every value starts on a write block. -/
theorem block_dvd_dataEnd (rs : List Record) : c.writeBlock.toNat ∣ c.dataEnd rs := by
  induction rs with
  | nil => exact Nat.dvd_zero _
  | cons r rs ih =>
    rw [dataEnd_cons]
    exact Nat.dvd_add ih (Nat.blockCeil_dvd _ _)

/-- Every table slot starts on a write block. -/
theorem block_dvd_slot (hc : c.Usable) (i : Nat) : c.writeBlock.toNat ∣ c.slot i :=
  Nat.dvd_sub hc.block_dvd (Nat.dvd_mul_left_of_dvd (block_dvd_entrySize hc.block) _)

/-- One slot lower is one entry further down. -/
theorem slot_succ (i : Nat) : c.slot (i + 1) = c.slot i - c.entrySize.toNat := by
  have : (i + 1 + 2) * c.entrySize.toNat = (i + 2) * c.entrySize.toNat + c.entrySize.toNat := by
    rw [← Nat.succ_mul]
  unfold slot
  omega

/-- Below the close slot, a closed sector reads as it did open. -/
theorem slotIn_closedLayout {rs : List Record} {o : Nat}
    (ho : o + c.entrySize.toNat ≤ c.closeOffset) :
    c.slotIn (c.closedLayout rs) o = c.slotIn (c.layout rs) o := by
  unfold slotIn
  rw [slice_closedLayout ho]

@[simp] theorem fits_reverse {rs : List Record} : c.Fits rs.reverse ↔ c.Fits rs := by
  simp [Fits]

end Config

namespace Ring

/-- The records a collection copies out of a sector holding `G`, newest first: those holding a
value whose key was not seen newer, in `seen` (the rest of the ring) or earlier in `G`. -/
def keep : List (Vector UInt8 24) → List Record → List Record
  | _, [] => []
  | seen, g :: gs =>
    if g.value.size ≠ 0 ∧ g.key ∉ seen then g :: keep (seen ++ [g.key]) gs
    else keep (seen ++ [g.key]) gs

variable {seen : List (Vector UInt8 24)}

theorem keep_append (seen : List (Vector UInt8 24)) (l1 l2 : List Record) :
    keep seen (l1 ++ l2) = keep seen l1 ++ keep (seen ++ l1.map (·.key)) l2 := by
  induction l1 generalizing seen with
  | nil => simp [keep]
  | cons g gs ih =>
    simp only [List.cons_append, keep, List.map_cons]
    rw [ih, List.append_assoc]
    split <;> simp

theorem keep_singleton (g : Record) :
    keep seen [g] = if g.value.size ≠ 0 ∧ g.key ∉ seen then [g] else [] := by
  simp only [keep]

theorem keep_sublist : ∀ (seen : List (Vector UInt8 24)) (G : List Record), (keep seen G).Sublist G
  | _, [] => List.Sublist.slnil
  | seen, g :: gs => by
    simp only [keep]
    split
    · exact (keep_sublist _ gs).cons_cons g
    · exact (keep_sublist _ gs).cons g

/-- A copied record holds a value, and no newer record of its key was seen. -/
theorem mem_keep : ∀ {seen : List (Vector UInt8 24)} {G : List Record} {r : Record},
    r ∈ keep seen G → r.value.size ≠ 0 ∧ r.key ∉ seen
  | _, [], _, h => by simp [keep] at h
  | seen, g :: gs, r, h => by
    simp only [keep] at h
    split at h
    next hg =>
      rcases List.mem_cons.1 h with rfl | h
      · exact hg
      · obtain ⟨hv, hk⟩ := mem_keep h
        exact ⟨hv, fun hm => hk (List.mem_append_left _ hm)⟩
    next =>
      obtain ⟨hv, hk⟩ := mem_keep h
      exact ⟨hv, fun hm => hk (List.mem_append_left _ hm)⟩

/-- No two copies share a key. -/
theorem keep_pairwise : ∀ (seen : List (Vector UInt8 24)) (G : List Record),
    (keep seen G).Pairwise (fun x y => x.key ≠ y.key)
  | _, [] => List.Pairwise.nil
  | seen, g :: gs => by
    simp only [keep]
    split
    · refine List.Pairwise.cons (fun r hr heq => ?_) (keep_pairwise _ gs)
      exact (mem_keep hr).2 (List.mem_append_right _ (List.mem_singleton.2 heq.symm))
    · exact keep_pairwise _ gs

theorem find?_keep_of_mem {k : Vector UInt8 24} (hk : k ∈ seen) (G : List Record) :
    (keep seen G).find? (·.key = k) = none := by
  rw [List.find?_eq_none]
  intro r hr heq
  rw [decide_eq_true_eq] at heq
  exact (mem_keep hr).2 (heq ▸ hk)

/-- The copy of an unseen key is its newest record in `G`, if that holds a value. -/
theorem find?_keep : ∀ {seen : List (Vector UInt8 24)} {k : Vector UInt8 24}, k ∉ seen →
    ∀ G : List Record,
      (keep seen G).find? (·.key = k) = (G.find? (·.key = k)).filter (·.value.size ≠ 0)
  | _, _, _, [] => rfl
  | seen, k, hk, g :: gs => by
    by_cases hg : g.key = k
    · -- the newest record of the key is `g`: copied if it holds a value
      subst hg
      have hfind : (g :: gs).find? (·.key = g.key) = some g := by simp
      rw [hfind]
      simp only [keep, hk, not_false_eq_true, and_true]
      by_cases hv : g.value.size = 0
      · rw [if_neg (by simpa using hv), find?_keep_of_mem (by simp), Option.filter_some,
          if_neg (by simp only [hv]; decide)]
      · rw [if_pos hv, List.find?_cons_of_pos (by simp), Option.filter_some,
          if_pos (by simp only [ne_eq, hv, not_false_eq_true, decide_true])]
    · have hk' : k ∉ seen ++ [g.key] := by simp [hk, Ne.symm hg]
      have hfind : (g :: gs).find? (·.key = k) = gs.find? (·.key = k) := by simp [hg]
      rw [hfind, ← find?_keep hk' gs]
      simp only [keep]
      split
      · simp [hg]
      · rfl

/-- Among records of distinct keys, the newest of a key is the oldest of it. -/
theorem find?_reverse {rs : List Record} (h : rs.Pairwise (fun x y => x.key ≠ y.key))
    (k : Vector UInt8 24) : rs.reverse.find? (·.key = k) = rs.find? (·.key = k) := by
  induction rs with
  | nil => rfl
  | cons r rs ih =>
    rw [List.pairwise_cons] at h
    rw [List.reverse_cons, List.find?_append, ih h.2]
    by_cases hr : r.key = k
    · have hnone : rs.find? (·.key = k) = none := by
        rw [List.find?_eq_none]
        intro x hx heq
        rw [decide_eq_true_eq] at heq
        exact h.1 x hx (by rw [hr, heq])
      simp [hnone, hr]
    · simp [hr]

/-! ## Rotations -/

/-- The ring once its active sector is closed: the next sector is active and empty. -/
def close (c : Config) (R : Ring) : Ring :=
  { active := (R.active + 1) % c.sectorCount.toNat, current := [], closed := R.current :: R.closed }

/-- The records of every sector of the ring but the oldest, newest first. -/
def newer (R : Ring) : List (List Record) :=
  (R.current :: R.closed).dropLast

/-- The records of the oldest sector: the last closed one, or the active one if none is. -/
def oldest (R : Ring) : List Record :=
  R.closed.getLastD R.current

/-- The keys of the records in every sector but the oldest. -/
def newerKeys (R : Ring) : List (Vector UInt8 24) :=
  R.newer.flatten.map (·.key)

/-- The ring after a rotation: the active sector is closed and the next one becomes active, then
the sector after that is collected. When that sector is the oldest of the ring, its records that
still hold the newest value of their key move into the new active sector and it leaves the ring;
otherwise it is blank already. -/
def rotate (c : Config) (R : Ring) : Ring :=
  if R.closed.length + 2 = c.sectorCount.toNat then
    { active := (R.active + 1) % c.sectorCount.toNat
      current := (keep R.newerKeys R.oldest).reverse
      closed := R.newer }
  else R.close c

/-- The ring while a collection copies out of the oldest sector, once it has visited the records
`pre` of it: the closed sectors of `R.close c`, and the copies made so far in the new active
sector. -/
def copying (c : Config) (R : Ring) (pre : List Record) : Ring :=
  { R.close c with current := (keep R.newerKeys pre).reverse }

variable {c : Config} {R : Ring}

/-- The sectors of a ring are the newer ones and the oldest. -/
theorem sectors_split (R : Ring) : R.current :: R.closed = R.newer ++ [R.oldest] := by
  rw [newer, oldest, ← List.getLast_eq_getLastD (List.cons_ne_nil _ _),
    List.dropLast_concat_getLast]

theorem records_split (R : Ring) : R.records = R.newer.flatten ++ R.oldest := by
  rw [records, ← List.flatten_cons, sectors_split R, List.flatten_append]
  simp

theorem oldest_mem (R : Ring) : R.oldest ∈ R.current :: R.closed := by
  rw [sectors_split R]
  simp

theorem mem_of_mem_newer {R : Ring} {rs : List Record} (h : rs ∈ R.newer) :
    rs ∈ R.current :: R.closed :=
  List.dropLast_subset _ h

theorem records_close : (R.close c).records = R.records := by
  simp [close, records]

/-- What the ring holds for a key, read off its newest record. -/
theorem view_eq (R : Ring) (k : Vector UInt8 24) :
    R.view k = (R.records.find? (·.key = k)).bind
      fun r => if r.value.size = 0 then none else some r.value := by
  unfold view
  cases R.records.find? (·.key = k) <;> rfl

/-- A rotation keeps what the ring holds for every key. -/
theorem view_rotate (R : Ring) (k : Vector UInt8 24) : (R.rotate c).view k = R.view k := by
  unfold rotate
  split
  · -- the oldest sector was collected: its survivors now come before the newer sectors
    rw [view_eq, view_eq, records_split R]
    simp only [records, List.find?_append]
    rw [find?_reverse (keep_pairwise _ _)]
    by_cases hk : k ∈ R.newerKeys
    · -- a newer record of the key decides both
      rw [find?_keep_of_mem hk]
      obtain ⟨r, hr, rfl⟩ := List.mem_map.1 hk
      obtain ⟨x, hx⟩ := Option.isSome_iff_exists.1
        (List.find?_isSome.2 ⟨r, hr, by simp⟩ : (R.newer.flatten.find? (·.key = r.key)).isSome)
      simp [hx]
    · -- otherwise the newest record of the key lies in `G`, and is copied if it holds a value
      have hnone : R.newer.flatten.find? (·.key = k) = none := by
        rw [List.find?_eq_none]
        intro r hr heq
        rw [decide_eq_true_eq] at heq
        exact hk (List.mem_map.2 ⟨r, hr, heq⟩)
      rw [find?_keep hk, hnone]
      cases hG : R.oldest.find? (·.key = k) with
      | none => rfl
      | some g =>
        by_cases hv : g.value = ByteArray.empty <;> simp [Option.filter_some, hv]
  · rw [view_eq, view_eq, records_close]

section Shape

variable (hc : c.Usable) (h : R.Fit c) (hne : R.current ≠ [])
include h hne

/-- Every sector of a ring whose active sector holds records fits and is not empty. -/
theorem Fit.sectors : ∀ rs ∈ R.current :: R.closed, c.Fits rs ∧ rs ≠ [] := by
  intro rs hrs
  rcases List.mem_cons.1 hrs with rfl | hrs
  · exact ⟨h.current, hne⟩
  · exact h.closed rs hrs

include hc

/-- Closing a sector that holds records keeps the shape of the ring. -/
theorem Fit.close (hset : R.closed.length + 2 ≤ c.sectorCount.toNat) : (R.close c).Fit c where
  active_lt := Nat.mod_lt _ (by have := hc.count_ge; omega)
  span := by simp only [Ring.close, List.length_cons]; omega
  current := Config.fits_nil hc
  closed := h.sectors hne
  keys r hr := h.keys r (by rwa [records_close] at hr)

/-- While a collection copies out of the oldest sector, the ring keeps its shape. -/
theorem Fit.copying (hfull : R.closed.length + 2 = c.sectorCount.toNat) {pre rest : List Record}
    (hG : R.oldest = pre ++ rest) : (R.copying c pre).Fit c := by
  have hclose := Fit.close hc h hne (by omega)
  have hsub : (keep R.newerKeys pre).Sublist R.oldest :=
    (keep_sublist _ _).trans (hG ▸ List.sublist_append_left pre rest)
  exact {
    active_lt := hclose.active_lt
    span := hclose.span
    current := Config.fits_reverse.2 ((h.sectors hne _ (oldest_mem R)).1.sublist hsub)
    closed := hclose.closed
    keys := by
      intro r hr
      rcases List.mem_append.1 hr with hr | hr
      · have hk : r ∈ keep R.newerKeys pre := List.mem_reverse.1 hr
        exact h.keys r (by rw [records_split]; exact List.mem_append_right _ (hsub.subset hk))
      · exact hclose.keys r (List.mem_append_right _ hr) }

/-- A rotation keeps the shape of the ring. -/
theorem Fit.rotate (hset : R.closed.length + 2 ≤ c.sectorCount.toNat) : (R.rotate c).Fit c := by
  unfold Ring.rotate
  split
  next hfull =>
    have hsub : (keep R.newerKeys R.oldest).Sublist R.oldest := keep_sublist _ _
    exact {
      active_lt := Nat.mod_lt _ (by have := hc.count_ge; omega)
      span := by simp only [newer, List.length_dropLast, List.length_cons]; omega
      current := Config.fits_reverse.2 ((h.sectors hne _ (oldest_mem R)).1.sublist hsub)
      closed := fun rs hrs => h.sectors hne rs (mem_of_mem_newer hrs)
      keys := by
        intro r hr
        apply h.keys
        rw [records_split]
        simp only [records, List.mem_append, List.mem_reverse] at hr
        rcases hr with hr | hr
        · exact List.mem_append_right _ (hsub.subset hr)
        · exact List.mem_append_left _ hr }
  next => exact Fit.close hc h hne hset

end Shape

/-! ## The image of a ring as it rotates -/

/-- Closing the active sector writes its close entry; every other sector moves one further
back, and the next sector, blank before, becomes the active one. -/
theorem image_close (h : R.Fit c) (hset : R.closed.length + 2 ≤ c.sectorCount.toNat) {j : Nat}
    (hj : j < c.sectorCount.toNat) :
    (R.close c).image c j = Function.update (R.image c) R.active (c.closedLayout R.current) j := by
  have ha := h.active_lt
  have hn : 2 ≤ c.sectorCount.toNat := by omega
  unfold image
  rw [show (R.close c).active = (R.active + 1) % c.sectorCount.toNat from rfl,
    Config.distance_next ha hj]
  by_cases hja : j = R.active
  · subst hja
    rw [Function.update_self, Config.distance_self, Nat.zero_add, Nat.mod_eq_of_lt (by omega)]
    rfl
  · rw [Function.update_of_ne hja]
    have hd := Config.distance_lt (j := j) ha
    have hd0 : c.distance R.active j ≠ 0 := fun h0 => hja ((Config.distance_eq_zero ha hj).1 h0)
    obtain ⟨b, hb⟩ : ∃ b, c.distance R.active j = b + 1 := ⟨_, (Nat.succ_pred_eq_of_ne_zero hd0).symm⟩
    rw [hb]
    by_cases hlast : b + 2 = c.sectorCount.toNat
    · -- the sector after the active one: blank in both rings
      rw [hlast, Nat.mod_self]
      simp only [sectorAt, close, List.getElem?_eq_none (by omega : R.closed.length ≤ b)]
      rfl
    · rw [Nat.mod_eq_of_lt (by omega)]
      rfl

/-- Changing the records of the active sector changes that sector alone. -/
theorem image_current (ha : R.active < c.sectorCount.toNat) (cs : List Record) {j : Nat}
    (hj : j < c.sectorCount.toNat) :
    ({ R with current := cs } : Ring).image c j =
      Function.update (R.image c) R.active (c.layout cs) j := by
  unfold image
  by_cases hja : j = R.active
  · subst hja
    rw [Function.update_self, Config.distance_self]
    rfl
  · rw [Function.update_of_ne hja]
    have hd0 : c.distance R.active j ≠ 0 := fun h0 => hja ((Config.distance_eq_zero ha hj).1 h0)
    obtain ⟨b, hb⟩ : ∃ b, c.distance R.active j = b + 1 := ⟨_, (Nat.succ_pred_eq_of_ne_zero hd0).symm⟩
    simp only [hb]
    rfl

/-- Dropping the oldest closed sector leaves it blank. -/
theorem image_dropLast (h : R.Fit c) (hne : R.closed ≠ []) {j : Nat}
    (hj : j < c.sectorCount.toNat) :
    ({ R with closed := R.closed.dropLast } : Ring).image c j =
      Function.update (R.image c) (c.behind R.active R.closed.length) (fun _ => c.eraseValue) j := by
  have ha := h.active_lt
  have hspan := h.span
  have hL : 0 < R.closed.length := List.length_pos_iff.2 hne
  unfold image
  by_cases hjb : j = c.behind R.active R.closed.length
  · subst hjb
    rw [Function.update_self, Config.distance_behind ha hspan]
    obtain ⟨b, hb⟩ : ∃ b, R.closed.length = b + 1 := ⟨_, (Nat.succ_pred_eq_of_pos hL).symm⟩
    rw [hb]
    simp only [sectorAt, List.getElem?_eq_none (by simp [hb] : R.closed.dropLast.length ≤ b)]
  · rw [Function.update_of_ne hjb]
    have hne : c.distance R.active j ≠ R.closed.length := fun heq =>
      hjb (by rw [← heq, Config.behind_distance ha hj])
    cases hd : c.distance R.active j with
    | zero => rfl
    | succ b =>
      rw [hd] at hne
      simp only [sectorAt]
      rw [List.getElem?_dropLast]
      by_cases hb : b < R.closed.length - 1
      · rw [if_pos hb]
      · rw [if_neg hb, List.getElem?_eq_none (by omega)]

theorem copying_nil : R.copying c [] = R.close c := rfl

/-- Visiting a record that the collection keeps puts it on top of the copies made so far. -/
theorem copying_append_kept {pre : List Record} {g : Record} (hv : g.value.size ≠ 0)
    (hk : g.key ∉ R.newerKeys ++ pre.map (·.key)) :
    R.copying c (pre ++ [g]) = { R.copying c pre with current := g :: (R.copying c pre).current } := by
  simp only [copying, keep_append, keep_singleton, if_pos (And.intro hv hk), List.reverse_append,
    List.reverse_singleton, List.singleton_append]

/-- A rotation that collects the oldest sector leaves the ring the copying loop reaches, with the
oldest sector gone. -/
theorem rotate_of_full (hfull : R.closed.length + 2 = c.sectorCount.toNat) :
    R.rotate c = { R.copying c R.oldest with closed := (R.copying c R.oldest).closed.dropLast } := by
  rw [rotate, if_pos hfull]
  rfl

theorem rotate_of_not_full (hfull : ¬ R.closed.length + 2 = c.sectorCount.toNat) :
    R.rotate c = R.close c := by
  rw [rotate, if_neg hfull]

/-! ## Where a collection finds the newest records -/

/-- The sector a rotation collects: the one after the new active sector. -/
def collected (c : Config) (R : Ring) : Nat :=
  ((R.close c).active + 1) % c.sectorCount.toNat

/-- The sites of a sector holding `pre ++ rs`: those of the newer records `pre`, in slots above
those of `rs`, then those of `rs`. -/
theorem sites_append (c : Config) (j : Nat) : ∀ (pre rs : List Record), ∃ P : List Site,
    c.sites j (pre ++ rs) = P ++ c.sites j rs ∧ P.map Site.record = pre ∧
      ∀ x ∈ P, x.sector = j ∧ rs.length ≤ x.index ∧ x.index < (pre ++ rs).length
  | [], rs => ⟨[], rfl, rfl, by simp⟩
  | p :: pre, rs => by
    obtain ⟨P, hP, hmap, hmem⟩ := sites_append c j pre rs
    refine ⟨⟨p, j, (pre ++ rs).length, c.dataEnd (pre ++ rs)⟩ :: P, ?_, by simp [hmap], ?_⟩
    · rw [List.cons_append, Config.sites, hP]
      rfl
    · intro x hx
      rcases List.mem_cons.1 hx with rfl | hx
      · simp
      · obtain ⟨h1, h2, h3⟩ := hmem x hx
        refine ⟨h1, h2, ?_⟩
        simp only [List.cons_append, List.length_cons]
        omega

theorem closedSites_append (c : Config) (a : Nat) : ∀ (b : Nat) (l1 l2 : List (List Record)),
    closedSites c a b (l1 ++ l2) = closedSites c a b l1 ++ closedSites c a (b + l1.length) l2
  | b, [], l2 => by simp [closedSites]
  | b, rs :: l1, l2 => by
    rw [List.cons_append, closedSites, closedSites, closedSites_append c a (b + 1) l1 l2,
      List.append_assoc, List.length_cons, Nat.add_assoc, Nat.add_comm 1]

@[simp] theorem length_newer (R : Ring) : R.newer.length = R.closed.length := by
  simp [newer]

section Collected

variable (hc : c.Usable)
include hc

theorem collected_lt : R.collected c < c.sectorCount.toNat :=
  Nat.mod_lt _ (by have := hc.count_ge; omega)

theorem collected_ne : R.collected c ≠ (R.close c).active := by
  have hn := hc.count_ge
  have ha : (R.close c).active < c.sectorCount.toNat := Nat.mod_lt _ (by omega)
  unfold collected
  by_cases hlast : (R.close c).active + 1 = c.sectorCount.toNat
  · rw [hlast, Nat.mod_self]
    omega
  · rw [Nat.mod_eq_of_lt (by omega)]
    omega

/-- The collected sector lies all the way back from the new active sector. -/
theorem behind_last_collected :
    c.behind (R.close c).active (c.sectorCount.toNat - 1) = R.collected c := by
  have hn := hc.count_ge
  rw [Config.behind, collected]
  congr 1
  omega

/-- The sector before the collected one is the new active sector. -/
theorem before_collected :
    (R.collected c + c.sectorCount.toNat - 1) % c.sectorCount.toNat = (R.close c).active := by
  have hn := hc.count_ge
  have ha : (R.close c).active < c.sectorCount.toNat := Nat.mod_lt _ (by omega)
  unfold collected
  by_cases hlast : (R.close c).active + 1 = c.sectorCount.toNat
  · rw [hlast, Nat.mod_self, Nat.zero_add, Nat.mod_eq_of_lt (by omega)]
    omega
  · have hmod : ((R.close c).active + 1) % c.sectorCount.toNat = (R.close c).active + 1 :=
      Nat.mod_eq_of_lt (by omega)
    rw [hmod, show (R.close c).active + 1 + c.sectorCount.toNat - 1 =
      (R.close c).active + c.sectorCount.toNat by omega, Nat.add_mod_right, Nat.mod_eq_of_lt ha]

variable (hfull : R.closed.length + 2 = c.sectorCount.toNat)
include hfull

/-- The collected sector lies behind the new active sector as far back as a ring with
nothing blank would reach. -/
theorem behind_collected :
    c.behind (R.close c).active (R.newer.length + 1) = R.collected c := by
  rw [length_newer, show R.closed.length + 1 = c.sectorCount.toNat - 1 by omega]
  exact behind_last_collected hc

/-- While a collection copies, the collected sector still holds the oldest records, closed. -/
theorem image_copying_collected (pre : List Record) :
    (R.copying c pre).image c (R.collected c) = c.closedLayout R.oldest := by
  have hn := hc.count_ge
  have ha : (R.close c).active < c.sectorCount.toNat := Nat.mod_lt _ (by omega)
  rw [← behind_collected hc hfull, image, show (R.copying c pre).active = (R.close c).active from rfl,
    Config.distance_behind ha (by rw [length_newer]; omega), sectorAt,
    show (R.copying c pre).closed = R.newer ++ [R.oldest] from sectors_split R,
    List.getElem?_append_right (Nat.le_refl _), Nat.sub_self]
  rfl

variable (h : R.Fit c) (hne : R.current ≠ [])
include h hne

variable {pre post : List Record} {g : Record} (hG : R.oldest = pre ++ g :: post)
include hG

/-- Visiting record `g` of the oldest sector, the sites of the copying ring are the newer ones,
then the site of `g`, then the older ones of its sector; no newer site is in the slot of `g`. -/
theorem sites_copying : ∃ B : List Site,
    (R.copying c pre).sites c = B ++ ⟨g, R.collected c, post.length, c.dataEnd post⟩ ::
      c.sites (R.collected c) post ∧
    B.map Site.record = (keep R.newerKeys pre).reverse ++ R.newer.flatten ++ pre ∧
    ∀ x ∈ B, x.addr c ≠ Address.at (R.collected c) (c.slot post.length) := by
  have hS := hc.sector_le
  have hn := hc.count_le
  have hE : 30 ≤ c.entrySize.toNat := hc.entry_ge
  have ha : (R.close c).active < c.sectorCount.toNat := Nat.mod_lt _ (by have := hc.count_ge; omega)
  have hcol := collected_lt hc (R := R)
  set A := c.sites (R.close c).active (keep R.newerKeys pre).reverse ++
    closedSites c (R.close c).active 1 R.newer
  obtain ⟨P, hP, hPmap, hPmem⟩ := sites_append c (R.collected c) pre (g :: post)
  refine ⟨A ++ P, ?_, ?_, ?_⟩
  · rw [sites, show (R.copying c pre).active = (R.close c).active from rfl,
      show (R.copying c pre).closed = R.newer ++ [R.oldest] from sectors_split R,
      closedSites_append, closedSites, closedSites, Nat.add_comm 1, behind_collected hc hfull, hG,
      hP]
    simp [A, Config.sites, copying]
  · simp [A, map_record_sites, map_record_closedSites, hPmap]
  -- two slots of the region are one only in one sector, at one offset
  have hslot : ∀ x : Site, x.sector < c.sectorCount.toNat →
      x.addr c = Address.at (R.collected c) (c.slot post.length) →
        x.sector = R.collected c ∧ c.slot x.index = c.slot post.length := fun x hx heq =>
    (Address.at_inj (by omega) (by simp only [Config.slot]; omega) (by omega)
      (by simp only [Config.slot]; omega)).1 heq
  intro x hx heq
  rcases List.mem_append.1 hx with hx | hx
  · rcases List.mem_append.1 hx with hx | hx
    · -- a copy lies in the new active sector
      obtain ⟨hsec, -⟩ := split_of_mem_sites hx
      exact collected_ne hc (hsec ▸ (hslot x (by omega) heq).1).symm
    · -- a record of a newer sector lies nearer the active sector
      obtain ⟨t, rs, ht, hx'⟩ := mem_closedSites hx
      obtain ⟨hsec, -⟩ := split_of_mem_sites hx'
      have htlen := (List.getElem?_eq_some_iff.1 ht).1
      rw [length_newer] at htlen
      have hb := Config.behind_lt (b := 1 + t) ha
      have hsame := (hslot x (by omega) heq).1
      rw [hsec, ← behind_collected hc hfull] at hsame
      have := congrArg (c.distance (R.close c).active) hsame
      rw [Config.distance_behind ha (by omega),
        Config.distance_behind ha (by rw [length_newer]; omega), length_newer] at this
      omega
  · -- a newer record of the oldest sector lies in a higher slot
    obtain ⟨hsec, hlo, hhi⟩ := hPmem x hx
    have hlen : R.oldest.length = (pre ++ g :: post).length := by rw [hG]
    simp only [List.length_append, List.length_cons] at hlo hhi hlen
    have hxG := (h.sectors hne _ (oldest_mem R)).1.mul_le (k := x.index + 2) (by omega)
    have hlt := Config.slot_add_le (c := c) (by omega : post.length < x.index) hxG
    have := (hslot x (by omega) heq).2
    omega

theorem site_mem_copying :
    ⟨g, R.collected c, post.length, c.dataEnd post⟩ ∈ (R.copying c pre).sites c := by
  obtain ⟨B, hB, -, -⟩ := sites_copying hc hfull h hne hG
  rw [hB]
  simp

/-- Visiting record `g` of the oldest sector, `findNewest` names a site of its key, and names
the slot of `g` exactly when no newer record of the key is in the ring: none in the newer sectors
and none before `g` in the oldest one (the copies made so far are among those). -/
theorem find?_copying :
    ∃ s, ((R.copying c pre).sites c).find? (·.record.key = g.key) = some s ∧
      (s.addr c = Address.at (R.collected c) (c.slot post.length) ↔
        g.key ∉ R.newerKeys ∧ g.key ∉ pre.map (·.key)) := by
  obtain ⟨B, hB, hBmap, hBaddr⟩ := sites_copying hc hfull h hne hG
  rw [hB, List.find?_append]
  cases hx : B.find? (·.record.key = g.key) with
  | none =>
    -- no newer record of the key: `findNewest` stops at `g`
    refine ⟨⟨g, R.collected c, post.length, c.dataEnd post⟩, by simp, iff_of_true rfl ?_⟩
    rw [List.find?_eq_none] at hx
    have hnot : ∀ r ∈ (keep R.newerKeys pre).reverse ++ R.newer.flatten ++ pre, r.key ≠ g.key := by
      intro r hr heq
      rw [← hBmap] at hr
      obtain ⟨x, hxm, rfl⟩ := List.mem_map.1 hr
      exact hx x hxm (by simpa using heq)
    refine ⟨fun hk => ?_, fun hk => ?_⟩
    · obtain ⟨r, hr, heq⟩ := List.mem_map.1 hk
      exact hnot r (by simp [hr]) heq
    · obtain ⟨r, hr, heq⟩ := List.mem_map.1 hk
      exact hnot r (by simp [hr]) heq
  | some x =>
    -- a newer site of the key comes first: it is not the slot of `g`
    have hxm := List.mem_of_find?_eq_some hx
    have hxk : x.record.key = g.key := by simpa using List.find?_some hx
    refine ⟨x, rfl, iff_of_false (hBaddr x hxm) ?_⟩
    rintro ⟨hk1, hk2⟩
    have hrec : x.record ∈ (keep R.newerKeys pre).reverse ++ R.newer.flatten ++ pre := by
      rw [← hBmap]
      exact List.mem_map_of_mem hxm
    simp only [List.mem_append] at hrec
    rcases hrec with (hr | hr) | hr
    · exact hk2 (List.mem_map.2 ⟨x.record, (keep_sublist _ _).subset (List.mem_reverse.1 hr), hxk⟩)
    · exact hk1 (List.mem_map.2 ⟨x.record, hr, hxk⟩)
    · exact hk2 (List.mem_map.2 ⟨x.record, hr, hxk⟩)

/-- Visiting record `g` of the oldest sector, its slot reads as its entry. -/
theorem slotIn_collected (hpol : Flash.Polar c.eraseValue) :
    c.slotIn ((R.copying c pre).image c (R.collected c)) (c.slot post.length) =
      .valid (g.entry (c.dataEnd post)) := by
  have hfit := (h.sectors hne _ (oldest_mem R)).1
  rw [hG] at hfit
  have hE : 30 ≤ c.entrySize.toNat := hc.entry_ge
  have htwo : 2 * c.entrySize.toNat ≤ (post.length + 2) * c.entrySize.toNat :=
    Nat.mul_le_mul_right _ (by omega)
  have hle := hfit.of_append.mul_le (k := post.length + 2) (by simp)
  rw [image_copying_collected hc hfull, Config.slotIn_closedLayout
    (by simp only [Config.slot, Config.closeOffset]; omega), hG]
  exact Config.slotIn_entry hc hpol hfit (h.keys g (by rw [records_split, hG]; simp))

end Collected

end Ring

/-! ## Closing and collecting on the part -/

namespace StoreM

variable {c : Config} {R : Ring} {e : Engine}

/-- Closing the active sector writes its close entry, naming its newest entry, and moves both
cursors to the ends of the next sector. -/
theorem run_closeSector (hc : c.Usable) (hpol : Flash.Polar c.eraseValue) (hst : R.Stored c e)
    (hset : R.closed.length + 2 ≤ c.sectorCount.toNat) (hne : R.current ≠ []) :
    ∃ e', closeSector.run.run e = (.ok (), e') ∧ (R.close c).Stored c e' ∧
      e'.store.mounted = e.store.mounted ∧ c.Confined e.rig.chip e'.rig.chip := by
  have hS := hc.sector_le
  have hn := hc.count_le
  have h4 := hc.four_entries
  have hE : 30 ≤ c.entrySize.toNat := hc.entry_ge
  have ha := hst.active_lt
  have hcfg := hst.config
  have hW := Config.block_dvd_entrySize hc.block
  have hL : 0 < R.current.length := List.length_pos_iff.2 hne
  have hLS : (R.current.length + 2) * c.entrySize.toNat ≤ c.sectorSize.toNat :=
    hst.current.mul_le (Nat.le_refl _)
  -- the close entry names the slot just above the entry cursor: the newest entry's
  have hstep : (R.current.length + 2) * c.entrySize.toNat =
      (R.current.length - 1 + 2) * c.entrySize.toNat + c.entrySize.toNat := by
    rw [← Nat.succ_mul]
    congr 1
    omega
  have htwo : 2 * c.entrySize.toNat ≤ (R.current.length - 1 + 2) * c.entrySize.toNat :=
    Nat.mul_le_mul_right _ (by omega)
  have hnewest : (R.ate c).plus e.store.entrySize =
      Address.at R.active (c.slot (R.current.length - 1)) := by
    rw [Ring.ate, Store.entrySize, hcfg, Address.plus_at (by omega)
      (by simp only [Config.slot]; omega)]
    congr 1
    simp only [Config.slot]
    omega
  have hclose :
      Entry.sealed
        { key := Entry.closeKey, offset := ((R.ate c).plus e.store.entrySize).offset.toUInt16,
          length := 0 } = closeEntry (c.slot (R.current.length - 1)) := by
    have hoff : ((R.ate c).plus e.store.entrySize).offset.toUInt16 =
        (c.slot (R.current.length - 1)).toUInt16 := by
      rw [hnewest]
      exact congrArg Nat.toUInt16 (Address.offset_at (by omega) (by simp only [Config.slot]; omega))
    rw [hoff]
    rfl
  have hcs : (R.ate c).sectorStart.plus e.store.closeSlot = Address.at R.active c.closeOffset := by
    rw [Ring.ate, Address.sectorStart_at (by omega) (by simp only [Config.slot]; omega),
      Address.plus_at (by omega) (by rw [Store.closeSlot_toNat hcfg hc]; simp only [Config.closeOffset]; omega),
      Store.closeSlot_toNat hcfg hc, Nat.zero_add]
  -- the close entry goes into the close slot, blank while the sector was open
  have hblank : Sector.Blank (R.image c R.active) c.eraseValue c.closeOffset c.entrySize.toNat := by
    rw [Ring.image_active]
    exact Config.blank_layout_close hc hst.current
  obtain ⟨e2, hw, hst2, hpl2, hh2, hcf2⟩ := run_writeEntry
    (e := { e with store := { e.store with ateCursor := Address.at R.active c.closeOffset } })
    hc hpol hcfg hst.placed hst.hosts ha rfl
    (by simp only [Config.closeOffset]; exact Nat.dvd_sub hc.block_dvd hW)
    (by simp only [Config.closeOffset]; omega) (by simp only [Config.closeOffset]; omega)
    (closeEntry (c.slot (R.current.length - 1))) hblank
  -- then both cursors move to the ends of the next sector
  have hsl : c.closeOffset - c.entrySize.toNat = c.slot 0 := by
    simp only [Config.closeOffset, Config.slot]
    omega
  have hadv : (Address.at R.active (c.closeOffset - c.entrySize.toNat)).advance c.sectorCount =
      Address.at ((R.active + 1) % c.sectorCount.toNat) (c.slot 0) := by
    rw [Address.advance_at ha hn (by simp only [Config.closeOffset]; omega), hsl]
  have hstart : (Address.at ((R.active + 1) % c.sectorCount.toNat) (c.slot 0)).sectorStart =
      Address.at ((R.active + 1) % c.sectorCount.toNat) 0 :=
    Address.sectorStart_at
      (by have := Nat.mod_lt (R.active + 1) (by omega : 0 < c.sectorCount.toNat); omega)
      (by simp only [Config.slot]; omega)
  obtain ⟨e4, hlog, hq4⟩ := run_logAt .debug "sector closed"
    [("sector", .int (R.ate c).sector.toNat),
     ("next_sector", .int (Address.at ((R.active + 1) % c.sectorCount.toNat) (c.slot 0)).sector.toNat)]
    { e2 with store := { e2.store with
      ateCursor := Address.at ((R.active + 1) % c.sectorCount.toNat) (c.slot 0),
      dataCursor := Address.at ((R.active + 1) % c.sectorCount.toNat) 0 } }
  obtain ⟨e5, hmeter, hq5⟩ := run_meter (fun r p => r.recordRotation p) e4
  have hstore : e5.store = { e.store with
      ateCursor := (R.close c).ate c, dataCursor := (R.close c).dataEnd c } := by
    rw [hq5.1, hq4.1, hst2]
    rfl
  have hchip : e5.rig.chip = e2.rig.chip := by rw [hq5.2, hq4.2]
  refine ⟨e5, ?_, ?_, by rw [hstore], hchip ▸ hcf2⟩
  · simp only [closeSector, run_bind, run_store, hst.ate, hclose, hcs, run_modifyStore]
    rw [run_tryCatch_ok (by rw [run_bind_ok hw]; rfl)]
    simp only [hst2, hcfg] at hlog
    simp only [hst2, hcfg, hadv, hstart, hlog, hmeter]
    rfl
  · rw [Ring.image_active] at hh2
    exact {
      toFit := Ring.Fit.close hc hst.toFit hne hset
      config := by rw [hstore]; exact hcfg
      placed := hchip ▸ hpl2
      hosts := (hchip ▸ hh2).congr fun j hj o _ => by rw [Ring.image_close hst.toFit hset hj]; rfl
      ate := by rw [hstore]
      data := by rw [hstore] }

/-- The sector a rotation collects, and its close slot, as the collection finds them from the
entry cursor. -/
theorem collect_addrs (hc : c.Usable) (hst : (R.close c).Stored c e) :
    e.store.ateCursor.sectorStart.advance c.sectorCount = Address.at (R.collected c) 0 ∧
      (Address.at (R.collected c) 0).plus e.store.closeSlot =
        Address.at (R.collected c) c.closeOffset := by
  have hS := hc.sector_le
  have hn := hc.count_le
  have h4 := hc.four_entries
  have hcfg := hst.config
  have ha : (R.close c).active < c.sectorCount.toNat := hst.active_lt
  have hcol := Ring.collected_lt hc (R := R)
  constructor
  · rw [hst.ate]
    show (Address.at (R.close c).active (c.slot 0)).sectorStart.advance c.sectorCount = _
    rw [Address.sectorStart_at (by omega) (by simp only [Config.slot]; omega),
      Address.advance_at ha hn (by omega)]
    rfl
  · rw [Address.plus_at (by omega) (by rw [Store.closeSlot_toNat hcfg hc]; simp only [Config.closeOffset]; omega),
      Store.closeSlot_toNat hcfg hc, Nat.zero_add]

section Collect

variable (hc : c.Usable) (hpol : Flash.Polar c.eraseValue) (hR : R.Fit c) (hne : R.current ≠ [])
  (hfull : R.closed.length + 2 = c.sectorCount.toNat)
include hc hpol hR hne hfull

/-- Visiting record `g` of the oldest sector, `relocate` copies it, value then entry, into the
new active sector exactly when the collection keeps it. -/
theorem run_relocate {pre post : List Record} {g : Record} (hG : R.oldest = pre ++ g :: post)
    (hst : (R.copying c pre).Stored c e) :
    ∃ b e', (relocate (Address.at (R.collected c) (c.slot post.length))
        (.valid (g.entry (c.dataEnd post)))).run.run e = (.ok b, e') ∧
      (R.copying c (pre ++ [g])).Stored c e' ∧ e'.store.mounted = e.store.mounted ∧
      c.Confined e.rig.chip e'.rig.chip := by
  have hS := hc.sector_le
  have hn := hc.count_le
  have hE : 30 ≤ c.entrySize.toNat := hc.entry_ge
  have hkeep : Ring.keep R.newerKeys (pre ++ [g]) = Ring.keep R.newerKeys pre ++
      if g.value.size ≠ 0 ∧ g.key ∉ R.newerKeys ++ pre.map (·.key) then [g] else [] := by
    rw [Ring.keep_append, Ring.keep_singleton]
  have hsg := Ring.site_mem_copying hc hfull hR hne hG
  have hlen : (g.entry (c.dataEnd post)).length.toNat = g.value.size :=
    Ring.entry_length hc hst.toFit hsg
  by_cases hv : g.value.size = 0
  · -- a deletion is not copied
    have hsame : R.copying c (pre ++ [g]) = R.copying c pre := by
      simp [Ring.copying, hkeep, hv]
    have h0 : (g.entry (c.dataEnd post)).length = 0 := UInt16.toNat_inj.1 (by rw [hlen, hv]; rfl)
    refine ⟨false, e, ?_, hsame ▸ hst, rfl, Config.Confined.refl _⟩
    simp only [relocate, h0, if_true]
    rfl
  have h0 : (g.entry (c.dataEnd post)).length ≠ 0 := fun h => hv (by rw [← hlen, h]; rfl)
  obtain ⟨e1, hfind, hr1⟩ := run_findNewest hc hpol hst g.key
  obtain ⟨s, hs, hiff⟩ := Ring.find?_copying hc hfull hR hne hG
  rw [hs] at hfind
  by_cases hk : g.key ∉ R.newerKeys ∧ g.key ∉ pre.map (·.key)
  swap
  · -- a newer record of the key is in the ring: nothing is copied
    have hsame : R.copying c (pre ++ [g]) = R.copying c pre := by
      simp only [Ring.copying, hkeep]
      rw [if_neg (fun hc' => hk ⟨fun h => hc'.2 (List.mem_append_left _ h),
        fun h => hc'.2 (List.mem_append_right _ h)⟩), List.append_nil]
    have haddr : s.addr c ≠ Address.at (R.collected c) (c.slot post.length) := fun h => hk (hiff.1 h)
    refine ⟨false, e1, ?_, hsame ▸ hst.reads hr1, by rw [hr1.1], hr1.confined⟩
    simp only [relocate, h0, if_false, run_bind, show (g.entry (c.dataEnd post)).key = g.key from rfl,
      hfind, Option.map_some, bne_iff_ne, ne_eq, haddr, not_false_eq_true, if_true]
    rfl
  -- the newest record of its key, holding a value: its value and then its entry are copied
  have haddr : s.addr c = Address.at (R.collected c) (c.slot post.length) := hiff.2 hk
  set cr := (Ring.keep R.newerKeys pre).reverse
  have hst1 := hst.reads hr1
  have hcfg1 := hst1.config
  have ha : (R.close c).active < c.sectorCount.toNat := hst.active_lt
  have hcol := Ring.collected_lt hc (R := R)
  have hcur : R.copying c (pre ++ [g]) = { R.copying c pre with current := g :: cr } :=
    Ring.copying_append_kept hv fun h => (List.mem_append.1 h).elim hk.1 hk.2
  have hfit' := Ring.Fit.copying hc hR hne hfull
    (show R.oldest = (pre ++ [g]) ++ post by rw [hG]; simp)
  have hfits : c.Fits (g :: cr) := by rw [hcur] at hfit'; exact hfit'.current
  obtain ⟨hb1, hb2⟩ := hfits.cons_bounds hc
  have hfits' : c.dataEnd (g :: cr) + (cr.length + 1 + 2) * c.entrySize.toNat ≤ c.sectorSize.toNat :=
    hfits
  rw [Config.dataEnd_cons] at hfits'
  have hgap := Config.blank_layout_gap hc hfits.tail
  have hbd := Ring.bounds_of_mem_sites hc hst.toFit hsg
  have hval := Ring.slice_site_value hc hst.toFit hsg
  have hvaddr := Ring.valueAddr_site hc hst.toFit hsg
  have hslot1 := Config.slot_succ (c := c) cr.length
  have hmul : (cr.length + 1 + 2) * c.entrySize.toNat =
      (cr.length + 2) * c.entrySize.toNat + c.entrySize.toNat := by
    rw [← Nat.succ_mul]
  have h2E : 2 * c.entrySize.toNat ≤ (cr.length + 2) * c.entrySize.toNat :=
    Nat.mul_le_mul_right _ (by omega)
  have hdvd := Config.block_dvd_dataEnd (c := c) cr
  have hbc := Nat.le_blockCeil (n := g.value.size) hc.block_pos
  have hlen32 : (g.entry (c.dataEnd post)).length.toUInt32.toNat = g.value.size := by
    rw [UInt16.toNat_toUInt32, hlen]
  -- the value, from the collected sector to the data cursor
  have himg1 : (R.copying c pre).image c (R.close c).active = c.layout cr := Ring.image_active
  obtain ⟨e2, hcopy, hst2, hpl2, hh2, hcf2⟩ := run_copyData hc hpol e1 hcfg1 hst1.placed hst1.hosts
    hcol ha (Ring.collected_ne hc) hst1.data hdvd
    (show c.dataEnd post + (g.entry (c.dataEnd post)).length.toUInt32.toNat ≤ c.sectorSize.toNat by
      rw [hlen32]; have := hbd.value; simp only [Config.slot] at this; omega)
    (show c.dataEnd cr + Nat.blockCeil (g.entry (c.dataEnd post)).length.toUInt32.toNat
        c.writeBlock.toNat ≤ c.sectorSize.toNat by rw [hlen32]; omega)
    (by
      rw [himg1, hlen32]
      show Sector.Blank (c.layout cr) c.eraseValue (c.dataEnd cr) _
      exact hgap.mono (Nat.le_refl _) (by simp only [Config.slot] at hfits' ⊢; omega))
  have hdcr : c.dataEnd (R.copying c pre).current = c.dataEnd cr := rfl
  rw [hdcr] at hh2 hst2
  rw [hlen32, show (Ring.copying c R pre).image c (R.collected c) = _ from rfl, hval] at hh2
  -- the entry, naming the copied value, at the entry cursor
  have hoff1 : (Address.at (R.copying c pre).active
      (c.dataEnd (R.copying c pre).current)).offset.toUInt16 = (c.dataEnd cr).toUInt16 :=
    congrArg Nat.toUInt16 (Address.offset_at (show (R.close c).active < 65536 by omega)
      (show c.dataEnd cr < 65536 by simp only [Config.slot] at hb1; omega))
  have hmoved :
      Entry.sealed
        { key := g.key, offset := (c.dataEnd cr).toUInt16,
          length := (g.entry (c.dataEnd post)).length, part := (g.entry (c.dataEnd post)).part,
          crc := (g.entry (c.dataEnd post)).crc } = g.entry (c.dataEnd cr) := rfl
  have hvaddr' : valueAddr (Address.at (R.collected c) (c.slot post.length))
      (g.entry (c.dataEnd post)) = Address.at (R.collected c) (c.dataEnd post) := hvaddr
  have hate2 : e2.store.ateCursor = Address.at (R.close c).active (c.slot cr.length) := by
    rw [hst2]
    exact hst1.ate
  obtain ⟨e3, hwrite, hst3, hpl3, hh3, hcf3⟩ := run_writeEntry hc hpol
    (by rw [hst2]; exact hcfg1) hpl2 hh2 ha hate2 (Config.block_dvd_slot hc _)
    (by simp only [Config.slot]; omega) (by simp only [Config.slot]; omega)
    (g.entry (c.dataEnd cr))
    (by
      rw [Function.update_self]
      apply Sector.blank_put_of_disjoint (by simp only [ByteArray.length_toList]; omega)
      rw [himg1]
      exact hgap.mono (by omega) (by omega))
  refine ⟨true, e3, ?_, ?_, by rw [hst3, hst2, hr1.1], hr1.confined.trans (hcf2.trans hcf3)⟩
  · simp only [relocate, h0, if_false, run_bind, show (g.entry (c.dataEnd post)).key = g.key from rfl,
      hfind, Option.map_some, haddr, bne_self_eq_false, Bool.false_eq_true, if_false, run_store,
      hst1.data, Ring.dataEnd, hoff1, hmoved, hvaddr', hcopy, hwrite]
    rfl
  · rw [Function.update_self, Function.update_idem, himg1] at hh3
    rw [hcur]
    exact {
      toFit := by rw [← hcur]; exact hfit'
      config := by rw [hst3, hst2]; exact hcfg1
      placed := hpl3
      hosts := hh3.congr fun j hj o _ => by
        rw [Ring.image_current (R := R.copying c pre) ha (g :: cr) hj]
        rfl
      ate := by
        rw [hst3]
        show Address.at _ (c.slot cr.length - c.entrySize.toNat) = Address.at _ (c.slot (cr.length + 1))
        rw [hslot1]
        rfl
      data := by
        rw [hst3, hst2, hlen32]
        show Address.at _ (c.dataEnd cr + _) = Address.at _ (c.dataEnd (g :: cr))
        rw [Config.dataEnd_cons]
        rfl }

/-- The copying loop visits the records of the oldest sector newest first, from the slot of `g`
up to the lowest slot, and leaves every record the collection keeps copied. -/
theorem run_collect_go : ∀ (post pre : List Record) (g : Record), R.oldest = pre ++ g :: post →
    ∀ (fuel n : Nat) (e : Engine), post.length < fuel → (R.copying c pre).Stored c e →
    ∃ n' e', (collect.go (Address.at (R.collected c) (c.slot 0)) fuel
        (Address.at (R.collected c) (c.slot post.length)) n).run.run e = (.ok n', e') ∧
      (R.copying c R.oldest).Stored c e' ∧ e'.store.mounted = e.store.mounted ∧
      c.Confined e.rig.chip e'.rig.chip := by
  have hS := hc.sector_le
  have hn := hc.count_le
  have hE : 30 ≤ c.entrySize.toNat := hc.entry_ge
  have hcol := Ring.collected_lt hc (R := R)
  intro post
  induction post with
  | nil =>
    -- the lowest slot: the walk would go on to the new active sector, which is not closed
    intro pre g hG fuel n e hfuel hst
    obtain ⟨fuel, rfl⟩ : ∃ f, fuel = f + 1 := ⟨fuel - 1, by simp at hfuel; omega⟩
    have hopen : c.slotIn ((R.copying c pre).image c
        ((R.collected c + c.sectorCount.toNat - 1) % c.sectorCount.toNat)) c.closeOffset =
        .erased := by
      rw [Ring.before_collected hc, show (R.close c).active = (R.copying c pre).active from rfl,
        Ring.image_active]
      exact Config.slotIn_blank (Config.blank_layout_close hc hst.current)
    obtain ⟨e1, hstep, hr1⟩ := Ring.steps_bottom_open hc hcol hopen e hst
    have hslot := Ring.slotIn_collected hc hfull hR hne hG hpol
    rw [List.length_nil] at hslot
    rw [hslot] at hstep
    obtain ⟨b, e2, hrel, hst2, hm2, hcf2⟩ := run_relocate hc hpol hR hne hfull hG (hst.reads hr1)
    refine ⟨if b then n + 1 else n, e2, ?_, by rw [hG]; exact hst2, by rw [hm2, hr1.1],
      hr1.confined.trans hcf2⟩
    rw [List.length_nil] at hrel ⊢
    simp only [collect.go, run_bind, hstep, hrel, beq_self_eq_true, if_true]
    rfl
  | cons g' post ih =>
    -- a higher slot: the walk moves one slot up, to the next older record
    intro pre g hG fuel n e hfuel hst
    rw [List.length_cons] at hfuel
    obtain ⟨fuel, rfl⟩ : ∃ f, fuel = f + 1 := ⟨fuel - 1, by omega⟩
    have hfit := (hR.sectors hne _ (Ring.oldest_mem R)).1
    have hle := hfit.mul_le (k := post.length + 1 + 2) (by rw [hG]; simp; omega)
    obtain ⟨e1, hstep, hr1⟩ := Ring.steps_up hc (R := R.copying c pre) hcol
      (i := post.length + 1) (by omega) hle e hst
    have hslot := Ring.slotIn_collected hc hfull hR hne hG hpol
    rw [List.length_cons] at hslot
    rw [hslot] at hstep
    obtain ⟨b, e2, hrel, hst2, hm2, hcf2⟩ := run_relocate hc hpol hR hne hfull hG (hst.reads hr1)
    obtain ⟨n', e3, hgo, hst3, hm3, hcf3⟩ := ih (pre ++ [g]) g' (by rw [hG]; simp) fuel
      (if b then n + 1 else n) e2 (by omega) hst2
    refine ⟨n', e3, ?_, hst3, by rw [hm3, hm2, hr1.1], hr1.confined.trans (hcf2.trans hcf3)⟩
    rw [List.length_cons] at hrel ⊢
    have hne_stop : (Address.at (R.collected c) (c.slot (post.length + 1)) ==
        Address.at (R.collected c) (c.slot 0)) = false := by
      rw [beq_eq_false_iff_ne, Ne, Address.at_inj (by omega) (by simp only [Config.slot]; omega)
        (by omega) (by simp only [Config.slot]; omega)]
      have := Config.slot_add_le (c := c) (by omega : 0 < post.length + 1) hle
      omega
    simp only [collect.go, run_bind, hstep, hrel, hne_stop, Bool.false_eq_true, if_false,
      Nat.add_sub_cancel]
    exact hgo

/-- On a full ring the collection reads the close slot of the oldest sector, which names its
newest record, runs the copying loop from that record's slot down to the lowest one, and then
erases the sector. -/
theorem collect_of_full (hst : (R.close c).Stored c e) :
    ∃ e1 g post, e.Reads e1 ∧ R.oldest = [] ++ g :: post ∧
      post.length < c.sectorSize.toNat / c.entrySize.toNat + 2 ∧
      collect.run.run e = (do
        let n ← collect.go (Address.at (R.collected c) (c.slot 0))
          (c.sectorSize.toNat / c.entrySize.toNat + 2)
          (Address.at (R.collected c) (c.slot post.length)) 0
        logAt .debug "garbage collected sector"
          [("sector", .int (Address.at (R.collected c) 0).sector.toNat), ("count", .int n)]
        meter fun r p => r.recordCollection p n
        eraseSector (Address.at (R.collected c) 0)).run.run e1 := by
  have hS := hc.sector_le
  have hn := hc.count_le
  have h4 := hc.four_entries
  have hE : 30 ≤ c.entrySize.toNat := hc.entry_ge
  have hcfg := hst.config
  have hcol := Ring.collected_lt hc (R := R)
  obtain ⟨hsector, hcloseAt⟩ := collect_addrs hc hst
  obtain ⟨e1, hread, hr1⟩ := run_readSlot_image hc hst.toHosted hcol (o := c.closeOffset)
    (by simp only [Config.closeOffset]; omega)
  have hfit := (hR.sectors hne _ (Ring.oldest_mem R)).1
  have hold : R.oldest ≠ [] := (hR.sectors hne _ (Ring.oldest_mem R)).2
  obtain ⟨g, post, hG⟩ : ∃ g post, R.oldest = [] ++ g :: post := by
    cases h : R.oldest with
    | nil => exact absurd h hold
    | cons g post => exact ⟨g, post, rfl⟩
  have hlen : R.oldest.length - 1 = post.length := by rw [hG]; simp
  -- the close slot of the oldest sector names the slot of its newest record
  have hslotc : c.slotIn ((R.close c).image c (R.collected c)) c.closeOffset =
      .valid (closeEntry (c.slot post.length)) := by
    rw [← Ring.copying_nil, Ring.image_copying_collected hc hfull, ← hlen]
    exact Config.slotIn_close hc hpol hfit
  rw [hslotc] at hread
  have hpl := hfit.mul_le (k := post.length + 2) (by rw [hG]; simp)
  have hvalid := Store.closeOffsetValid_slot hcfg hc hpl
  have hfirst : (Address.at (R.collected c) 0).plus (c.slot post.length).toUInt16.toUInt32 =
      Address.at (R.collected c) (c.slot post.length) := by
    have hslot : (c.slot post.length).toUInt16.toUInt32.toNat = c.slot post.length := by
      rw [UInt16.toNat_toUInt32, Nat.toUInt16_eq, UInt16.toNat_ofNat', Nat.mod_eq_of_lt (by
        simp only [Config.slot]; omega)]
    rw [Address.plus_at (by omega) (by rw [hslot]; simp only [Config.slot]; omega), hslot,
      Nat.zero_add]
  have hstop : (Address.at (R.collected c) c.closeOffset).minus c.entrySize =
      Address.at (R.collected c) (c.slot 0) := by
    rw [Address.minus_at (by omega) (by simp only [Config.closeOffset]; omega)
      (by simp only [Config.closeOffset]; omega)]
    congr 1
    simp only [Config.closeOffset, Config.slot]
    omega
  have hfuel : post.length < c.sectorSize.toNat / c.entrySize.toNat + 2 := by
    have := Ring.length_le_of_fits hc hfit
    rw [hG] at this
    simp at this
    omega
  refine ⟨e1, g, post, hr1, hG, hfuel, ?_⟩
  have hoff : (closeEntry (c.slot post.length)).offset = (c.slot post.length).toUInt16 := rfl
  simp only [collect, run_bind, run_store, hsector, hcloseAt, hread, hoff, hvalid, if_true,
    run_pure, hfirst, hstop, Store.entrySize, hcfg]

end Collect

/-- On a ring that is not full the sector after the new active one is blank. -/
theorem image_collected_of_not_full (hc : c.Usable) (hR : R.Fit c) (hne : R.current ≠ [])
    (hset : R.closed.length + 2 ≤ c.sectorCount.toNat)
    (hfull : ¬ R.closed.length + 2 = c.sectorCount.toNat) :
    (R.close c).image c (R.collected c) = fun _ => c.eraseValue := by
  have hn2 := hc.count_ge
  have hlen : (R.close c).closed.length ≤ c.sectorCount.toNat - 2 := by
    simp only [Ring.close, List.length_cons]
    omega
  rw [← Ring.behind_last_collected hc,
    show c.sectorCount.toNat - 1 = c.sectorCount.toNat - 2 + 1 by omega]
  exact Ring.image_blank (Ring.Fit.close hc hR hne hset) hlen (by omega)

/-- On a ring that is not full the collection finds the close slot of the next sector erased and
only erases that sector, which is blank. -/
theorem collect_of_not_full (hc : c.Usable) (hR : R.Fit c) (hne : R.current ≠ [])
    (hset : R.closed.length + 2 ≤ c.sectorCount.toNat)
    (hfull : ¬ R.closed.length + 2 = c.sectorCount.toNat) (hst : (R.close c).Stored c e) :
    ∃ e1, e.Reads e1 ∧
      collect.run.run e = (eraseSector (Address.at (R.collected c) 0)).run.run e1 := by
  have hS := hc.sector_le
  have h4 := hc.four_entries
  have hE : 30 ≤ c.entrySize.toNat := hc.entry_ge
  have hcfg := hst.config
  have hcol := Ring.collected_lt hc (R := R)
  obtain ⟨hsector, hcloseAt⟩ := collect_addrs hc hst
  obtain ⟨e1, hread, hr1⟩ := run_readSlot_image hc hst.toHosted hcol (o := c.closeOffset)
    (by simp only [Config.closeOffset]; omega)
  have hslotc : c.slotIn ((R.close c).image c (R.collected c)) c.closeOffset = .erased := by
    rw [image_collected_of_not_full hc hR hne hset hfull]
    exact Config.slotIn_blank fun _ _ => rfl
  rw [hslotc] at hread
  refine ⟨e1, hr1, ?_⟩
  simp only [collect, run_bind, run_store, hcfg, hsector, hcloseAt, hread]
  -- what follows the erase is a plain return
  rcases (eraseSector (Address.at (R.collected c) 0)).run.run e1 with ⟨r, e2⟩
  cases r <;> rfl

/-- Collecting the sector after the new active one leaves the ring a rotation leaves: the
oldest sector's surviving records copied and the sector erased, or a blank sector left blank. -/
theorem run_collect (hc : c.Usable) (hpol : Flash.Polar c.eraseValue) (hR : R.Fit c)
    (hne : R.current ≠ []) (hset : R.closed.length + 2 ≤ c.sectorCount.toNat)
    (hst : (R.close c).Stored c e) :
    ∃ e', collect.run.run e = (.ok (), e') ∧ (R.rotate c).Stored c e' ∧
      e'.store.mounted = e.store.mounted ∧ c.Confined e.rig.chip e'.rig.chip := by
  have hn := hc.count_le
  have hcol := Ring.collected_lt hc (R := R)
  by_cases hfull : R.closed.length + 2 = c.sectorCount.toNat
  · -- the oldest sector: copy what survives, then erase it
    obtain ⟨e1, g, post, hr1, hG, hfuel, hrun⟩ := collect_of_full hc hpol hR hne hfull hst
    obtain ⟨n', e2, hgo, hst2, hm2, hcf2⟩ := run_collect_go hc hpol hR hne hfull post [] g hG
      (c.sectorSize.toNat / c.entrySize.toNat + 2) 0 e1 hfuel
      (by rw [Ring.copying_nil]; exact hst.reads hr1)
    obtain ⟨e3, hlog, hq3⟩ := run_logAt .debug "garbage collected sector"
      [("sector", .int (Address.at (R.collected c) 0).sector.toNat), ("count", .int n')] e2
    obtain ⟨e4, hmeter, hq4⟩ := run_meter (fun r p => r.recordCollection p n') e3
    have hst4 := hst2.reads (hq3.trans hq4).reads
    obtain ⟨e5, herase, hst5, hpl5, hh5, -, -, -, hcf5⟩ := run_eraseSector hc e4 hst4.config
      hst4.placed hst4.hosts hcol (o := 0) (by omega)
    refine ⟨e5, ?_, ?_, by rw [hst5, hq4.1, hq3.1, hm2, hr1.1],
      hr1.confined.trans (hcf2.trans ((hq3.trans hq4).reads.confined.trans hcf5))⟩
    · rw [hrun]
      simp only [run_bind, hgo, hlog, hmeter, herase]
    · -- the ring the loop reached, with the collected sector erased
      have hfit2 := hst4.toFit
      have hb : c.behind (R.copying c R.oldest).active (R.copying c R.oldest).closed.length =
          R.collected c := by
        rw [← Ring.behind_collected hc hfull, Ring.length_newer]
        rfl
      rw [Ring.rotate_of_full hfull]
      exact {
        toFit := by rw [← Ring.rotate_of_full hfull]; exact Ring.Fit.rotate hc hR hne hset
        config := by rw [hst5]; exact hst4.config
        placed := hpl5
        hosts := hh5.congr fun j hj o _ => by
          rw [Ring.image_dropLast hfit2 (List.cons_ne_nil _ _) hj, hb]
        ate := by rw [hst5]; exact hst4.ate
        data := by rw [hst5]; exact hst4.data }
  · -- the sector after the new active one is blank: erasing it changes nothing
    have hblank := image_collected_of_not_full hc hR hne hset hfull
    obtain ⟨e1, hr1, hrun⟩ := collect_of_not_full hc hR hne hset hfull hst
    have hst1 := hst.reads hr1
    obtain ⟨e2, herase, hst2, hpl2, hh2, -, -, -, hcf2⟩ := run_eraseSector hc e1 hst1.config
      hst1.placed hst1.hosts hcol (o := 0) (by omega)
    refine ⟨e2, by rw [hrun, herase], ?_, by rw [hst2, hr1.1], hr1.confined.trans hcf2⟩
    rw [Ring.rotate_of_not_full hfull]
    exact {
      toFit := hst1.toFit
      config := by rw [hst2]; exact hst1.config
      placed := hpl2
      hosts := hh2.congr fun j _ o _ => by
        by_cases hjc : j = R.collected c
        · subst hjc
          rw [Function.update_self, hblank]
        · rw [Function.update_of_ne hjc]
      ate := by rw [hst2]; exact hst1.ate
      data := by rw [hst2]; exact hst1.data }

end StoreM

end NorStore
