import NorStore.Proofs.Recency

/-!
# The write-back cache refines its list of entries

The cache is kept as a key map, a recency list of nodes, a heap of entries and a running count
of the dirty ones (`WriteBack`). Its representation invariant (`WriteBack.Inv`) says how they
agree: the list repeats no node and uses only nodes already handed out, the key map names for a
key exactly the node of the list whose entry has that key, and the count is the number of nodes
of the list whose entry is dirty.

Every operation keeps the invariant and acts on the entries of the list, most recently used
first (`WriteBack.toCache`), as the list layer `Cache` does: a hit moves its node to the front
(`get_refines`), a put updates a node in place or links a fresh one, evicting the clean node at
the back of a full cache (`put_refines`), `setDirty` keeps the count on every path that changes
a mark (`setDirty_dirty`), and a removal unlinks the node and drops the key (`remove_refines`).
`CacheStep.writeBack_refines` states the whole of it for every run of steps from an empty
cache, together with what the list layer guarantees (`CacheStep.runAll_recency`).
-/

namespace NorStore.Storage.WriteBack

variable {w : WriteBack} {key v : ByteArray} {n m : Nat} {d : Bool} {h : Nat → CacheEntry}
  {e : CacheEntry}

/-! ## The heap -/

@[simp] theorem write_self : write h n e n = e := if_pos rfl

@[simp] theorem write_of_ne (hm : m ≠ n) : write h n e m = h m := if_neg hm

theorem map_write_of_not_mem {l : List Nat} (hn : n ∉ l) : l.map (write h n e) = l.map h :=
  List.map_congr_left fun m hm => write_of_ne fun heq : m = n => hn (heq ▸ hm)

theorem countP_write_of_not_mem {l : List Nat} (hn : n ∉ l) (p : CacheEntry → Bool) :
    l.countP (fun m => p (write h n e m)) = l.countP (fun m => p (h m)) :=
  List.countP_congr fun m hm => by rw [write_of_ne fun heq : m = n => hn (heq ▸ hm)]

/-- Writing a node of a list that holds it once changes the count of the nodes whose entry has a
property by what the node held and holds. -/
theorem countP_write {l : List Nat} (hnd : l.Nodup) (hn : n ∈ l) (p : CacheEntry → Bool) :
    l.countP (fun m => p (write h n e m)) + (p (h n)).toNat =
      l.countP (fun m => p (h m)) + (p e).toNat := by
  have hperm := List.perm_cons_erase hn
  have hout : n ∉ l.erase n := hnd.not_mem_erase
  rw [hperm.countP_eq, hperm.countP_eq, List.countP_cons, List.countP_cons,
    countP_write_of_not_mem hout, write_self]
  cases p e <;> cases p (h n) <;> simp

/-! ## Marks and their count -/

/-- Setting a mark writes it into the node's entry, whether or not it changes. -/
theorem setDirty_heap : (w.setDirty n d).heap = write w.heap n { w.heap n with dirty := d } := by
  unfold setDirty
  split
  · next hd =>
    funext m
    by_cases hm : m = n
    · subst hm
      rw [write_self, ← beq_iff_eq.1 hd]
    · rw [write_of_ne hm]
  · rfl

/-- The count goes up by one when a mark is set and down by one when it is cleared. -/
theorem setDirty_dirty :
    (w.setDirty n d).dirty = w.dirty + d.toNat - (w.heap n).dirty.toNat := by
  unfold setDirty
  split
  · next hd =>
    rw [beq_iff_eq.1 hd]
    omega
  · next hd =>
    cases d <;> cases hdn : (w.heap n).dirty <;> simp_all

@[simp] theorem setDirty_lru : (w.setDirty n d).lru = w.lru := by
  unfold setDirty; split <;> rfl

@[simp] theorem setDirty_index : (w.setDirty n d).index = w.index := by
  unfold setDirty; split <;> rfl

@[simp] theorem setDirty_fresh : (w.setDirty n d).fresh = w.fresh := by
  unfold setDirty; split <;> rfl

@[simp] theorem setDirty_capacity : (w.setDirty n d).capacity = w.capacity := by
  unfold setDirty; split <;> rfl

@[simp] theorem setDirty_maxValue : (w.setDirty n d).maxValue = w.maxValue := by
  unfold setDirty; split <;> rfl

@[simp] theorem setDirty_hits : (w.setDirty n d).hits = w.hits := by
  unfold setDirty; split <;> rfl

@[simp] theorem setDirty_misses : (w.setDirty n d).misses = w.misses := by
  unfold setDirty; split <;> rfl

/-! ## The key map -/

theorem find?_filter_key (l : List (ByteArray × Nat)) (k : ByteArray) :
    (l.filter (·.1 != k)).find? (·.1 == key) =
      if key = k then none else l.find? (·.1 == key) := by
  induction l with
  | nil => split <;> rfl
  | cons p l ih =>
    by_cases hp : p.1 = k
    · have hf : (p.1 != k) = false := by
        rw [← Bool.not_eq_true, ByteArray.bne_eq_true_iff, not_not, hp]
      rw [List.filter_cons_of_neg (by rw [hf]; decide), ih]
      by_cases hk : key = k
      · rw [if_pos hk, if_pos hk]
      · have hpk : (p.1 == key) = false := by
          rw [← Bool.not_eq_true, ByteArray.beq_eq_true_iff, hp]
          exact fun h => hk h.symm
        rw [if_neg hk, if_neg hk, List.find?_cons_of_neg (by rw [hpk]; decide)]
    · have ht : (p.1 != k) = true := ByteArray.bne_eq_true_iff.2 hp
      rw [List.filter_cons_of_pos (by exact ht)]
      by_cases hpk : p.1 = key
      · have hk : key ≠ k := fun h => hp (hpk.trans h)
        rw [if_neg hk, List.find?_cons_of_pos (by exact ByteArray.beq_eq_true_iff.2 hpk),
          List.find?_cons_of_pos (by exact ByteArray.beq_eq_true_iff.2 hpk)]
      · have hf : (p.1 == key) = false := by
          rw [← Bool.not_eq_true, ByteArray.beq_eq_true_iff]
          exact hpk
        rw [List.find?_cons_of_neg (by rw [hf]; decide),
          List.find?_cons_of_neg (by rw [hf]; decide), ih]

/-- Without a key, the key map names no node for it and the same node for every other key. -/
theorem node?_unmap (w : WriteBack) (k : ByteArray) :
    { w with index := w.unmap k }.node? key = if key = k then none else w.node? key := by
  unfold node? unmap
  simp only
  rw [find?_filter_key]
  split <;> rfl

/-- A key mapped in front is found first. -/
theorem node?_cons (w : WriteBack) (k : ByteArray) (l : List (ByteArray × Nat)) :
    { w with index := (k, n) :: l }.node? key =
      if k = key then some n else { w with index := l }.node? key := by
  unfold node?
  dsimp only
  by_cases hk : k = key
  · rw [if_pos hk, List.find?_cons_of_pos (by exact ByteArray.beq_eq_true_iff.2 hk)]
    rfl
  · have hf : (k == key) = false := by
      rw [← Bool.not_eq_true, ByteArray.beq_eq_true_iff]
      exact hk
    rw [if_neg hk, List.find?_cons_of_neg (by rw [hf]; decide)]

/-- Setting a mark a node's entry already has changes nothing. -/
theorem setDirty_of_eq (hd : (w.heap n).dirty = d) : w.setDirty n d = w := by
  unfold setDirty
  rw [if_pos (beq_iff_eq.2 hd)]

/-! ## The representation invariant -/

/-- How the key map, the recency list, the heap and the count of dirty entries agree. -/
structure Inv (w : WriteBack) : Prop where
  /-- The list holds each node once. -/
  nodup : w.lru.Nodup
  /-- It holds only nodes already handed out. -/
  fresh : ∀ n ∈ w.lru, n < w.fresh
  /-- The key map names for a key exactly the node of the list whose entry has that key. -/
  node : ∀ key n, w.node? key = some n ↔ n ∈ w.lru ∧ (w.heap n).key = key
  /-- The count is the number of nodes of the list whose entry is dirty. -/
  count : w.dirty = (w.lru.countP fun n => (w.heap n).dirty : Nat)

theorem Inv.create (capacity maxValue : Int) : (create capacity maxValue).Inv where
  nodup := List.nodup_nil
  fresh _ h := absurd h List.not_mem_nil
  node _ _ := ⟨fun h => by simp [node?, WriteBack.create] at h,
    fun h => absurd h.1 List.not_mem_nil⟩
  count := rfl

theorem toCache_create (capacity maxValue : Int) :
    (create capacity maxValue).toCache = Cache.create capacity maxValue := rfl

namespace Inv

variable (hi : w.Inv)
include hi

theorem node?_of_mem (hn : n ∈ w.lru) : w.node? (w.heap n).key = some n :=
  (hi.node _ _).2 ⟨hn, rfl⟩

/-- Two nodes of the list whose entries have one key are one node. -/
theorem eq_of_key (hn : n ∈ w.lru) (hm : m ∈ w.lru) (hk : (w.heap m).key = (w.heap n).key) :
    m = n :=
  Option.some.inj (((hi.node _ _).2 ⟨hm, hk⟩).symm.trans (hi.node?_of_mem hn))

theorem key_ne_of_none (h : w.node? key = none) (hn : n ∈ w.lru) : (w.heap n).key ≠ key :=
  fun hk => by rw [(hi.node _ _).2 ⟨hn, hk⟩] at h; cases h

/-- A lookup in the list of entries finds the entry of the node the key map names. -/
theorem find?_toCache (key : ByteArray) : w.toCache.find? key = (w.node? key).map w.heap := by
  unfold Cache.find? toCache
  dsimp only
  rw [List.find?_map]
  cases hk : w.node? key with
  | none =>
    rw [(List.find?_eq_none (p := (fun x : CacheEntry => x.key == key) ∘ w.heap)).2
      fun m hm hp => hi.key_ne_of_none hk hm (ByteArray.beq_eq_true_iff.1 hp)]
  | some n =>
    obtain ⟨hn, hkey⟩ := (hi.node key n).1 hk
    cases hf : w.lru.find? ((fun x : CacheEntry => x.key == key) ∘ w.heap) with
    | none =>
      exact absurd (ByteArray.beq_eq_true_iff.2 hkey) (List.find?_eq_none.1 hf n hn)
    | some m =>
      -- the node found has the key, so it is the node the key map names
      have hm := List.mem_of_find?_eq_some hf
      have hp := List.find?_some hf
      have hmk : (w.heap m).key = key := ByteArray.beq_eq_true_iff.1 hp
      rw [hi.eq_of_key hn hm (hmk.trans hkey.symm)]

/-- Dropping a key from the list of entries unlinks the node the key map names. -/
theorem without_toCache (hk : w.node? key = some n) :
    w.toCache.without key = (w.lru.erase n).map w.heap := by
  obtain ⟨hn, hkey⟩ := (hi.node key n).1 hk
  unfold Cache.without toCache
  dsimp only
  rw [List.filter_map, hi.nodup.erase_eq_filter]
  congr 1
  apply List.filter_congr
  intro m hm
  by_cases hmn : m = n
  · subst hmn
    have hself : (key != key) = false := by
      rw [← Bool.not_eq_true, ByteArray.bne_eq_true_iff]
      exact fun h => h rfl
    rw [Function.comp_apply, hkey, hself, bne_self_eq_false]
  · have hne : (w.heap m).key ≠ key := fun h => hmn (hi.eq_of_key hn hm (h.trans hkey.symm))
    rw [Function.comp_apply, ByteArray.bne_eq_true_iff.2 hne]
    exact (bne_iff_ne.2 hmn).symm

/-- Reordering the list keeps the invariant. -/
theorem perm {l : List Nat} (hp : l.Perm w.lru) : { w with lru := l }.Inv where
  nodup := hp.nodup_iff.2 hi.nodup
  fresh n hn := hi.fresh n (hp.subset hn)
  node key n := by
    show w.node? key = some n ↔ n ∈ l ∧ (w.heap n).key = key
    rw [hi.node, hp.mem_iff]
  count := by
    rw [hi.count, hp.countP_eq]

/-- Setting the mark of a node of the list keeps the invariant: the count moves with it. -/
theorem setDirty (hn : n ∈ w.lru) (d : Bool) : (w.setDirty n d).Inv where
  nodup := by rw [setDirty_lru]; exact hi.nodup
  fresh := by rw [setDirty_lru, setDirty_fresh]; exact hi.fresh
  node key m := by
    have hkey : ((w.setDirty n d).heap m).key = (w.heap m).key := by
      rw [setDirty_heap]
      by_cases hm : m = n
      · subst hm
        rw [write_self]
      · rw [write_of_ne hm]
    have hnode : (w.setDirty n d).node? key = w.node? key := by
      unfold node?
      rw [setDirty_index]
    rw [hnode, setDirty_lru, hkey, hi.node]
  count := by
    have hw := countP_write (h := w.heap) (e := { w.heap n with dirty := d }) hi.nodup hn
      (fun e => e.dirty)
    rw [setDirty_dirty, setDirty_lru, setDirty_heap, hi.count]
    dsimp only at hw ⊢
    omega

end Inv

/-- The key map alone decides the node of a key. -/
theorem node?_congr {w' : WriteBack} (h : w'.index = w.index) : w'.node? key = w.node? key := by
  unfold node?
  rw [h]

/-! ## Linking a fresh node and evicting the last one -/

theorem link_heap : (w.link key v d).heap = write w.heap w.fresh ⟨key, v, d⟩ := by
  funext m
  by_cases hm : m = w.fresh <;> simp [link, setDirty_heap, write, hm]

theorem link_dirty : (w.link key v d).dirty = w.dirty + d.toNat := by
  simp [link, setDirty_dirty, write]

@[simp] theorem link_lru : (w.link key v d).lru = w.fresh :: w.lru := by
  simp [link]

@[simp] theorem link_index : (w.link key v d).index = (key, w.fresh) :: w.unmap key := by
  simp [link, unmap]

@[simp] theorem link_fresh : (w.link key v d).fresh = w.fresh + 1 := by
  simp [link]

/-- A fresh node is not in the list, so linking it puts its entry in front of the others. -/
theorem link_toCache (hout : w.fresh ∉ w.lru) :
    (w.link key v d).toCache = { w.toCache with entries := ⟨key, v, d⟩ :: w.toCache.entries } := by
  simp only [toCache, link_lru, link_heap, List.map_cons, write_self, map_write_of_not_mem hout]
  simp [link]

/-- Without a clean node at the back, evicting is unlinking it and dropping its key. -/
theorem evict_of_clean {b : Nat} (hb : w.lru.getLast? = some b) (hc : (w.heap b).dirty = false) :
    w.evict = { w with lru := w.lru.dropLast, index := w.unmap (w.heap b).key } := by
  unfold evict
  rw [hb]
  dsimp only
  rw [setDirty_of_eq (w := { w with lru := w.lru.dropLast }) hc]
  rfl

namespace Inv

variable (hi : w.Inv)
include hi

/-- A fresh node linked for a key the map does not hold keeps the invariant. -/
theorem link (hk : w.node? key = none) (v : ByteArray) (d : Bool) : (w.link key v d).Inv := by
  have hout : w.fresh ∉ w.lru := fun h => Nat.lt_irrefl _ (hi.fresh _ h)
  refine ⟨?_, ?_, ?_, ?_⟩
  · rw [link_lru]
    exact List.nodup_cons.2 ⟨hout, hi.nodup⟩
  · intro m hm
    rw [link_lru, List.mem_cons] at hm
    rw [link_fresh]
    rcases hm with rfl | hm
    · exact Nat.lt_succ_self _
    · exact Nat.lt_succ_of_lt (hi.fresh m hm)
  · intro k m
    -- the key map names the fresh node for the key and what it named before for the others
    have hnode : (w.link key v d).node? k = if key = k then some w.fresh else
        if k = key then none else w.node? k := by
      rw [node?_congr (w := { w with index := (key, w.fresh) :: w.unmap key }) link_index,
        node?_cons]
      show (if key = k then some w.fresh else { w with index := w.unmap key }.node? k) = _
      rw [node?_unmap]
    rw [hnode, link_lru, link_heap, List.mem_cons]
    by_cases hkk : key = k
    · subst hkk
      rw [if_pos rfl]
      constructor
      · rintro ⟨⟩
        exact ⟨.inl rfl, by rw [write_self]⟩
      · rintro ⟨rfl | hm, hkm⟩
        · rfl
        · have hne : m ≠ w.fresh := fun h => hout (h ▸ hm)
          rw [write_of_ne hne] at hkm
          exact absurd hkm (hi.key_ne_of_none hk hm)
    · rw [if_neg hkk, if_neg (Ne.symm hkk), hi.node]
      constructor
      · rintro ⟨hm, hkm⟩
        have hne : m ≠ w.fresh := fun h => hout (h ▸ hm)
        exact ⟨.inr hm, by rw [write_of_ne hne]; exact hkm⟩
      · rintro ⟨rfl | hm, hkm⟩
        · rw [write_self] at hkm
          exact absurd hkm hkk
        · have hne : m ≠ w.fresh := fun h => hout (h ▸ hm)
          rw [write_of_ne hne] at hkm
          exact ⟨hm, hkm⟩
  · rw [link_dirty, link_lru, link_heap, List.countP_cons, write_self,
      countP_write_of_not_mem hout, hi.count]
    cases d <;> simp

/-- Evicting the clean node at the back keeps the invariant, and leaves a key the map did not
hold unmapped. -/
theorem evict {b : Nat} (hb : w.lru.getLast? = some b) (hc : (w.heap b).dirty = false) :
    w.evict.Inv ∧ ∀ key, w.node? key = none → w.evict.node? key = none := by
  obtain ⟨ys, hys⟩ := List.getLast?_eq_some_iff.1 hb
  have hnd := hi.nodup
  rw [hys] at hnd
  have hbys : b ∉ ys := fun h => (List.nodup_append.1 hnd).2.2 b h b (List.mem_singleton_self b) rfl
  have hbmem : b ∈ w.lru := by rw [hys]; exact List.mem_append_right _ (List.mem_singleton_self b)
  have hdrop : w.lru.dropLast = ys := by rw [hys, List.dropLast_concat]
  rw [evict_of_clean hb hc]
  have hnode : ∀ k, { w with lru := w.lru.dropLast, index := w.unmap (w.heap b).key }.node? k =
      if k = (w.heap b).key then none else w.node? k := fun k => by
    show { w with index := w.unmap (w.heap b).key }.node? k = _
    rw [node?_unmap]
  refine ⟨⟨?_, ?_, ?_, ?_⟩, fun key hk => by rw [hnode, hk]; split <;> rfl⟩
  · show w.lru.dropLast.Nodup
    rw [hdrop]
    exact (List.nodup_append.1 hnd).1
  · intro m hm
    exact hi.fresh m (List.dropLast_subset _ hm)
  · intro k m
    rw [hnode]
    show _ ↔ m ∈ w.lru.dropLast ∧ (w.heap m).key = k
    rw [hdrop]
    by_cases hkb : k = (w.heap b).key
    · -- no other node has the key of the node evicted
      rw [if_pos hkb]
      refine ⟨fun h => (by cases h), fun ⟨hm, hkm⟩ => absurd ?_ hbys⟩
      have hmem : m ∈ w.lru := by rw [hys]; exact List.mem_append_left _ hm
      rw [← hi.eq_of_key hbmem hmem (hkm.trans hkb)]
      exact hm
    · rw [if_neg hkb, hi.node, hys, List.mem_append, List.mem_singleton]
      constructor
      · rintro ⟨hm | rfl, hkm⟩
        · exact ⟨hm, hkm⟩
        · exact absurd hkm.symm hkb
      · rintro ⟨hm, hkm⟩
        exact ⟨.inl hm, hkm⟩
  · show w.dirty = (w.lru.dropLast.countP fun n => (w.heap n).dirty : Nat)
    rw [hi.count, hdrop, hys, List.countP_append, List.countP_singleton, hc]
    simp

end Inv

/-! ## Which way each operation goes -/

theorem get_of_node {n : Nat} (hk : w.node? key = some n) :
    w.get key = ({ w with lru := n :: w.lru.erase n, hits := w.hits + 1 }, some (w.heap n).value) := by
  simp only [get, hk]
  rfl

theorem get_of_none (hk : w.node? key = none) : w.get key = ({ w with misses := w.misses + 1 }, none) := by
  simp only [get, hk]

/-- A put of a cached key writes the new value into its node, moves the node to the front and
sets the mark if either the entry or the put is dirty. -/
theorem put_of_node {n : Nat} (hk : w.node? key = some n) :
    w.put key v d = (setDirty
      { w with lru := n :: w.lru.erase n, heap := write w.heap n { w.heap n with value := v } }
      n ((w.heap n).dirty || d), true) := by
  simp only [put, hk]
  rfl

theorem put_of_room (hk : w.node? key = none) (hroom : (w.lru.length : Int) < w.capacity) :
    w.put key v d = (w.link key v d, true) := by
  simp only [put, hk, ge_iff_le, if_neg (Int.not_le.2 hroom)]

theorem put_of_full {b : Nat} (hk : w.node? key = none) (hfull : w.capacity ≤ w.lru.length)
    (hb : w.lru.getLast? = some b) :
    w.put key v d = if (w.heap b).dirty then (w, false) else (w.evict.link key v d, true) := by
  cases hd : (w.heap b).dirty <;> simp only [put, hk, ge_iff_le, if_pos hfull, hb, hd] <;> rfl

theorem put_of_empty (hk : w.node? key = none) (hfull : w.capacity ≤ w.lru.length)
    (hb : w.lru.getLast? = none) : w.put key v d = (w, false) := by
  simp only [put, hk, ge_iff_le, if_pos hfull, hb]

theorem markClean_of_node {n : Nat} (hk : w.node? key = some n) :
    w.markClean key v = if (w.heap n).value == v then w.setDirty n false else w := by
  simp only [markClean, hk]

theorem markClean_of_none (hk : w.node? key = none) : w.markClean key v = w := by
  simp only [markClean, hk]

theorem remove_of_node {n : Nat} (hk : w.node? key = some n) :
    w.remove key = { w.setDirty n false with lru := w.lru.erase n, index := w.unmap key } := by
  simp only [remove, hk, setDirty_lru, unmap, setDirty_index]

theorem remove_of_none (hk : w.node? key = none) : w.remove key = w := by
  simp only [remove, hk]

theorem toCache_size (w : WriteBack) : w.toCache.size = w.size := List.length_map _

/-- Writing into a node of the list an entry with the key and the mark it had keeps the
invariant. -/
theorem Inv.rewrite (hi : w.Inv) (hn : n ∈ w.lru) (hkey : e.key = (w.heap n).key)
    (hd : e.dirty = (w.heap n).dirty) : { w with heap := write w.heap n e }.Inv where
  nodup := hi.nodup
  fresh := hi.fresh
  node k m := by
    show w.node? k = some m ↔ m ∈ w.lru ∧ (write w.heap n e m).key = k
    by_cases hm : m = n
    · subst hm
      rw [write_self, hkey, hi.node]
    · rw [write_of_ne hm, hi.node]
  count := by
    show w.dirty = (w.lru.countP fun m => (write w.heap n e m).dirty : Nat)
    have hw := countP_write (h := w.heap) (e := e) hi.nodup hn (fun e => e.dirty)
    rw [hd] at hw
    rw [hi.count]
    omega

/-! ## Each operation on the list of entries -/

section Refines

variable (hi : w.Inv)
include hi

theorem toCache_dirtyCount : w.toCache.dirtyCount = w.dirty.toNat := by
  rw [hi.count, Int.toNat_natCast]
  show ((w.lru.map w.heap).filter (·.dirty)).length = _
  rw [← List.countP_eq_length_filter, List.countP_map]
  rfl

theorem get_refines (key : ByteArray) :
    (w.get key).1.Inv ∧ (w.get key).1.toCache = (w.toCache.get key).1 ∧
      (w.get key).2 = (w.toCache.get key).2 := by
  have hf := hi.find?_toCache key
  cases hk : w.node? key with
  | none =>
    rw [hk, Option.map_none] at hf
    rw [get_of_none hk, Cache.get, hf]
    exact ⟨⟨hi.1, hi.2, hi.3, hi.4⟩, rfl, rfl⟩
  | some n =>
    -- a hit moves the node to the front: a reordering of the list
    obtain ⟨hn, -⟩ := (hi.node key n).1 hk
    rw [hk, Option.map_some] at hf
    rw [get_of_node hk, Cache.get, hf, hi.without_toCache hk]
    have hp := hi.perm (List.perm_cons_erase hn).symm
    exact ⟨⟨hp.1, hp.2, hp.3, hp.4⟩, rfl, rfl⟩

/-- A put acts on the list of entries as the list layer's put: a cached key's node is written
and moved to the front; a new key's node is linked in front, after the clean node at the back of
a full cache is evicted; a full cache whose last entry is dirty refuses. -/
theorem put_refines (key v : ByteArray) (d : Bool) :
    (w.put key v d).1.Inv ∧ (w.put key v d).1.toCache = (w.toCache.put key v d).1 ∧
      (w.put key v d).2 = (w.toCache.put key v d).2 := by
  have hf := hi.find?_toCache key
  cases hk : w.node? key with
  | some n =>
    obtain ⟨hn, hkey⟩ := (hi.node key n).1 hk
    rw [hk, Option.map_some] at hf
    have hout : n ∉ w.lru.erase n := hi.nodup.not_mem_erase
    -- the node moves to the front and takes the value, keeping its key and, until it is set,
    -- its mark
    have hmoved := (hi.perm (List.perm_cons_erase hn).symm).rewrite (n := n)
      (e := { w.heap n with value := v }) List.mem_cons_self rfl rfl
    have hcput : w.toCache.put key v d = ({ w.toCache with
        entries := ⟨key, v, (w.heap n).dirty || d⟩ :: (w.lru.erase n).map w.heap }, true) := by
      simp only [Cache.put, hf, hi.without_toCache hk]
    rw [put_of_node hk, hcput]
    refine ⟨hmoved.setDirty List.mem_cons_self _, ?_, rfl⟩
    simp only [toCache, setDirty_capacity, setDirty_maxValue, setDirty_lru, setDirty_hits,
      setDirty_misses, setDirty_heap, List.map_cons, write_self, map_write_of_not_mem hout]
    rw [← hkey]
  | none =>
    rw [hk, Option.map_none] at hf
    have hsize : (w.toCache.size : Int) = w.lru.length := by rw [toCache_size]; rfl
    have hlast : w.toCache.last? = w.lru.getLast?.map w.heap := List.getLast?_map
    have hcap : w.toCache.capacity = w.capacity := rfl
    have hout : w.fresh ∉ w.lru := fun h => Nat.lt_irrefl _ (hi.fresh _ h)
    by_cases hroom : (w.lru.length : Int) < w.capacity
    · -- room: a fresh node goes in front
      have hcput : w.toCache.put key v d =
          ({ w.toCache with entries := ⟨key, v, d⟩ :: w.toCache.entries }, true) := by
        simp only [Cache.put, hf, hsize, hcap, ge_iff_le, if_neg (Int.not_le.2 hroom)]
      rw [put_of_room hk hroom, hcput]
      exact ⟨hi.link hk v d, link_toCache hout, rfl⟩
    have hfull : w.capacity ≤ w.lru.length := Int.not_lt.1 hroom
    cases hb : w.lru.getLast? with
    | none =>
      have hcput : w.toCache.put key v d = (w.toCache, false) := by
        simp only [Cache.put, hf, hsize, hcap, ge_iff_le, if_pos hfull, hlast, hb, Option.map_none]
      rw [put_of_empty hk hfull hb, hcput]
      exact ⟨hi, rfl, rfl⟩
    | some b =>
      rw [put_of_full hk hfull hb]
      cases hc : (w.heap b).dirty with
      | true =>
        -- the entry at the back is dirty: both refuse
        have hcput : w.toCache.put key v d = (w.toCache, false) := by
          simp only [Cache.put, hf, hsize, hcap, ge_iff_le, if_pos hfull, hlast, hb, Option.map_some, hc,
            if_true]
        rw [if_pos rfl, hcput]
        exact ⟨hi, rfl, rfl⟩
      | false =>
        -- the clean entry at the back is evicted and a fresh node goes in front
        obtain ⟨hev, hevk⟩ := hi.evict hb hc
        have hcput : w.toCache.put key v d =
            ({ w.toCache with entries := ⟨key, v, d⟩ :: w.toCache.entries.dropLast }, true) := by
          simp only [Cache.put, hf, hsize, hcap, ge_iff_le, if_pos hfull, hlast, hb, Option.map_some, hc,
            Bool.false_eq_true, if_false]
        have hout' : w.evict.fresh ∉ w.evict.lru := fun h => Nat.lt_irrefl _ (hev.fresh _ h)
        rw [if_neg Bool.false_ne_true, hcput]
        refine ⟨hev.link (hevk key hk) v d, ?_, rfl⟩
        rw [link_toCache hout', evict_of_clean hb hc]
        simp only [toCache, List.map_dropLast]

/-- Marking clean acts on the list of entries as the list layer does: the entry of the key loses
its mark while it holds the value written back. -/
theorem markClean_refines (key v : ByteArray) :
    (w.markClean key v).Inv ∧ (w.markClean key v).toCache = w.toCache.markClean key v := by
  cases hk : w.node? key with
  | none =>
    -- no entry has the key, so no entry changes
    rw [markClean_of_none hk]
    refine ⟨hi, ?_⟩
    unfold Cache.markClean
    rw [Cache.map_markClean_of_ne fun e he => by
      obtain ⟨m, hm, rfl⟩ := List.mem_map.1 he
      exact hi.key_ne_of_none hk hm]
  | some n =>
    obtain ⟨hn, hkey⟩ := (hi.node key n).1 hk
    -- the node of the key is the only one the list layer's marking can touch
    have hother : ∀ m ∈ w.lru, m ≠ n → ((w.heap m).key == key) = false := fun m hm hmn => by
      rw [← Bool.not_eq_true, ByteArray.beq_eq_true_iff]
      exact fun h => hmn (hi.eq_of_key hn hm (h.trans hkey.symm))
    have hself : ((w.heap n).key == key) = true := ByteArray.beq_eq_true_iff.2 hkey
    rw [markClean_of_node hk]
    split
    · next hv =>
      refine ⟨hi.setDirty hn false, ?_⟩
      simp only [toCache, setDirty_capacity, setDirty_maxValue, setDirty_lru, setDirty_hits,
        setDirty_misses, setDirty_heap, Cache.markClean, List.map_map, Cache.mk.injEq, true_and,
        and_true]
      apply List.map_congr_left
      intro m hm
      by_cases hmn : m = n
      · subst hmn
        simp [hself, hv]
      · simp [hmn, hother m hm hmn]
    · next hv =>
      refine ⟨hi, ?_⟩
      simp only [toCache, Cache.markClean, List.map_map, Cache.mk.injEq, true_and, and_true]
      apply (List.map_congr_left _).symm
      intro m hm
      by_cases hmn : m = n
      · subst hmn
        simp [hself, hv]
      · simp [hother m hm hmn]

/-- A removal acts on the list of entries as the list layer does: the node of the key is
unlinked, its mark cleared first. -/
theorem remove_refines (key : ByteArray) :
    (w.remove key).Inv ∧ (w.remove key).toCache = w.toCache.remove key := by
  have hf := hi.find?_toCache key
  cases hk : w.node? key with
  | none =>
    rw [hk, Option.map_none] at hf
    rw [remove_of_none hk]
    refine ⟨hi, ?_⟩
    show w.toCache = { w.toCache with entries := w.toCache.without key }
    rw [Cache.without_of_find?_none hf]
  | some n =>
    obtain ⟨hn, hkey⟩ := (hi.node key n).1 hk
    have hout : n ∉ w.lru.erase n := hi.nodup.not_mem_erase
    have hs := hi.setDirty hn false
    rw [remove_of_node hk]
    refine ⟨⟨?_, ?_, ?_, ?_⟩, ?_⟩
    · exact hi.nodup.erase n
    · intro m hm
      show m < (w.setDirty n false).fresh
      rw [setDirty_fresh]
      exact hi.fresh m (List.erase_subset hm)
    · intro k m
      show { w with index := w.unmap key }.node? k = some m ↔
        m ∈ w.lru.erase n ∧ ((w.setDirty n false).heap m).key = k
      rw [node?_unmap, setDirty_heap, hi.nodup.mem_erase_iff]
      by_cases hmn : m = n
      · -- the node unlinked is not in the list, and it was the node of the key
        subst hmn
        rw [write_self]
        split
        · exact ⟨fun h => (by cases h), fun h => (h.1.1 rfl).elim⟩
        · next hkk =>
          rw [hi.node]
          exact ⟨fun h => absurd (h.2.symm.trans hkey) hkk, fun h => (h.1.1 rfl).elim⟩
      · rw [write_of_ne hmn]
        split
        · next hkk =>
          subst hkk
          exact ⟨fun h => (by cases h),
            fun h => absurd (hi.eq_of_key hn h.1.2 (h.2.trans hkey.symm)) hmn⟩
        · rw [hi.node]
          exact ⟨fun h => ⟨⟨hmn, h.1⟩, h.2⟩, fun h => ⟨h.1.2, h.2⟩⟩
    · -- the count loses the mark of the node unlinked, which the mark clearing took
      show (w.setDirty n false).dirty =
        ((w.lru.erase n).countP fun m => ((w.setDirty n false).heap m).dirty : Nat)
      rw [hs.count, setDirty_lru, (List.perm_cons_erase hn).countP_eq, List.countP_cons,
        setDirty_heap, write_self]
      simp
    · unfold Cache.remove
      rw [hi.without_toCache hk]
      simp only [toCache, setDirty_capacity, setDirty_maxValue, setDirty_hits, setDirty_misses,
        setDirty_heap, map_write_of_not_mem hout]

theorem holds_eq (key v : ByteArray) : w.holds key v = w.toCache.holds key v := by
  unfold holds Cache.holds
  rw [hi.find?_toCache]
  cases w.node? key <;> rfl

theorem victim_eq (key : ByteArray) : w.victim key = w.toCache.victim key := by
  unfold victim Cache.victim Cache.last?
  rw [hi.find?_toCache, Option.isSome_map, toCache_size]
  simp only [toCache, List.getLast?_map]
  rfl

end Refines

theorem clear_refines (w : WriteBack) : w.clear.Inv ∧ w.clear.toCache = w.toCache.clear :=
  ⟨⟨List.nodup_nil, fun _ h => absurd h List.not_mem_nil,
    fun _ _ => ⟨fun h => by simp [node?, clear] at h, fun h => absurd h.1 List.not_mem_nil⟩, rfl⟩,
    rfl⟩

theorem dirtyEntries_eq (w : WriteBack) : w.dirtyEntries = w.toCache.dirtyEntries := by
  unfold dirtyEntries Cache.dirtyEntries toCache
  rw [List.map_reverse, List.filter_reverse]

end NorStore.Storage.WriteBack

namespace NorStore.Bench.CacheStep

open Storage WriteBack

variable {w : WriteBack}

/-- The cache as it is kept after a run of steps. -/
def runAllOn (w : WriteBack) (steps : List CacheStep) : WriteBack :=
  steps.foldl (fun w s => (s.runOn w).1) w

/-- One step on the cache as it is kept keeps its invariant and answers, and leaves, what the
same step on its list of entries answers and leaves. -/
theorem runOn_refines (hi : w.Inv) (s : CacheStep) :
    (s.runOn w).1.Inv ∧ (s.runOn w).1.toCache = (s.run w.toCache).1 ∧
      (s.runOn w).2 = (s.run w.toCache).2 := by
  cases s with
  | fits n => exact ⟨hi, rfl, rfl⟩
  | get key =>
    obtain ⟨h1, h2, h3⟩ := get_refines hi key
    exact ⟨h1, h2, by simp only [runOn, run, h3]⟩
  | peek key => exact ⟨hi, rfl, by simp only [runOn, run, WriteBack.peek, hi.find?_toCache]⟩
  | equal key data => exact ⟨hi, rfl, by simp only [runOn, run, holds_eq hi]⟩
  | victim key => exact ⟨hi, rfl, by simp only [runOn, run, victim_eq hi]⟩
  | put key data d =>
    obtain ⟨h1, h2, h3⟩ := put_refines hi key data d
    exact ⟨h1, h2, by simp only [runOn, run, h3]⟩
  | markClean key data =>
    obtain ⟨h1, h2⟩ := markClean_refines hi key data
    exact ⟨h1, h2, rfl⟩
  | dirty => exact ⟨hi, rfl, by simp only [runOn, run, dirtyEntries_eq]⟩
  | remove key =>
    obtain ⟨h1, h2⟩ := remove_refines hi key
    exact ⟨h1, h2, rfl⟩
  | clear => exact ⟨(clear_refines w).1, (clear_refines w).2, rfl⟩
  | stats =>
    refine ⟨hi, rfl, ?_⟩
    simp only [runOn, run, Cache.statsReply, toCache_size, toCache_dirtyCount hi]
    rfl
  | health capacity => exact ⟨hi, rfl, rfl⟩

/-- A run of steps on the cache as it is kept keeps its invariant and leaves, as its list of
entries, what the same run leaves on the list layer. -/
theorem runAllOn_refines (hi : w.Inv) (steps : List CacheStep) :
    (runAllOn w steps).Inv ∧ (runAllOn w steps).toCache = runAll w.toCache steps := by
  induction steps generalizing w with
  | nil => exact ⟨hi, rfl⟩
  | cons s steps ih =>
    -- one step, then the rest from the cache it leaves
    obtain ⟨h1, h2, -⟩ := runOn_refines hi s
    obtain ⟨h3, h4⟩ := ih h1
    exact ⟨h3, h4.trans (by rw [h2]; rfl)⟩

/-- The write-back cache keeps its three pieces of state in agreement and behaves as a list of
entries in recency order. For every capacity and value bound, zero and negative ones included,
and every run of steps from an empty cache:
* the representation invariant holds (`WriteBack.Inv`): the key map and the recency list hold
  the same keys, one node a key, and the count of dirty entries is the number of dirty entries;
* the entries of the recency list are what the same run leaves on the list layer, and every next
  step answers as it does there and leaves there what it leaves;
* so the cache holds at most `max capacity 0` entries and acts as a recency list
  (`Cache.Recency`): a hit moves its entry to the front, a put of a new key into a full cache
  evicts the victim exactly when it is clean and otherwise refuses with nothing changed, marking
  clean needs the value the entry holds, and the dirty entries are listed least recently used
  first;
* its hits and misses add up to the lookups since the last clear, and a dirty entry leaves only
  when it is marked clean with the value it holds, removed or cleared. -/
theorem writeBack_refines (capacity maxValue : Int) (steps : List CacheStep) :
    let w := runAllOn (WriteBack.create capacity maxValue) steps
    w.Inv ∧
      (∀ key, (w.node? key).isSome ↔ key ∈ w.toCache.entries.map (·.key)) ∧
      w.dirty = (w.toCache.entries.filter (·.dirty)).length ∧
      w.toCache = runAll (Cache.create capacity maxValue) steps ∧
      (∀ s : CacheStep, (s.runOn w).2 = (s.run w.toCache).2 ∧
        (s.runOn w).1.toCache = (s.run w.toCache).1) ∧
      (w.size : Int) ≤ max capacity 0 ∧ w.toCache.Recency ∧ w.hits + w.misses = lookups steps ∧
      ∀ (s : CacheStep) (e : CacheEntry), e ∈ w.toCache.entries → e.dirty = true →
        (∃ e' ∈ (s.runOn w).1.toCache.entries, e'.key = e.key ∧ e'.dirty = true) ∨
          s = .markClean e.key e.value ∨ s = .remove e.key ∨ s = .clear := by
  intro w
  obtain ⟨hi, hc⟩ := runAllOn_refines (Inv.create capacity maxValue) steps
  rw [toCache_create] at hc
  obtain ⟨hnd, hsize, hrec, hcount, hkept⟩ := runAll_recency capacity maxValue steps
  rw [← hc] at hnd hsize hrec hcount hkept
  refine ⟨hi, fun key => ?_, ?_, hc, fun s => ?_, by rw [← toCache_size]; exact hsize, hrec,
    hcount, fun s e he hd => ?_⟩
  · -- a key is mapped exactly when an entry of the list has it
    constructor
    · intro hk
      obtain ⟨n, hn⟩ := Option.isSome_iff_exists.1 hk
      obtain ⟨hmem, hkey⟩ := (hi.node key n).1 hn
      exact List.mem_map.2 ⟨w.heap n, List.mem_map_of_mem hmem, hkey⟩
    · intro hk
      obtain ⟨e, he, rfl⟩ := List.mem_map.1 hk
      obtain ⟨n, hn, rfl⟩ := List.mem_map.1 he
      rw [hi.node?_of_mem hn]
      rfl
  · -- the count is the number of dirty entries on the list
    rw [hi.count, List.countP_eq_length_filter]
    show _ = (((w.lru.map w.heap).filter (·.dirty)).length : Int)
    rw [List.filter_map, List.length_map]
    rfl
  · obtain ⟨-, h2, h3⟩ := runOn_refines hi s
    exact ⟨h3, h2⟩
  · obtain ⟨-, h2, -⟩ := runOn_refines hi s
    rw [h2]
    exact hkept s e he hd

end NorStore.Bench.CacheStep
