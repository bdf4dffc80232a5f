import NorStore.Bench.Cache
import NorStore.Proofs.Cache

/-!
# The cache as a recency list

A write-back cache is a list of entries, most recently used first. Its shape (`Cache.Wf`) is
one entry a key and no more entries than its capacity allows, a negative capacity counting as
none. Every step a cache offers keeps that shape (`CacheStep.wf_run`), whatever its capacity
and value bound, zero and negative ones included.

On a cache of that shape each operation acts on the list as a least-recently-used cache does
(`Cache.Recency`):

* a lookup finds the one entry of its key, and a hit moves that entry to the front, the others
  keeping their order (`get_of_find?`);
* a put of a cached key replaces its entry and moves it to the front, dirty if either was
  (`put_of_find?`). A new key goes in front, in place of the least recently used entry when
  the cache is full. That entry is the one `victim` names, and when it is dirty the put refuses
  and changes nothing (`put_of_victim`); with no victim the put takes the key whenever the cache
  takes anything (`put_of_room`);
* `markClean` clears the mark of the entry of its key while that entry holds the value written
  back, and otherwise changes nothing (`markClean_of_find?`, `markClean_of_value_ne`);
* the dirty entries are listed least recently used first, as many as `dirtyCount` says.

So a dirty entry leaves only when it is marked clean with the value it holds, removed or
cleared (`CacheStep.dirty_kept`), and the hit and miss counts add up to the lookups made since
the last clear (`CacheStep.counts_runAll`). `CacheStep.runAll_recency` states all of it for
every run of steps from an empty cache.
-/

namespace NorStore.Storage.Cache

/-- The shape a cache keeps: one entry a key, and no more entries than its capacity, a negative
capacity allowing none. -/
structure Wf (c : Cache) : Prop where
  nodup : (c.entries.map (·.key)).Nodup
  size_le : (c.size : Int) ≤ max c.capacity 0

variable {c : Cache} {key v : ByteArray} {d : Bool} {e : CacheEntry}

theorem filter_key_of_ne {l : List CacheEntry} (h : ∀ e ∈ l, e.key ≠ key) :
    l.filter (·.key != key) = l :=
  List.filter_eq_self.2 fun e he => ByteArray.bne_eq_true_iff.2 (h e he)

theorem map_markClean_of_ne {l : List CacheEntry} (h : ∀ e ∈ l, e.key ≠ key) :
    l.map (fun e => if e.key == key && e.value == v then { e with dirty := false } else e) = l := by
  conv_rhs => rw [← List.map_id l]
  apply List.map_congr_left
  intro e he
  have hk : (e.key == key) = false := by
    rw [← Bool.not_eq_true, ByteArray.beq_eq_true_iff]
    exact h e he
  rw [hk, Bool.false_and, if_neg Bool.false_ne_true, id]

/-- The entry a lookup finds splits the entries, and no entry before or after it has its key. -/
theorem split_of_find? (hwf : c.Wf) (h : c.find? key = some e) :
    ∃ pre post, c.entries = pre ++ e :: post ∧ e.key = key ∧ (∀ e' ∈ pre, e'.key ≠ key) ∧
      ∀ e' ∈ post, e'.key ≠ key := by
  obtain ⟨hk, pre, post, hsplit, hpre⟩ := List.find?_eq_some_iff_append.1 h
  have hkey : e.key = key := ByteArray.beq_eq_true_iff.1 hk
  refine ⟨pre, post, hsplit, hkey, fun e' he' => ?_, fun e' he' hk' => ?_⟩
  · rw [← ByteArray.bne_eq_true_iff]
    exact hpre e' he'
  · -- a later entry of the key would repeat the key in the list of keys
    have hnd := hwf.nodup
    rw [hsplit, List.map_append, List.map_cons] at hnd
    have hout := (List.nodup_cons.1 (List.nodup_append.1 hnd).2.1).1
    exact hout (hkey ▸ hk' ▸ List.mem_map_of_mem he')

/-- A lookup finds exactly the entry of its key. -/
theorem find?_eq_some_iff (hwf : c.Wf) : c.find? key = some e ↔ e ∈ c.entries ∧ e.key = key := by
  constructor
  · exact find?_key_eq
  · rintro ⟨he, rfl⟩
    cases hf : c.find? e.key with
    | none => exact absurd (List.mem_map_of_mem he) (find?_eq_none_iff.1 hf)
    | some e' =>
      obtain ⟨he', hk⟩ := find?_key_eq hf
      rw [List.inj_on_of_nodup_map hwf.nodup he' he hk]

/-- Dropping a key drops its entry alone. -/
theorem without_of_find? (hwf : c.Wf) (h : c.find? key = some e) :
    ∃ pre post, c.entries = pre ++ e :: post ∧ c.without key = pre ++ post := by
  obtain ⟨pre, post, hsplit, hkey, hpre, hpost⟩ := split_of_find? hwf h
  refine ⟨pre, post, hsplit, ?_⟩
  have he : (e.key != key) = false := by
    rw [← Bool.not_eq_true, ByteArray.bne_eq_true_iff, not_not, hkey]
  rw [without, hsplit, List.filter_append, List.filter_cons_of_neg (by rw [he]; decide),
    filter_key_of_ne hpre, filter_key_of_ne hpost]

/-- Without an entry of its key, dropping a key changes nothing. -/
theorem without_of_find?_none (h : c.find? key = none) : c.without key = c.entries :=
  filter_key_of_ne fun _ he hk => find?_eq_none_iff.1 h (hk ▸ List.mem_map_of_mem he)

/-- A hit moves the entry to the front and counts; the other entries keep their order. -/
theorem get_of_find? (hwf : c.Wf) (h : c.find? key = some e) :
    ∃ pre post, c.entries = pre ++ e :: post ∧
      c.get key = ({ c with entries := e :: (pre ++ post), hits := c.hits + 1 }, some e.value) := by
  obtain ⟨pre, post, hsplit, hw⟩ := without_of_find? hwf h
  exact ⟨pre, post, hsplit, by rw [get_of_find?_some h, hw]⟩

/-- A put of a cached key replaces its entry in front, dirty if either the entry or the put
was. -/
theorem put_of_find? (hwf : c.Wf) (h : c.find? key = some e) :
    ∃ pre post, c.entries = pre ++ e :: post ∧
      c.put key v d = ({ c with entries := ⟨key, v, e.dirty || d⟩ :: (pre ++ post) }, true) := by
  obtain ⟨pre, post, hsplit, hw⟩ := without_of_find? hwf h
  exact ⟨pre, post, hsplit, by simp only [put, h, hw]⟩

/-- The victim of a new key in a full cache is its least recently used entry. -/
theorem victim_of_full (h : c.find? key = none) (hfull : c.capacity ≤ c.size) :
    c.victim key = c.entries.getLast? := by
  simp [victim, h, not_lt.2 hfull, last?]

/-- A new key without a victim meets a cache with room, or an empty one. -/
theorem room_of_victim_none (h : c.find? key = none) (hv : c.victim key = none) :
    (c.size : Int) < c.capacity ∨ c.entries = [] := by
  by_cases hlt : (c.size : Int) < c.capacity
  · exact .inl hlt
  · rw [victim_of_full h (not_lt.1 hlt), List.getLast?_eq_none_iff] at hv
    exact .inr hv

/-- A put with a victim takes its place when it is clean; a dirty victim makes the put refuse
and change nothing. -/
theorem put_of_victim (h : c.victim key = some e) :
    ∃ kept, c.entries = kept ++ [e] ∧
      c.put key v d =
        if e.dirty then (c, false) else ({ c with entries := ⟨key, v, d⟩ :: kept }, true) := by
  unfold victim at h
  split at h
  · exact absurd h (Option.some_ne_none e).symm
  · rename_i hcond
    -- a victim is named only for a new key in a full cache
    have hf : c.find? key = none := by
      cases hf : c.find? key with
      | none => rfl
      | some _ => simp [hf] at hcond
    have hfull : c.capacity ≤ c.size := by
      by_contra hlt
      simp [hf, not_le.1 hlt] at hcond
    refine ⟨c.entries.dropLast, (List.dropLast_append_getLast? e h).symm, ?_⟩
    cases hd : e.dirty <;> simp [put, hf, hfull, h, hd]

/-- A put of a new key without a victim goes in front of every entry, when the cache takes any
entry at all. -/
theorem put_of_room (h : c.find? key = none) (hv : c.victim key = none) :
    c.put key v d =
      if 0 < c.capacity then ({ c with entries := ⟨key, v, d⟩ :: c.entries }, true)
      else (c, false) := by
  rcases room_of_victim_none h hv with hlt | hnil
  · have hpos : 0 < c.capacity := lt_of_le_of_lt (Int.natCast_nonneg _) hlt
    simp [put, h, hpos, not_le.2 hlt]
  · have hsize : c.size = 0 := by rw [size, hnil, List.length_nil]
    by_cases hpos : 0 < c.capacity
    · simp [put, h, hsize, not_le.2 hpos]
    · simp [put, h, hpos, hsize, not_lt.1 hpos, last?, hnil]

/-- Marking clean the value an entry holds clears that entry's mark alone. -/
theorem markClean_of_find? (hwf : c.Wf) (h : c.find? key = some e) (hv : e.value = v) :
    ∃ pre post, c.entries = pre ++ e :: post ∧
      c.markClean key v = { c with entries := pre ++ { e with dirty := false } :: post } := by
  obtain ⟨pre, post, hsplit, hkey, hpre, hpost⟩ := split_of_find? hwf h
  refine ⟨pre, post, hsplit, ?_⟩
  have hmark : (e.key == key && e.value == v) = true := by
    rw [Bool.and_eq_true_iff, ByteArray.beq_eq_true_iff, ByteArray.beq_eq_true_iff]
    exact ⟨hkey, hv⟩
  simp only [markClean, hsplit, List.map_append, List.map_cons, map_markClean_of_ne hpre,
    map_markClean_of_ne hpost, hmark, if_true]

/-- Marking clean a value the key does not hold changes nothing. -/
theorem markClean_of_value_ne (hwf : c.Wf) (h : ∀ e, c.find? key = some e → e.value ≠ v) :
    c.markClean key v = c := by
  have hmap : c.entries.map
      (fun e => if e.key == key && e.value == v then { e with dirty := false } else e) =
      c.entries := by
    conv_rhs => rw [← List.map_id c.entries]
    apply List.map_congr_left
    intro e he
    rw [if_neg, id]
    intro hm
    obtain ⟨hk, hval⟩ := Bool.and_eq_true_iff.1 hm
    exact h e ((find?_eq_some_iff hwf).2 ⟨he, ByteArray.beq_eq_true_iff.1 hk⟩)
      (ByteArray.beq_eq_true_iff.1 hval)
  simp only [markClean, hmap]

/-- Marking clean keeps every key where it is. -/
theorem markClean_keys : (c.markClean key v).entries.map (·.key) = c.entries.map (·.key) := by
  simp only [markClean, List.map_map]
  apply List.map_congr_left
  intro e _
  simp only [Function.comp_apply]
  split <;> rfl

/-- Removing a key drops its entry alone. -/
theorem remove_of_find? (hwf : c.Wf) (h : c.find? key = some e) :
    ∃ pre post, c.entries = pre ++ e :: post ∧ c.remove key = { c with entries := pre ++ post } := by
  obtain ⟨pre, post, hsplit, hw⟩ := without_of_find? hwf h
  exact ⟨pre, post, hsplit, by rw [remove, hw]⟩

/-- Read back in reverse, the dirty entries are entries in recency order. -/
theorem dirtyEntries_reverse_sublist : c.dirtyEntries.reverse.Sublist c.entries := by
  rw [dirtyEntries, List.reverse_reverse]
  exact List.filter_sublist

theorem length_dirtyEntries : c.dirtyEntries.length = c.dirtyCount := by
  rw [dirtyEntries, List.length_reverse, dirtyCount]

/-! ## What each operation keeps -/

/-- Only the entries change in a put. -/
theorem put_fst_eq (c : Cache) (key v : ByteArray) (d : Bool) :
    ∃ es, (c.put key v d).1 = { c with entries := es } := by
  unfold put
  split
  · exact ⟨_, rfl⟩
  · -- a new key: the put either takes an entry list or leaves the cache as it is
    dsimp only
    split
    · exact ⟨_, rfl⟩
    · exact ⟨c.entries, rfl⟩

theorem capacity_get (c : Cache) (key : ByteArray) : (c.get key).1.capacity = c.capacity := by
  unfold get
  split <;> rfl

theorem Wf.create (capacity maxValue : Int) : (Cache.create capacity maxValue).Wf where
  nodup := List.nodup_nil
  size_le := le_max_right _ _

/-- A cache whose entries are some of another's, in any order, keeps its shape. -/
theorem Wf.of_subperm {c' : Cache} (hwf : c.Wf) (hs : c'.entries.Subperm c.entries)
    (hcap : c'.capacity = c.capacity) : c'.Wf := by
  obtain ⟨l, hp, hsub⟩ := hs
  refine ⟨(hp.map _).nodup_iff.1 (hwf.nodup.sublist (hsub.map _)), ?_⟩
  rw [hcap, size, ← hp.length_eq]
  exact le_trans (Int.ofNat_le.2 hsub.length_le) hwf.size_le

/-- A new entry in front of some of the entries keeps the shape, when its key is not among
them and the cache has room for one more. -/
theorem Wf.push (hwf : c.Wf) {kept : List CacheEntry} (hs : kept.Sublist c.entries)
    (hout : ∀ e ∈ kept, e.key ≠ key) (hroom : (kept.length : Int) < max c.capacity 0) :
    ({ c with entries := ⟨key, v, d⟩ :: kept } : Cache).Wf where
  nodup := by
    refine List.nodup_cons.2 ⟨fun hmem => ?_, hwf.nodup.sublist (hs.map _)⟩
    obtain ⟨e, he, hk⟩ := List.mem_map.1 hmem
    exact hout e he hk
  size_le := by
    simp only [size, List.length_cons]
    omega

theorem Wf.get (hwf : c.Wf) (key : ByteArray) : (c.get key).1.Wf := by
  cases hf : c.find? key with
  | none => rw [get_of_find?_none hf]; exact ⟨hwf.nodup, hwf.size_le⟩
  | some e =>
    obtain ⟨pre, post, hsplit, hget⟩ := get_of_find? hwf hf
    rw [hget]
    -- the entry moves to the front: the same entries in another order
    refine hwf.of_subperm ?_ rfl
    rw [hsplit]
    exact List.perm_middle.symm.subperm

theorem Wf.put (hwf : c.Wf) (key v : ByteArray) (d : Bool) : (c.put key v d).1.Wf := by
  cases hf : c.find? key with
  | some e =>
    -- the key's entry leaves the others and comes back in front
    have hput : (c.put key v d).1 = { c with entries := ⟨key, v, e.dirty || d⟩ :: c.without key } := by
      simp only [Cache.put, hf]
    rw [hput]
    have hshort : (c.without key).length < c.entries.length :=
      List.length_filter_lt_length_iff_exists.2
        ⟨e, (find?_key_eq hf).1, by rw [ByteArray.bne_eq_true_iff, not_not]; exact (find?_key_eq hf).2⟩
    refine hwf.push List.filter_sublist (fun e' he' => (mem_without.1 he').2) ?_
    have := hwf.size_le
    simp only [size] at this
    omega
  | none =>
    have hout : ∀ e ∈ c.entries, e.key ≠ key := fun e he hk =>
      find?_eq_none_iff.1 hf (hk ▸ List.mem_map_of_mem he)
    cases hv : c.victim key with
    | some e =>
      obtain ⟨kept, hsplit, hput⟩ := put_of_victim (v := v) (d := d) hv
      rw [hput]
      split
      · exact hwf
      · -- the victim makes room for the new entry
        have hlen : c.entries.length = kept.length + 1 := by rw [hsplit]; simp
        have hkept : kept.Sublist c.entries := hsplit ▸ List.sublist_append_left _ _
        refine hwf.push hkept (fun e he => hout e (hkept.subset he)) ?_
        have := hwf.size_le
        simp only [size] at this
        omega
    | none =>
      rw [put_of_room hf hv]
      split
      · rename_i hpos
        refine hwf.push (List.Sublist.refl _) hout ?_
        rcases room_of_victim_none hf hv with hlt | hnil
        · exact lt_of_lt_of_le hlt (le_max_left _ _)
        · rw [hnil, List.length_nil]
          exact lt_of_lt_of_le hpos (le_max_left _ _)
      · exact hwf

theorem Wf.markClean (hwf : c.Wf) (key v : ByteArray) : (c.markClean key v).Wf where
  nodup := by
    rw [markClean_keys]
    exact hwf.nodup
  size_le := by
    have hlen : (c.markClean key v).size = c.size := by simp [Cache.markClean, size]
    rw [hlen]
    exact hwf.size_le

theorem Wf.remove (hwf : c.Wf) (key : ByteArray) : (c.remove key).Wf :=
  hwf.of_subperm List.filter_sublist.subperm rfl

theorem Wf.clear (c : Cache) : c.clear.Wf where
  nodup := List.nodup_nil
  size_le := by simp [Cache.clear, size]

/-- A put keeps the key of every dirty entry dirty. -/
theorem dirty_put (hwf : c.Wf) (he : e ∈ c.entries) (hd : e.dirty = true) (key v : ByteArray)
    (d : Bool) : ∃ e' ∈ (c.put key v d).1.entries, e'.key = e.key ∧ e'.dirty = true := by
  cases hf : c.find? key with
  | some e₀ =>
    obtain ⟨pre, post, hsplit, hput⟩ := put_of_find? (v := v) (d := d) hwf hf
    rw [hput]
    by_cases hk : e.key = key
    · -- the dirty entry is the entry of the key, and the put keeps it dirty
      have he₀ : e₀ = e := Option.some.inj (hf.symm.trans ((find?_eq_some_iff hwf).2 ⟨he, hk⟩))
      refine ⟨_, List.mem_cons_self, hk.symm, ?_⟩
      rw [he₀, hd, Bool.true_or]
    · have hne : e ≠ e₀ := fun h => hk (h ▸ (find?_key_eq hf).2)
      rw [hsplit, List.mem_append, List.mem_cons] at he
      refine ⟨e, List.mem_cons_of_mem _ (List.mem_append.2 ?_), rfl, hd⟩
      rcases he with h | h | h
      · exact .inl h
      · exact absurd h hne
      · exact .inr h
  | none =>
    cases hv : c.victim key with
    | some e₀ =>
      obtain ⟨kept, hsplit, hput⟩ := put_of_victim (v := v) (d := d) hv
      rw [hput]
      split
      · exact ⟨e, he, rfl, hd⟩
      · -- only a clean victim is pushed out
        rename_i hd₀
        rw [hsplit, List.mem_append, List.mem_singleton] at he
        rcases he with h | rfl
        · exact ⟨e, List.mem_cons_of_mem _ h, rfl, hd⟩
        · exact absurd hd hd₀
    | none =>
      rw [put_of_room hf hv]
      split
      · exact ⟨e, List.mem_cons_of_mem _ he, rfl, hd⟩
      · exact ⟨e, he, rfl, hd⟩

/-- A lookup keeps every entry. -/
theorem mem_get (hwf : c.Wf) (he : e ∈ c.entries) (key : ByteArray) :
    e ∈ (c.get key).1.entries := by
  cases hf : c.find? key with
  | none => rwa [get_of_find?_none hf]
  | some e₀ =>
    obtain ⟨pre, post, hsplit, hget⟩ := get_of_find? hwf hf
    rw [hget]
    rw [hsplit] at he
    exact List.perm_middle.subset he

/-- How a cache answers each operation when it holds one entry a key: as a list of entries,
most recently used first. -/
structure Recency (c : Cache) : Prop where
  /-- A lookup finds the one entry of its key. -/
  find?_iff : ∀ key e, c.find? key = some e ↔ e ∈ c.entries ∧ e.key = key
  /-- A hit moves its entry to the front and counts; the other entries keep their order. -/
  get_hit : ∀ key e, c.find? key = some e → ∃ pre post, c.entries = pre ++ e :: post ∧
    c.get key = ({ c with entries := e :: (pre ++ post), hits := c.hits + 1 }, some e.value)
  /-- A put of a cached key replaces its entry in front, dirty if either was. -/
  put_hit : ∀ key v d e, c.find? key = some e → ∃ pre post, c.entries = pre ++ e :: post ∧
    c.put key v d = ({ c with entries := ⟨key, v, e.dirty || d⟩ :: (pre ++ post) }, true)
  /-- The victim of a new key in a full cache is the least recently used entry. -/
  victim_full : ∀ key, c.find? key = none → c.capacity ≤ c.size →
    c.victim key = c.entries.getLast?
  /-- A put replaces a clean victim, and refuses with nothing changed over a dirty one. -/
  put_victim : ∀ key v d e, c.victim key = some e → ∃ kept, c.entries = kept ++ [e] ∧
    c.put key v d =
      if e.dirty then (c, false) else ({ c with entries := ⟨key, v, d⟩ :: kept }, true)
  /-- Without a victim a new key goes in front, when the cache takes any entry. -/
  put_room : ∀ key v d, c.find? key = none → c.victim key = none →
    c.put key v d =
      if 0 < c.capacity then ({ c with entries := ⟨key, v, d⟩ :: c.entries }, true)
      else (c, false)
  /-- Marking clean the value an entry holds clears that entry's mark alone. -/
  markClean_hit : ∀ key v e, c.find? key = some e → e.value = v →
    ∃ pre post, c.entries = pre ++ e :: post ∧
      c.markClean key v = { c with entries := pre ++ { e with dirty := false } :: post }
  /-- Marking clean any other value changes nothing. -/
  markClean_miss : ∀ key v, (∀ e, c.find? key = some e → e.value ≠ v) → c.markClean key v = c
  /-- Removing a key drops its entry alone. -/
  remove_hit : ∀ key e, c.find? key = some e → ∃ pre post, c.entries = pre ++ e :: post ∧
    c.remove key = { c with entries := pre ++ post }
  /-- The dirty entries listed are exactly the entries marked dirty. -/
  dirty_iff : ∀ e, e ∈ c.dirtyEntries ↔ e ∈ c.entries ∧ e.dirty = true
  /-- They are listed least recently used first. -/
  dirty_order : c.dirtyEntries.reverse.Sublist c.entries
  /-- The count of dirty entries is the length of that list. -/
  dirty_count : c.dirtyEntries.length = c.dirtyCount

/-- A cache of the right shape behaves as a recency list. -/
theorem Wf.recency (hwf : c.Wf) : c.Recency where
  find?_iff _ _ := find?_eq_some_iff hwf
  get_hit _ _ h := get_of_find? hwf h
  put_hit _ _ _ _ h := put_of_find? hwf h
  victim_full _ h hfull := victim_of_full h hfull
  put_victim _ _ _ _ h := put_of_victim h
  put_room _ _ _ h hv := put_of_room h hv
  markClean_hit _ _ _ h hv := markClean_of_find? hwf h hv
  markClean_miss _ _ h := markClean_of_value_ne hwf h
  remove_hit _ _ h := remove_of_find? hwf h
  dirty_iff _ := mem_dirtyEntries
  dirty_order := dirtyEntries_reverse_sublist
  dirty_count := length_dirtyEntries

end NorStore.Storage.Cache

namespace NorStore.Bench.CacheStep

open Storage Cache

variable {c : Cache} {e : CacheEntry}

/-- The cache a run of steps leaves. -/
def runAll (c : Cache) (steps : List CacheStep) : Cache :=
  steps.foldl (fun c s => (s.run c).1) c

/-- The count of lookups since the last clear, after one more step. -/
def tally (n : Nat) : CacheStep → Nat
  | .get _ => n + 1
  | .clear => 0
  | _ => n

/-- The lookups a run makes after its last clear. -/
def lookups (steps : List CacheStep) : Nat :=
  steps.foldl tally 0

theorem capacity_run (s : CacheStep) : (s.run c).1.capacity = c.capacity := by
  cases s with
  | get key => exact capacity_get c key
  | put key v d =>
    obtain ⟨es, h⟩ := put_fst_eq c key v d
    show (c.put key v d).1.capacity = c.capacity
    rw [h]
  | _ => rfl

/-- Every step keeps the shape of a cache. -/
theorem wf_run (hwf : c.Wf) : ∀ s : CacheStep, (s.run c).1.Wf
  | .get key => hwf.get key
  | .put key v d => hwf.put key v d
  | .markClean key v => hwf.markClean key v
  | .remove key => hwf.remove key
  | .clear => Wf.clear c
  | .fits _ | .peek _ | .equal _ _ | .victim _ | .dirty | .stats | .health _ => hwf

/-- The lookups a step counts. -/
theorem counts_run (s : CacheStep) :
    (s.run c).1.hits + (s.run c).1.misses = tally (c.hits + c.misses) s := by
  cases s with
  | get key =>
    show (c.get key).1.hits + (c.get key).1.misses = c.hits + c.misses + 1
    cases hf : c.find? key with
    | none => rw [get_of_find?_none hf]; dsimp only; omega
    | some e => rw [get_of_find?_some hf]; dsimp only; omega
  | put key v d =>
    obtain ⟨es, h⟩ := put_fst_eq c key v d
    show (c.put key v d).1.hits + (c.put key v d).1.misses = c.hits + c.misses
    rw [h]
  | _ => rfl

/-- The next step keeps the key of a dirty entry dirty, unless it marks that entry clean with
the value it holds, removes it or clears the cache. -/
theorem dirty_kept (hwf : c.Wf) (he : e ∈ c.entries) (hd : e.dirty = true) :
    ∀ s : CacheStep, (∃ e' ∈ (s.run c).1.entries, e'.key = e.key ∧ e'.dirty = true) ∨
      s = .markClean e.key e.value ∨ s = .remove e.key ∨ s = .clear
  | .get key => .inl ⟨e, mem_get hwf he key, rfl, hd⟩
  | .put key v d => .inl (dirty_put hwf he hd key v d)
  | .markClean key v => by
    by_cases hm : e.key = key ∧ e.value = v
    · obtain ⟨rfl, rfl⟩ := hm
      exact .inr (.inl rfl)
    · -- an entry that is not the one marked stays as it is
      refine .inl ⟨e, List.mem_map.2 ⟨e, he, ?_⟩, rfl, hd⟩
      rw [if_neg]
      rw [Bool.and_eq_true_iff, ByteArray.beq_eq_true_iff, ByteArray.beq_eq_true_iff]
      exact hm
  | .remove key => by
    by_cases hk : e.key = key
    · exact .inr (.inr (.inl (hk ▸ rfl)))
    · exact .inl ⟨e, mem_without.2 ⟨he, hk⟩, rfl, hd⟩
  | .clear => .inr (.inr (.inr rfl))
  | .fits _ | .peek _ | .equal _ _ | .victim _ | .dirty | .stats | .health _ => .inl ⟨e, he, rfl, hd⟩

theorem wf_runAll (hwf : c.Wf) (steps : List CacheStep) : (runAll c steps).Wf := by
  induction steps generalizing c with
  | nil => exact hwf
  | cons s steps ih => exact ih (wf_run hwf s)

theorem capacity_runAll (steps : List CacheStep) : (runAll c steps).capacity = c.capacity := by
  induction steps generalizing c with
  | nil => rfl
  | cons s steps ih => exact ih.trans (capacity_run s)

/-- A run counts its lookups on from the counts it starts with, from zero at each clear. -/
theorem counts_runAll (steps : List CacheStep) :
    (runAll c steps).hits + (runAll c steps).misses = steps.foldl tally (c.hits + c.misses) := by
  induction steps generalizing c with
  | nil => rfl
  | cons s steps ih =>
    rw [List.foldl_cons, ← counts_run s]
    exact ih

/-- Every run of steps from an empty cache, whatever its capacity and value bound, leaves a
recency list with one entry a key and at most `max capacity 0` entries; its hits and misses
add up to the lookups made since the last clear; and the next step keeps the key of each dirty
entry dirty, unless it marks that entry clean with the value it holds, removes it or clears the
cache. -/
theorem runAll_recency (capacity maxValue : Int) (steps : List CacheStep) :
    let c := runAll (Cache.create capacity maxValue) steps
    (c.entries.map (·.key)).Nodup ∧ (c.size : Int) ≤ max capacity 0 ∧ c.Recency ∧
      c.hits + c.misses = lookups steps ∧
      ∀ (s : CacheStep) (e : CacheEntry), e ∈ c.entries → e.dirty = true →
        (∃ e' ∈ (s.run c).1.entries, e'.key = e.key ∧ e'.dirty = true) ∨
          s = .markClean e.key e.value ∨ s = .remove e.key ∨ s = .clear := by
  intro c
  have hwf : c.Wf := wf_runAll (Wf.create capacity maxValue) steps
  have hcap : c.capacity = capacity := capacity_runAll steps
  exact ⟨hwf.nodup, hcap ▸ hwf.size_le, hwf.recency, counts_runAll steps,
    fun s _ he hd => dirty_kept hwf he hd s⟩

end NorStore.Bench.CacheStep
