import Mathlib
import NorStore.Storage.Cache

/-!
# The cache between a client and its store

A write-back cache stands between what a client expects each key to hold and what the store
under it holds. The two agree through the cache (`Cache.Agrees`): the cache holds one entry a
key, every entry holds the value the client expects, a clean entry also the value the store
holds, and every key out of the cache is stored as the client expects. A dirty entry is the one
place where the store may lag behind.

Each way the cache changes keeps the agreement, with the maps changed as the change says:

* reordering or dropping entries, as long as no dirty entry is lost (`Agrees.sub`): lookups
  and evictions of clean entries;
* `Agrees.put`: a put that succeeds makes the client expect the new value; a clean put needs
  the store to hold it already;
* `Agrees.remove`: dropping a key's entry while the store takes a new value for it;
* `Agrees.store` and `Agrees.markClean`: writing a dirty value back, then marking it clean;
* `Agrees.clear`: an empty cache over an empty store.

Once no entry is dirty, the store holds exactly what the client expects (`Agrees.stored_eq`).
-/

namespace ByteArray

theorem beq_eq_true_iff {a b : ByteArray} : (a == b) = true ↔ a = b := by
  show (a.data == b.data) = true ↔ a = b
  rw [beq_iff_eq]
  exact ⟨ByteArray.ext, fun h => h ▸ rfl⟩

theorem bne_eq_true_iff {a b : ByteArray} : (a != b) = true ↔ a ≠ b := by
  rw [bne, Bool.not_eq_true', ← Bool.not_eq_true, beq_eq_true_iff]

end ByteArray

namespace NorStore.Storage

namespace Cache

/-- The entries `es` of a cache between a client that expects `expected` of each key and a
store that holds `stored`: one entry a key, each holding the value the client expects, a clean
one also the value the store holds; and every key out of the cache is stored as expected. -/
structure Agrees (es : List CacheEntry) (expected stored : ByteArray → Option ByteArray) :
    Prop where
  nodup : (es.map (·.key)).Nodup
  current : ∀ e ∈ es, expected e.key = some e.value
  clean : ∀ e ∈ es, e.dirty = false → stored e.key = some e.value
  rest : ∀ key, key ∉ es.map (·.key) → stored key = expected key

variable {es es' : List CacheEntry} {M F : ByteArray → Option ByteArray}

theorem find?_key_eq {key : ByteArray} {e : CacheEntry} (h : es.find? (·.key == key) = some e) :
    e ∈ es ∧ e.key = key := by
  have hk := List.find?_some h
  exact ⟨List.mem_of_find?_eq_some h, ByteArray.beq_eq_true_iff.1 hk⟩

theorem find?_eq_none_iff {key : ByteArray} :
    es.find? (·.key == key) = none ↔ key ∉ es.map (·.key) := by
  rw [List.find?_eq_none]
  constructor
  · intro h hmem
    obtain ⟨e, he, rfl⟩ := List.mem_map.1 hmem
    exact h e he (ByteArray.beq_eq_true_iff.2 rfl)
  · intro h e he heq
    exact h (List.mem_map.2 ⟨e, he, ByteArray.beq_eq_true_iff.1 heq⟩)

namespace Agrees

/-- A cached key is expected to hold its entry's value. -/
theorem find? (h : Agrees es M F) {key : ByteArray} {e : CacheEntry}
    (hf : es.find? (·.key == key) = some e) : e.key = key ∧ M key = some e.value := by
  obtain ⟨he, rfl⟩ := find?_key_eq hf
  exact ⟨rfl, h.current e he⟩

/-- A key out of the cache is stored as expected. -/
theorem find?_none (h : Agrees es M F) {key : ByteArray}
    (hf : es.find? (·.key == key) = none) : F key = M key :=
  h.rest key (find?_eq_none_iff.1 hf)

/-- A key whose entry is clean, or that has none, is stored as expected. -/
theorem stored_of_clean (h : Agrees es M F) {key : ByteArray}
    (hclean : ∀ e ∈ es, e.key = key → e.dirty = false) : F key = M key := by
  by_cases hmem : key ∈ es.map (·.key)
  · obtain ⟨e, he, rfl⟩ := List.mem_map.1 hmem
    rw [h.clean e he (hclean e he rfl), h.current e he]
  · exact h.rest key hmem

/-- Reordering or dropping entries keeps the agreement, as long as every dirty entry stays. -/
theorem sub (h : Agrees es M F) (hnodup : (es'.map (·.key)).Nodup) (hsub : ∀ e ∈ es', e ∈ es)
    (hdirty : ∀ e ∈ es, e.dirty = true → e.key ∈ es'.map (·.key)) : Agrees es' M F where
  nodup := hnodup
  current e he := h.current e (hsub e he)
  clean e he := h.clean e (hsub e he)
  rest key hkey := by
    apply h.stored_of_clean
    intro e he hk
    cases hd : e.dirty with
    | false => rfl
    | true => exact absurd (hk ▸ hdirty e he hd) hkey

/-- A new entry of a key in front of entries that keep every dirty entry of the others: the
client now expects its value, and a clean one the store already holds. -/
theorem push (h : Agrees es M F) {key v : ByteArray} {d : Bool}
    (hnodup : (es'.map (·.key)).Nodup) (hsub : ∀ e ∈ es', e ∈ es)
    (hout : key ∉ es'.map (·.key))
    (hdirty : ∀ e ∈ es, e.dirty = true → e.key ≠ key → e.key ∈ es'.map (·.key))
    (hclean : d = false → F key = some v) :
    Agrees (⟨key, v, d⟩ :: es') (Function.update M key (some v)) F where
  nodup := List.nodup_cons.2 ⟨hout, hnodup⟩
  current e he := by
    rcases List.mem_cons.1 he with rfl | he
    · exact Function.update_self ..
    · have hne : e.key ≠ key := fun hk => hout (hk ▸ List.mem_map_of_mem he)
      rw [Function.update_of_ne hne]
      exact h.current e (hsub e he)
  clean e he hd := by
    rcases List.mem_cons.1 he with rfl | he
    · exact hclean hd
    · exact h.clean e (hsub e he) hd
  rest key' hkey := by
    have hne : key' ≠ key := fun hk => hkey (hk ▸ List.mem_cons_self)
    rw [Function.update_of_ne hne]
    apply h.stored_of_clean
    intro e he hk
    cases hd : e.dirty with
    | false => rfl
    | true =>
      exact absurd (List.mem_cons_of_mem _ (hk ▸ hdirty e he hd (hk ▸ hne))) hkey

/-- Dropping a key's entry while the store takes a new value for it: the client expects that
value too. -/
theorem remove (h : Agrees es M F) (key : ByteArray) (w : Option ByteArray) :
    Agrees (es.filter (·.key != key)) (Function.update M key w) (Function.update F key w) where
  nodup := h.nodup.sublist (List.filter_sublist.map _)
  current e he := by
    obtain ⟨he, hk⟩ := List.mem_filter.1 he
    rw [Function.update_of_ne (ByteArray.bne_eq_true_iff.1 hk)]
    exact h.current e he
  clean e he hd := by
    obtain ⟨he, hk⟩ := List.mem_filter.1 he
    rw [Function.update_of_ne (ByteArray.bne_eq_true_iff.1 hk)]
    exact h.clean e he hd
  rest key' hkey := by
    by_cases hk : key' = key
    · subst hk
      simp only [Function.update_self]
    · simp only [Function.update_of_ne hk]
      apply h.rest key'
      intro hmem
      obtain ⟨e, he, rfl⟩ := List.mem_map.1 hmem
      exact hkey (List.mem_map.2 ⟨e, List.mem_filter.2 ⟨he, ByteArray.bne_eq_true_iff.2 hk⟩, rfl⟩)

/-- Writing the value a client expects of a key to the store keeps the agreement. -/
theorem store (h : Agrees es M F) {key v : ByteArray} (hv : M key = some v) :
    Agrees es M (Function.update F key (some v)) where
  nodup := h.nodup
  current := h.current
  clean e he hd := by
    by_cases hk : e.key = key
    · -- the entry of the key holds the value expected of it, which the store now holds
      have hval : some e.value = some v := (h.current e he).symm.trans (hk ▸ hv)
      rw [hk, Function.update_self, hval]
    · rw [Function.update_of_ne hk]
      exact h.clean e he hd
  rest key' hkey := by
    by_cases hk : key' = key
    · rw [hk, Function.update_self, hv]
    · rw [Function.update_of_ne hk]
      exact h.rest key' hkey

/-- Clearing the dirty mark of an entry whose value the store holds keeps the agreement. -/
theorem markClean (h : Agrees es M F) {key v : ByteArray} (hv : F key = some v) :
    Agrees (es.map fun e => if e.key == key && e.value == v then { e with dirty := false } else e)
      M F := by
  have hkeys : ∀ e : CacheEntry,
      (if e.key == key && e.value == v then { e with dirty := false } else e).key = e.key ∧
      (if e.key == key && e.value == v then { e with dirty := false } else e).value = e.value := by
    intro e
    split <;> exact ⟨rfl, rfl⟩
  have hmap : (es.map fun e =>
      if e.key == key && e.value == v then { e with dirty := false } else e).map (·.key) =
      es.map (·.key) := by
    rw [List.map_map]
    exact List.map_congr_left fun e _ => (hkeys e).1
  refine ⟨hmap ▸ h.nodup, ?_, ?_, hmap ▸ h.rest⟩
  · intro e' he'
    obtain ⟨e, he, rfl⟩ := List.mem_map.1 he'
    rw [(hkeys e).1, (hkeys e).2]
    exact h.current e he
  · intro e' he' hd
    obtain ⟨e, he, rfl⟩ := List.mem_map.1 he'
    rw [(hkeys e).1, (hkeys e).2]
    by_cases hm : (e.key == key && e.value == v) = true
    · -- the entry marked clean holds what the store holds for its key
      obtain ⟨hk, hval⟩ := Bool.and_eq_true_iff.1 hm
      rw [ByteArray.beq_eq_true_iff.1 hk, hv, ByteArray.beq_eq_true_iff.1 hval]
    · rw [if_neg hm] at hd
      exact h.clean e he hd

/-- No entry over a store that holds what the client expects. -/
theorem nil : Agrees [] M M where
  nodup := List.nodup_nil
  current _ he := absurd he List.not_mem_nil
  clean _ he := absurd he List.not_mem_nil
  rest _ _ := rfl

/-- Once no entry is dirty, the store holds exactly what the client expects. -/
theorem stored_eq (h : Agrees es M F) (hclean : ∀ e ∈ es, e.dirty = false) : F = M :=
  funext fun _ => h.stored_of_clean fun e he _ => hclean e he

end Agrees

/-! ## The cache's operations -/

variable {C : Cache} {key v : ByteArray} {d : Bool}

theorem mem_without {e : CacheEntry} : e ∈ C.without key ↔ e ∈ C.entries ∧ e.key ≠ key := by
  rw [without, List.mem_filter, ByteArray.bne_eq_true_iff]

theorem key_not_mem_without : key ∉ (C.without key).map (·.key) := by
  intro hmem
  obtain ⟨e, he, hk⟩ := List.mem_map.1 hmem
  exact (mem_without.1 he).2 hk

theorem mem_dirtyEntries {e : CacheEntry} : e ∈ C.dirtyEntries ↔ e ∈ C.entries ∧ e.dirty = true := by
  rw [dirtyEntries, List.mem_reverse, List.mem_filter]

/-- A lookup answers the cached value, and keeps the agreement. -/
theorem Agrees.get (h : Agrees C.entries M F) (key : ByteArray) :
    Agrees (C.get key).1.entries M F ∧ (C.get key).2 = (C.find? key).map (·.value) := by
  unfold Cache.get
  cases hf : C.find? key with
  | none => exact ⟨h, rfl⟩
  | some e =>
    obtain ⟨he, hk⟩ := find?_key_eq hf
    -- the entry moves to the front; the others keep their order
    refine ⟨h.sub ?_ ?_ ?_, rfl⟩
    · rw [List.map_cons, hk]
      exact List.nodup_cons.2 ⟨key_not_mem_without, h.nodup.sublist (List.filter_sublist.map _)⟩
    · intro e' he'
      rcases List.mem_cons.1 he' with rfl | he'
      · exact he
      · exact (mem_without.1 he').1
    · intro e' he' _
      by_cases hk' : e'.key = key
      · rw [hk', ← hk]
        exact List.mem_cons_self
      · exact List.mem_cons_of_mem _ (List.mem_map_of_mem (mem_without.2 ⟨he', hk'⟩))

/-- What a put that succeeds leaves: the new entry in front of entries of other keys, which
keep every dirty entry of another key; the new entry is clean only when the put was. -/
theorem put_inv (hok : (C.put key v d).2 = true) :
    ∃ d' es', (C.put key v d).1.entries = ⟨key, v, d'⟩ :: es' ∧ es'.Sublist C.entries ∧
      key ∉ es'.map (·.key) ∧ (∀ e ∈ C.entries, e.dirty = true → e.key ≠ key → e ∈ es') ∧
      (d' = false → d = false) := by
  unfold Cache.put at hok ⊢
  cases hf : C.find? key with
  | some e =>
    exact ⟨e.dirty || d, C.without key, rfl, List.filter_sublist, key_not_mem_without,
      fun e' he' _ hk => mem_without.2 ⟨he', hk⟩, fun h => (Bool.or_eq_false_iff.1 h).2⟩
  | none =>
    have hout : key ∉ C.entries.map (·.key) := find?_eq_none_iff.1 hf
    simp only [hf] at hok ⊢
    by_cases hcap : (C.size : Int) ≥ C.capacity
    · cases hl : C.last? with
      | none => simp [hcap, hl] at hok
      | some e =>
        cases hd : e.dirty with
        | true => simp [hcap, hl, hd] at hok
        | false =>
          -- a full cache drops its least recently used entry, which is clean
          refine ⟨d, C.entries.dropLast, by simp [hcap, hd], List.dropLast_sublist _,
            fun hm => hout (((List.dropLast_sublist _).map _).subset hm), ?_, fun h => h⟩
          intro e' he' hd' _
          rw [← List.dropLast_append_getLast? e hl, List.mem_append, List.mem_singleton] at he'
          rcases he' with he' | rfl
          · exact he'
          · exact absurd (hd.symm.trans hd') Bool.false_ne_true
    · exact ⟨d, C.entries, by simp [hcap], List.Sublist.refl _, hout, fun e' he' _ _ => he',
        fun h => h⟩

/-- A put that fails changes nothing. -/
theorem put_of_false (hok : (C.put key v d).2 = false) : (C.put key v d).1 = C := by
  unfold Cache.put at hok ⊢
  cases hf : C.find? key with
  | some e => simp [hf] at hok
  | none =>
    simp only [hf] at hok ⊢
    revert hok
    split <;> simp

/-- A put that succeeds makes the client expect the new value; a clean one the store must
hold already. -/
theorem Agrees.put (h : Agrees C.entries M F) (hclean : d = false → F key = some v)
    (hok : (C.put key v d).2 = true) :
    Agrees (C.put key v d).1.entries (Function.update M key (some v)) F := by
  obtain ⟨d', es', hput, hsub, hout, hdirty, hd'⟩ := put_inv hok
  rw [hput]
  exact h.push (h.nodup.sublist (hsub.map _)) (fun e he => hsub.subset he) hout
    (fun e he hd hk => List.mem_map_of_mem (hdirty e he hd hk)) (fun h' => hclean (hd' h'))

/-- A clean put of what the store and the client both hold for a key keeps the agreement,
whether or not the cache takes it. -/
theorem Agrees.put_clean (h : Agrees C.entries M F) (hF : F key = some v) (hM : M key = some v) :
    Agrees (C.put key v false).1.entries M F := by
  cases hok : (C.put key v false).2 with
  | true =>
    have h' := h.put (fun _ => hF) hok
    rwa [Function.update_eq_self_iff.2 hM.symm] at h'
  | false => rw [put_of_false hok]; exact h

theorem get_of_find?_some {e : CacheEntry} (hf : C.find? key = some e) :
    C.get key = ({ C with entries := e :: C.without key, hits := C.hits + 1 }, some e.value) := by
  rw [Cache.get, hf]

theorem get_of_find?_none (hf : C.find? key = none) :
    C.get key = ({ C with misses := C.misses + 1 }, none) := by
  rw [Cache.get, hf]

/-- A cache that holds a value for a key holds an entry of the key with that value. -/
theorem holds_eq_true (h : C.holds key v = true) : ∃ e, C.find? key = some e ∧ e.value = v := by
  unfold holds at h
  cases hf : C.find? key with
  | none => simp [hf] at h
  | some e =>
    rw [hf] at h
    exact ⟨e, rfl, ByteArray.beq_eq_true_iff.1 h⟩

/-- The entry a put would push out is an entry of the cache. -/
theorem victim_mem {e : CacheEntry} (h : C.victim key = some e) : e ∈ C.entries := by
  unfold victim at h
  split at h
  · exact absurd h (Option.some_ne_none e).symm
  · exact List.mem_of_getLast? h

/-- A cached key pushes nothing out. -/
theorem victim_find? {e : CacheEntry} (h : C.victim key = some e) : C.find? key = none := by
  unfold victim at h
  cases hf : C.find? key with
  | none => rfl
  | some e' => simp [hf] at h

/-- The entry a key would push out is another key's. -/
theorem victim_key_ne {e : CacheEntry} (h : C.victim key = some e) : e.key ≠ key := fun hk =>
  find?_eq_none_iff.1 (victim_find? h) (hk ▸ List.mem_map_of_mem (victim_mem h))

end Cache

end NorStore.Storage
