import NorStore.Proofs.Flush

/-!
# Reading and listing the user partition

Every read of the manager keeps the invariant, whatever key it is given: a key no store can hold
has no cache entry and fails in the store before anything is read. For a usable key each read
answers what the client expects of it: a plain read (`Serves.getPlain`, `Serves.readPlain`), a
read through the cache, which may take the value as a clean entry (`Serves.readCached`), and a
whole read through the cache, which reads a value longer than the cache takes again plainly
(`Serves.getCached`).

Listing flushes the cache, asks the store for its live keys, and writes a line for each with its
value (`Serves.dump`): when it succeeds it has written exactly one line for each key the client
expects to hold a value. It fails when a write-back of the flush fails, or when the store's walk
of its table runs out of steps, which happens only when its limit is short of two rounds of the
ring.
-/

namespace NorStore

/-- A loop whose every step succeeds and keeps an invariant of the items still to come succeeds
and keeps it to the end. -/
theorem run_forM_of_step {ε σ α : Type} (P : List α → σ → Prop)
    {f : α → ExceptT ε (StateM σ) PUnit}
    (hstep : ∀ x l s, P (x :: l) s → ∃ s', (f x).run.run s = (.ok ⟨⟩, s') ∧ P l s') :
    ∀ (l : List α) (s : σ), P l s → ∃ s', (l.forM f).run.run s = (.ok ⟨⟩, s') ∧ P [] s' := by
  intro l
  induction l with
  | nil => intro s h; exact ⟨s, rfl, h⟩
  | cons x l ih =>
    intro s h
    obtain ⟨s1, hrun, h1⟩ := hstep x l s h
    obtain ⟨s2, hrest, h2⟩ := ih s1 h1
    refine ⟨s2, ?_, h2⟩
    rw [List.forM, run_bind_ok hrun]
    exact hrest

namespace StoreM

variable {key : ByteArray}

/-- Reading a key no store can hold fails as an invalid key, and only reads. -/
theorem run_get_invalid (hk : Entry.padKey? key = none) (e : Engine) :
    ∃ e', (get key).run.run e = (.error (.store "get" key none "" (some (.kind .invalidKey))), e') ∧
      e.Reads e' := by
  unfold get
  apply run_observed_reads
  exact ⟨e, run_bind_error (run_keyField_none "get" hk e), Engine.Reads.refl e⟩

/-- Reading a key no store can hold into a buffer fails as an invalid key, and only reads. -/
theorem run_readVersion_invalid (hk : Entry.padKey? key = none) (size : Nat) (e : Engine) :
    ∃ e', (readVersion key size 0).run.run e =
      (.error (.store "read" key none "" (some (.kind .invalidKey))), e') ∧ e.Reads e' := by
  unfold readVersion
  apply run_observed_reads
  exact ⟨e, run_bind_error (run_keyField_none "read" hk e), Engine.Reads.refl e⟩

end StoreM

theorem lookupAnswer_eq_ok {op : String} {key v : ByteArray} {x : Option ByteArray}
    (h : lookupAnswer op key x = .ok v) : x = some v := by
  cases x with
  | none => exact absurd h (by simp [lookupAnswer])
  | some w => simpa [lookupAnswer] using h

/-- A read into a buffer answers the whole read's value cut to the buffer, or its fault. -/
theorem readAnswer_eq_map (op : String) (key : ByteArray) (size : Nat) (x : Option ByteArray) :
    readAnswer op key size x = (lookupAnswer op key x).map fun v => (v.size, v.extract 0 size) := by
  cases x <;> rfl

namespace Storage

/-- The lines a listing of the keys `ks` writes, each key with the value `M` gives it. -/
def listed (M : ByteArray → Option ByteArray) : List ByteArray → ByteArray
  | [] => .empty
  | k :: ks => ((M k).map (SiteM.listLine k)).getD .empty ++ listed M ks

/-- What a listing of the keys `ks` writes: their lines, or a note that there are none. -/
def listing (M : ByteArray → Option ByteArray) (ks : List ByteArray) : ByteArray :=
  if ks.isEmpty then "No entry found\n".toUTF8 else listed M ks

namespace Serves

variable {o : Options} {s : Site} {M F : ByteArray → Option ByteArray} {R : Ring} {C : Cache}

/-- What the site has written for a reader is no part of the invariant. -/
theorem console (h : Serves o s M F R C) (b : ByteArray) :
    Serves o { s with console := b } M F R C where
  options := h.options
  opened := h.opened
  cache := h.cache
  agrees := h.agrees
  faithful := h.faithful
  expectable := h.expectable

variable (hc : (o.storeConfig .user).Usable) (hpol : Flash.Polar (o.storeConfig .user).eraseValue)
include hc hpol

/-! ### The store's reads -/

/-- Reading any key of the user store only reads: the store answers a value it holds, and for a
usable key it answers what it holds of the key. -/
theorem run_get (h : Serves o s M F R C) (key : ByteArray) :
    ∃ r e', (StoreM.get key).run.run (s.engine .user) = (r, e') ∧ (s.engine .user).Reads e' ∧
      (∀ v, r = .ok v → F key = some v) ∧
      ∀ k, Entry.padKey? key = some k → r = lookupAnswer "get" key (F key) := by
  cases hk : Entry.padKey? key with
  | none =>
    obtain ⟨e', hget, hr⟩ := StoreM.run_get_invalid hk (s.engine .user)
    exact ⟨_, e', hget, hr, fun _ hv => absurd hv (by simp), fun _ hk' => absurd hk' (by simp)⟩
  | some k =>
    obtain ⟨e', hget, hr⟩ := h.faithful.get hc hpol hk
    dsimp only at hget hr
    exact ⟨_, e', hget, hr, fun _ hv => lookupAnswer_eq_ok hv, fun _ _ => rfl⟩

/-- Reading any key of the user store into a buffer only reads, and for a usable key answers what
the store holds of the key, cut to the buffer. -/
theorem run_readVersion (h : Serves o s M F R C) (key : ByteArray) (size : Nat) :
    ∃ r e', (StoreM.readVersion key size 0).run.run (s.engine .user) = (r, e') ∧
      (s.engine .user).Reads e' ∧
      ∀ k, Entry.padKey? key = some k → r = readAnswer "read" key size (F key) := by
  cases hk : Entry.padKey? key with
  | none =>
    obtain ⟨e', hread, hr⟩ := StoreM.run_readVersion_invalid hk size (s.engine .user)
    exact ⟨_, e', hread, hr, fun _ hk' => absurd hk' (by simp)⟩
  | some k =>
    obtain ⟨e', hread, hr⟩ := h.faithful.readVersion hc hpol hk size
    dsimp only at hread hr
    exact ⟨_, e', hread, hr, fun _ _ => rfl⟩

/-! ### Plain reads -/

/-- A plain read of a key keeps the invariant, and for a usable key answers what the client
expects of it: a dirty cached value, or else what the store holds, which is then the same. -/
theorem getPlain (h : Serves o s M F R C) (key : ByteArray) :
    ∃ r s', (SiteM.getPlain 1 key).run.run s = (r, s') ∧ Serves o s' M F R C ∧
      ∀ k, Entry.padKey? key = some k → r = lookupAnswer "get" key (M key) := by
  obtain ⟨d, hd, hdirty, hclean⟩ := h.run_dirtyValue key
  unfold SiteM.getPlain
  simp only [run_bind, hd]
  cases d with
  | some v => exact ⟨_, s, rfl, h, fun _ _ => by rw [hdirty v rfl]; rfl⟩
  | none =>
    obtain ⟨r, e', hget, hr, -, hans⟩ := h.run_get hc hpol key
    refine ⟨r, s.withEngine .user e', ?_, h.reads hr, fun k hk => by rw [hans k hk, hclean rfl]⟩
    simp only [run_bind, SiteM.run_resolve_user h.opened]
    rw [SiteM.run_onStore hget]

/-- A plain read of a key into a buffer keeps the invariant, and for a usable key answers the
length of what the client expects of it and as much of it as fits. -/
theorem readPlain (h : Serves o s M F R C) (key : ByteArray) (size : Nat) :
    ∃ r s', (SiteM.readPlain 1 key size).run.run s = (r, s') ∧ Serves o s' M F R C ∧
      ∀ k, Entry.padKey? key = some k → r = readAnswer "read" key size (M key) := by
  obtain ⟨d, hd, hdirty, hclean⟩ := h.run_dirtyValue key
  unfold SiteM.readPlain
  simp only [run_bind, hd]
  cases d with
  | some v => exact ⟨_, s, rfl, h, fun _ _ => by rw [hdirty v rfl]; rfl⟩
  | none =>
    obtain ⟨r, e', hread, hr, hans⟩ := h.run_readVersion hc hpol key size
    refine ⟨r, s.withEngine .user e', ?_, h.reads hr, fun k hk => by rw [hans k hk, hclean rfl]⟩
    simp only [run_bind, SiteM.run_resolve_user h.opened]
    rw [SiteM.run_onStore hread]

/-! ### Reads through the cache -/

/-- Reading a key the cache does not hold keeps the invariant, and for a usable key answers what
the client expects of it: the store holds it, and the cache may take it as a clean entry. -/
theorem readMiss (h : Serves o s M F R C) {key : ByteArray} (hf : C.find? key = none)
    (size : Nat) :
    ∃ r s' C', (SiteM.readMiss .user C key size).run.run s = (r, s') ∧ Serves o s' M F R C' ∧
      ∀ k, Entry.padKey? key = some k → r = readAnswer "get" key size (M key) := by
  obtain ⟨r, e', hget, hr, hok, hans⟩ := h.run_get hc hpol key
  -- out of the cache, the store holds what the client expects
  have hF := h.agrees.find?_none hf
  have h1 := h.reads hr
  have hanswer : ∀ k, Entry.padKey? key = some k →
      r.map (fun v => (v.size, v.extract 0 size)) = readAnswer "get" key size (M key) := by
    intro k hk
    rw [hans k hk, hF, readAnswer_eq_map]
  unfold SiteM.readMiss
  rw [run_bind, SiteM.run_onStore hget]
  cases r with
  | error f => exact ⟨_, _, C, rfl, h1, hanswer⟩
  | ok v =>
    have hv : F key = some v := hok v rfl
    by_cases hfit : C.fits v.size = true
    · simp only [hfit, if_true, run_bind, SiteM.run_modifyCache, Site.withEngine_cache, h.cache,
        Option.map_some, run_pure]
      exact ⟨_, _, _, rfl, h1.setCache (h1.agrees.put_clean hv (hF ▸ hv)) h.expectable, hanswer⟩
    · simp only [hfit, Bool.false_eq_true, if_false, run_pure]
      exact ⟨_, _, C, rfl, h1, hanswer⟩

/-- A read through the cache keeps the invariant, and for a usable key answers what the client
expects of it: a cached value, or else what the store holds. -/
theorem readCached (h : Serves o s M F R C) (key : ByteArray) (size : Nat) :
    ∃ r s' C', (SiteM.readCached 1 key size).run.run s = (r, s') ∧ Serves o s' M F R C' ∧
      ∀ k, Entry.padKey? key = some k → r = readAnswer "get" key size (M key) := by
  unfold SiteM.readCached
  simp only [run_bind, SiteM.run_userCache_user, h.cache, SiteM.run_resolve_user h.opened]
  have hagree := (h.agrees.get key).1
  cases hf : C.find? key with
  | some e =>
    -- a hit answers the cached value, which is what the client expects
    obtain ⟨-, hM⟩ := h.agrees.find? hf
    rw [Cache.get_of_find?_some hf] at hagree
    simp only [Cache.get_of_find?_some hf, SiteM.run_modifyManager]
    exact ⟨_, _, _, rfl, (h.setCache hagree h.expectable).quiet ⟨rfl, rfl, rfl⟩,
      fun _ _ => by rw [hM]; rfl⟩
  | none =>
    -- a miss counts the lookup and reads the store
    rw [Cache.get_of_find?_none hf] at hagree
    have hmiss : ({ C with misses := C.misses + 1 } : Cache).find? key = none := hf
    simp only [Cache.get_of_find?_none hf, SiteM.run_modifyManager, SiteM.run_meter, run_bind,
      hmiss]
    refine Serves.readMiss hc hpol ?_ hmiss size
    exact (h.setCache hagree h.expectable).quiet ⟨rfl, rfl, rfl⟩

/-- A whole read through the cache keeps the invariant, and for a usable key answers what the
client expects of it: a value longer than the cache takes is read again plainly. -/
theorem getCached (h : Serves o s M F R C) (key : ByteArray) :
    ∃ r s' C', (SiteM.getCached 1 key).run.run s = (r, s') ∧ Serves o s' M F R C' ∧
      ∀ k, Entry.padKey? key = some k → r = lookupAnswer "get" key (M key) := by
  unfold SiteM.getCached
  simp only [run_bind, SiteM.run_userCache_user, h.cache, Option.isNone_some, Bool.false_eq_true,
    if_false, SiteM.run_manager, h.options]
  obtain ⟨r, s1, C1, hread, h1, hans⟩ := h.readCached hc hpol key o.cacheValueSize.toNat
  rw [hread]
  cases r with
  | error f =>
    refine ⟨_, s1, C1, rfl, h1, fun k hk => ?_⟩
    have hf := hans k hk
    rw [readAnswer_eq_map] at hf
    cases hl : lookupAnswer "get" key (M key) with
    | error g => rw [hl] at hf; exact congrArg Except.error (Except.error.inj hf)
    | ok v => rw [hl] at hf; exact absurd hf (by simp [Except.map])
  | ok p =>
    obtain ⟨len, bytes⟩ := p
    by_cases hlong : len > o.cacheValueSize.toNat
    · -- the cache gave only the first bytes: the value is read again
      simp only [hlong, if_true]
      obtain ⟨r2, s2, hget, h2, hans2⟩ := h1.getPlain hc hpol key
      rw [hget]
      exact ⟨r2, s2, C1, rfl, h2, hans2⟩
    · simp only [hlong, if_false, run_pure]
      refine ⟨_, s1, C1, rfl, h1, fun k hk => ?_⟩
      have hl := hans k hk
      rw [readAnswer_eq_map] at hl
      cases hv : lookupAnswer "get" key (M key) with
      | error g => rw [hv] at hl; exact absurd hl (by simp [Except.map])
      | ok v =>
        -- the whole value fits in what the cache takes
        rw [hv] at hl
        obtain ⟨hlen, hbytes⟩ := Prod.mk.inj (Except.ok.inj hl)
        rw [hbytes, ← ByteArray.extract_min, Nat.min_eq_right (by omega),
          ByteArray.extract_zero_size]

/-! ### Listing -/

/-- The line of a key that holds `v` is written, and only reads the store. -/
theorem listKey (h : Serves o s M M R C) {key v : ByteArray} (hv : M key = some v) :
    ∃ s', (SiteM.listKey .user key).run.run s = (.ok (), s') ∧ Serves o s' M M R C ∧
      s'.console = s.console ++ SiteM.listLine key v := by
  obtain ⟨k, hk⟩ := h.expectable.usable key (by rw [hv]; exact Option.some_ne_none v)
  obtain ⟨r, e', hget, hr, -, hans⟩ := h.run_get hc hpol key
  rw [hans k hk, hv] at hget
  have hin : (some <$> SiteM.onStore .user (StoreM.get key)).run.run s =
      (.ok (some v), s.withEngine .user e') := by
    rw [map_eq_pure_bind, run_bind, SiteM.run_onStore hget]
    rfl
  unfold SiteM.listKey
  rw [run_bind, run_tryCatch_ok hin]
  exact ⟨_, rfl, (h.reads hr).console _, rfl⟩

/-- Listing the keys `ks`, each of which the client expects to hold a value, writes their lines. -/
theorem forM_listKey (h : Serves o s M M R C) (ks : List ByteArray)
    (hks : ∀ key ∈ ks, M key ≠ none) :
    ∃ s' R' C', (ks.forM (SiteM.listKey .user)).run.run s = (.ok (), s') ∧ Serves o s' M M R' C' ∧
      s'.console = s.console ++ listed M ks := by
  -- the invariant: the site serves the client, and the lines still to come complete the text
  obtain ⟨s', hrun, hinv⟩ := run_forM_of_step
    (fun rest t => (∃ R' C', Serves o t M M R' C') ∧ (∀ key ∈ rest, M key ≠ none) ∧
      t.console ++ listed M rest = s.console ++ listed M ks)
    (fun key rest t ⟨⟨R', C', ht⟩, hrest, htext⟩ => by
      obtain ⟨v, hv⟩ := Option.ne_none_iff_exists'.1 (hrest key List.mem_cons_self)
      obtain ⟨t', hline, ht', hcon⟩ := ht.listKey hc hpol hv
      refine ⟨t', hline, ⟨R', C', ht'⟩, fun key' hk' => hrest key' (List.mem_cons_of_mem _ hk'), ?_⟩
      rw [hcon, ByteArray.append_assoc, ← htext, listed, hv]
      rfl)
    ks s ⟨⟨R, C, h⟩, hks, rfl⟩
  obtain ⟨⟨R', C', h'⟩, -, htext⟩ := hinv
  refine ⟨s', R', C', hrun, h', ?_⟩
  rw [← htext, listed, ByteArray.append_empty]

/-- Listing the user partition keeps the invariant. When it succeeds it has written, after what
was written before, one line for each key the client expects to hold a value, each key once;
otherwise a write-back of its flush failed, or the store, which then holds what the client
expects, ran out of steps walking its table, its limit short of two rounds of its ring. -/
theorem dump (h : Serves o s M F R C) :
    ∃ s' F' R' C', Serves o s' M F' R' C' ∧
      (((SiteM.dump 1).run.run s = (.ok (), s') ∧ ∃ ks : List ByteArray, ks.Nodup ∧
          (∀ key, key ∈ ks ↔ M key ≠ none) ∧ s'.console = s.console ++ listing M ks) ∨
        (∃ fs, (SiteM.dump 1).run.run s = (.error (.joined fs), s') ∧ fs ≠ [] ∧
          ∀ f ∈ fs, StoreM.Refusal f) ∨
        (∃ f, (SiteM.dump 1).run.run s = (.error f, s') ∧ f.is .corrupt ∧ F' = M ∧
          (s'.engine .user).store.walkLimit < 2 * (R'.records.length + 1))) := by
  obtain ⟨s1, F1, R1, C1, h1, hcon, hres⟩ := h.flush hc hpol
  have hflag : (1 == Partition.user.index) = true := rfl
  unfold SiteM.dump
  simp only [hflag, if_true, run_bind]
  rcases hres with ⟨hok, hF⟩ | ⟨fs, herr, hne, hrefused⟩
  · -- the store now holds what the client expects, and lists its keys
    subst F1
    obtain ⟨ks, f, e', hkeys, hreads, hnodup, hmem, hf⟩ := h1.faithful.keys hc hpol
    dsimp only at hkeys hreads hmem hf
    have h2 := h1.reads hreads
    simp only [hok, SiteM.run_resolve_user h1.opened]
    rw [SiteM.run_onStore hkeys]
    by_cases hnf : f.is .notFound = true
    · simp only [if_pos hnf]
      split
      · -- no key: a note is written
        rename_i hempty
        have hks : ks = [] := List.isEmpty_iff.1 hempty
        subst hks
        simp only [SiteM.run_out, run_bind]
        refine ⟨_, M, R1, C1, h2.console _, .inl ⟨rfl, [], List.nodup_nil, hmem, ?_⟩⟩
        rw [Site.withEngine_console, hcon]
        rfl
      · rename_i hempty
        obtain ⟨s3, R3, C3, hlist, h3, htext⟩ :=
          h2.forM_listKey hc hpol ks fun key hk => (hmem key).1 hk
        rw [hlist]
        refine ⟨s3, M, R3, C3, h3, .inl ⟨rfl, ks, hnodup, hmem, ?_⟩⟩
        rw [htext, Site.withEngine_console, hcon, listing, if_neg hempty]
    · -- the walk of the table ran out of steps before the keys were all found
      simp only [if_neg hnf]
      have hlimit : (s1.engine .user).store.walkLimit < 2 * (R1.records.length + 1) ∧
          f.is .corrupt := by
        rcases hf with rfl | hlimit
        · exact absurd (by simp [Fault.is, Fault.kinds]) hnf
        · exact hlimit
      refine ⟨_, M, R1, C1, h2, .inr (.inr ⟨f, rfl, hlimit.2, rfl, ?_⟩)⟩
      rw [Site.engine_withEngine, hreads.1]
      exact hlimit.1
  · simp only [herr]
    exact ⟨s1, F1, R1, C1, h1, .inr (.inl ⟨fs, rfl, hne, hrefused⟩)⟩

end Serves

end Storage

end NorStore
