import NorStore.Proofs.Client

/-!
# Writes the user partition refuses

A write to the user partition that fails, whether plain, cached or a deletion, refuses its
arguments or finds no space (`StoreM.Refusal`), and the user store holds what it held. What it
can lose is in the cache. A plain write drops the cache entry of its key before the store looks
at the value, and so does a cached write the cache does not take: a dirty value of the key that
was never written back is gone with the entry. No other key changes.

*After a failure* (`Serves.refused`). A site that serves a client's map `M` over a user store
holding `F` serves, after a failed write of `key`, the map that gives `key` what the store held
of it and every other key what `M` gives it.

*Reads* (`Serves.getPlain_congr`, `Serves.getPlain_stored`). What a plain read of the manager
answers depends only on what the client expects of the key, for a key no store can hold too.

*Main statement* (`Serving.refused_write_reads`). In every site a client reaches, a write, a
cached write or a deletion of `key` that fails is a refusal; afterwards every other key reads
through the manager as it did, and `key` reads what the user store itself answered for it
before the call.
-/

namespace NorStore

/-- An action whose answer is dropped fails exactly as the action does. -/
theorem run_discard_error {ε σ α : Type} {x : ExceptT ε (StateM σ) α} {s s' : σ} {f : ε}
    (h : (discard x).run.run s = (.error f, s')) : x.run.run s = (.error f, s') := by
  rw [run_discard] at h
  rcases hx : x.run.run s with ⟨r, t⟩
  rw [hx] at h
  cases r with
  | ok a => exact absurd (Prod.mk.inj h).1 (by simp [Except.map])
  | error g =>
    obtain ⟨hg, rfl⟩ := Prod.mk.inj h
    cases hg
    rfl

namespace Storage

/-- A key no store can hold has no value in a map that gives values to usable keys only. -/
theorem eq_none_of_unusable {key : ByteArray} (hk : Entry.padKey? key = none)
    {w : Option ByteArray} (hw : w ≠ none → ∃ k, Entry.padKey? key = some k) : w = none := by
  by_contra hne
  obtain ⟨k, hk'⟩ := hw hne
  exact absurd (hk.symm.trans hk') (by simp)

namespace Serves

variable {o : Options} {s s' s₁ : Site} {M F M₁ F₁ : ByteArray → Option ByteArray} {R R₁ : Ring}
  {C C₁ : Cache} {key : ByteArray} {f : Fault}

/-- Dropping the cache entry of `key` leaves the client expecting of `key` what the store holds
of it. -/
theorem dropEntry (h : Serves o s M F R C) (key : ByteArray) :
    Serves o { s with manager := { s.manager with cache := some (C.remove key) } }
      (Function.update M key (F key)) F R (C.remove key) := by
  have hagree := h.agrees.remove key (F key)
  rw [Function.update_eq_self] at hagree
  refine h.setCache hagree (h.expectable.update (h.faithful.usable key) fun v hv => ?_)
  -- a stored value is the live value of a key of the ring, which is never empty
  obtain ⟨k, hk⟩ := h.faithful.usable key (show F key ≠ none by simp [hv])
  have hview : R.view k = some v := (h.faithful.agrees key k hk).trans hv
  obtain ⟨-, -, -, hsize⟩ := (Ring.view_eq_some_iff (c := o.storeConfig .user)).1 hview
  exact hsize

/-- A plain read of a key no store can hold fails as an invalid key: no cache entry holds it. -/
theorem getPlain_invalid (h : Serves o s M F R C) (hk : Entry.padKey? key = none) :
    ((SiteM.getPlain 1 key).run.run s).1 =
      .error (.store "get" key none "" (some (.kind .invalidKey))) := by
  obtain ⟨d, hd, hdirty, -⟩ := h.run_dirtyValue key
  unfold SiteM.getPlain
  simp only [run_bind, hd]
  cases d with
  | some v =>
    -- a dirty value is expected of the key, which is then usable
    have hM : M key = none := eq_none_of_unusable hk (h.expectable.usable key)
    exact absurd (hdirty v rfl) (by rw [hM]; simp)
  | none =>
    obtain ⟨e', hget, -⟩ := StoreM.run_get_invalid hk (s.engine .user)
    simp only [run_bind, SiteM.run_resolve_user h.opened]
    rw [SiteM.run_onStore hget]

section Refusals

variable (hc : (o.storeConfig .user).Usable) (hpol : Flash.Polar (o.storeConfig .user).eraseValue)
include hc hpol

/-- What a plain read answers depends only on what the client expects of the key. -/
theorem getPlain_congr (h : Serves o s M F R C) (h₁ : Serves o s₁ M₁ F₁ R₁ C₁)
    (hkey : M key = M₁ key) :
    ((SiteM.getPlain 1 key).run.run s).1 = ((SiteM.getPlain 1 key).run.run s₁).1 := by
  cases hk : Entry.padKey? key with
  | none => rw [h.getPlain_invalid hk, h₁.getPlain_invalid hk]
  | some k =>
    obtain ⟨r, t, hrun, -, hans⟩ := h.getPlain hc hpol key
    obtain ⟨r₁, t₁, hrun₁, -, hans₁⟩ := h₁.getPlain hc hpol key
    rw [hrun, hrun₁, hans k hk, hans₁ k hk, hkey]

/-- A plain read of a key the client expects to hold what another site's user store holds
answers what that store answers. -/
theorem getPlain_stored (h : Serves o s M F R C) (h₁ : Serves o s₁ M₁ F₁ R₁ C₁)
    (hkey : M₁ key = F key) :
    ((SiteM.getPlain 1 key).run.run s₁).1 = ((StoreM.get key).run.run (s.engine .user)).1 := by
  cases hk : Entry.padKey? key with
  | none =>
    obtain ⟨e', hget, -⟩ := StoreM.run_get_invalid hk (s.engine .user)
    rw [h₁.getPlain_invalid hk, hget]
  | some k =>
    obtain ⟨r, t, hrun, -, hans⟩ := h₁.getPlain hc hpol key
    obtain ⟨r₀, e₀, hget, -, -, hans₀⟩ := h.run_get hc hpol key
    rw [hrun, hget, hans k hk, hans₀ k hk, hkey]

/-- A write through the cache that fails drops the key's cache entry and nothing else. -/
theorem writeThrough_refused (h : Serves o s M F R C) {data : ByteArray}
    (hrun : (SiteM.writeThrough .user key data).run.run s = (.error f, s')) :
    StoreM.Refusal f ∧ ∃ R', Serves o s' (Function.update M key (F key)) F R' (C.remove key) := by
  unfold SiteM.writeThrough at hrun
  simp only [run_bind, SiteM.run_modifyCache, h.cache, Option.map_some] at hrun
  rcases hw : (StoreM.write key data).run.run (s.engine .user) with ⟨res, e'⟩
  -- dropping the entry leaves the user store's engine as it was
  have hw' : (StoreM.write key data).run.run
      ({ s with manager := { s.manager with cache := some (C.remove key) } }.engine .user) =
      (res, e') := hw
  rw [SiteM.run_onStore hw'] at hrun
  obtain ⟨rfl, rfl⟩ := Prod.mk.inj hrun
  exact (h.dropEntry key).writeFailed hc hpol hw'

/-- A plain write that fails is a write through the cache that fails. -/
theorem writePlain_refused (h : Serves o s M F R C) {data : ByteArray}
    (hrun : (SiteM.writePlain 1 key data).run.run s = (.error f, s')) :
    StoreM.Refusal f ∧ ∃ R', Serves o s' (Function.update M key (F key)) F R' (C.remove key) :=
  h.writeThrough_refused hc hpol ((h.run_writePlain key data).symm.trans hrun)

/-- Making room that fails is a write-back that fails: the key the cache is to take has no entry,
so the client already expects of it what the store holds. -/
theorem makeRoom_refused (h : Serves o s M F R C)
    (hrun : (SiteM.makeRoom .user C key).run.run s = (.error f, s')) :
    StoreM.Refusal f ∧ ∃ R', Serves o s' (Function.update M key (F key)) F R' C := by
  unfold SiteM.makeRoom at hrun
  cases hv : C.victim key with
  | none =>
    simp only [hv, run_pure] at hrun
    exact absurd (Prod.mk.inj hrun).1 (by simp)
  | some v =>
    have hM : Function.update M key (F key) = M := by
      rw [h.agrees.find?_none (Cache.victim_find? hv), Function.update_eq_self]
    rw [hM]
    cases hd : v.dirty with
    | false =>
      simp only [hv, hd, Bool.false_eq_true, if_false, run_pure] at hrun
      exact absurd (Prod.mk.inj hrun).1 (by simp)
    | true =>
      simp only [hv, hd, if_true, run_bind, run_discard] at hrun
      rcases hw : (StoreM.write v.key v.value).run.run (s.engine .user) with ⟨res, e'⟩
      rw [SiteM.run_onStore hw] at hrun
      cases res with
      | ok m =>
        simp only [Except.map, SiteM.run_modifyCache, Site.withEngine_cache, h.cache,
          Option.map_some] at hrun
        obtain ⟨s2, hflush, -⟩ := SiteM.run_recordFlush 1 _
        rw [hflush] at hrun
        exact absurd (Prod.mk.inj hrun).1 (by simp)
      | error g =>
        simp only [Except.map] at hrun
        obtain ⟨hg, rfl⟩ := Prod.mk.inj hrun
        cases hg
        exact h.writeFailed hc hpol hw

/-- Caching a value dirty fails only when the cache, full of dirty entries, does not take it and
the write through it fails. -/
theorem cacheDirty_refused (h : Serves o s M F R C) {data : ByteArray}
    (hrun : (SiteM.cacheDirty .user key data).run.run s = (.error f, s')) :
    StoreM.Refusal f ∧ ∃ R', Serves o s' (Function.update M key (F key)) F R' (C.remove key) := by
  unfold SiteM.cacheDirty at hrun
  simp only [run_bind, SiteM.run_manager, run_pure, h.cache] at hrun
  cases hok : (C.put key data true).2 with
  | true =>
    simp only [hok, if_true, run_bind, SiteM.run_modifyManager] at hrun
    obtain ⟨s2, hpub, -⟩ := SiteM.run_publishDirty
      { s with manager := { s.manager with cache := some (C.put key data true).1 } }
    rw [hpub] at hrun
    exact absurd (Prod.mk.inj hrun).1 (by simp)
  | false =>
    simp only [hok, Bool.false_eq_true, if_false] at hrun
    exact h.writeThrough_refused hc hpol hrun

/-- A cached write that fails leaves the client expecting of the key what the store holds: a
value the cache does not take goes through a plain write, a key no store can hold is refused
before anything changes, and a failed write-back of the entry the key would push out changes no
key. -/
theorem writeCached_refused (h : Serves o s M F R C) {data : ByteArray}
    (hrun : (SiteM.writeCached 1 key data).run.run s = (.error f, s')) :
    StoreM.Refusal f ∧ ∃ F' R' C', Serves o s' (Function.update M key (F key)) F' R' C' := by
  unfold SiteM.writeCached at hrun
  simp only [run_bind, SiteM.run_userCache_user, h.cache] at hrun
  by_cases hfit : C.fits data.size = true
  · simp only [hfit, Bool.not_true, Bool.false_eq_true, if_false, run_bind,
      SiteM.run_resolve_user h.opened] at hrun
    cases hk : Entry.padKey? key with
    | none =>
      simp only [hk, Option.isNone_none, if_true] at hrun
      obtain ⟨hg, rfl⟩ := Prod.mk.inj hrun
      cases hg
      -- neither the client nor the store has a value for a key no store can hold
      have hF : F key = none := eq_none_of_unusable hk (h.faithful.usable key)
      have hM : Function.update M key (F key) = M := by
        rw [hF, ← eq_none_of_unusable hk (h.expectable.usable key), Function.update_eq_self]
      exact ⟨Or.inl (by simp only [Fault.kinds]), F, R, C, by rw [hM]; exact h⟩
    | some k =>
      simp only [hk, Option.isNone_some, Bool.false_eq_true, if_false] at hrun
      by_cases hh : C.holds key data = true
      · simp only [hh, if_true, run_pure] at hrun
        exact absurd (Prod.mk.inj hrun).1 (by simp)
      · simp only [hh, Bool.false_eq_true, if_false, run_bind] at hrun
        rcases hroom : (SiteM.makeRoom .user C key).run.run s with ⟨res, s1⟩
        rw [hroom] at hrun
        cases res with
        | error g =>
          obtain ⟨hg, rfl⟩ := Prod.mk.inj hrun
          cases hg
          obtain ⟨hf, R', h'⟩ := h.makeRoom_refused hc hpol hroom
          exact ⟨hf, F, R', C, h'⟩
        | ok u =>
          -- room was made by writing back another key, so the store still holds the same of `key`
          obtain ⟨F1, R1, C1, h1, hF1⟩ := h.makeRoom hc hpol hroom
          obtain ⟨hf, R', h'⟩ := h1.cacheDirty_refused hc hpol hrun
          rw [hF1] at h'
          exact ⟨hf, F1, R', _, h'⟩
  · simp only [hfit, Bool.not_false, if_true] at hrun
    obtain ⟨hf, R', h'⟩ := h.writePlain_refused hc hpol hrun
    exact ⟨hf, F, R', _, h'⟩

/-- A write, a cached write or a deletion of `key` that fails refuses its arguments or finds no
space, and leaves the client expecting of `key` what the store holds. -/
theorem refused (h : Serves o s M F R C) {q : Request} {data : ByteArray}
    (hq : q = .write key data ∨ q = .writeCached key data ∨ q = .delete key)
    (hrun : q.run.run.run s = (.error f, s')) :
    StoreM.Refusal f ∧ ∃ F' R' C', Serves o s' (Function.update M key (F key)) F' R' C' := by
  rcases hq with rfl | rfl | rfl
  · obtain ⟨hf, R', h'⟩ := h.writePlain_refused hc hpol (run_discard_error hrun)
    exact ⟨hf, F, R', _, h'⟩
  · exact h.writeCached_refused hc hpol (run_discard_error hrun)
  · -- a deletion is the plain write of an empty value
    obtain ⟨hf, R', h'⟩ := h.writePlain_refused hc hpol (run_discard_error hrun)
    exact ⟨hf, F, R', _, h'⟩

/-- A plain write of a value longer than the user store takes fails, whatever the cache holds. -/
theorem writePlain_tooLarge (h : Serves o s M F R C) {k : Vector UInt8 24}
    (hk : Entry.padKey? key = some k) {data : ByteArray}
    (hbig : (data.size : Int) > (o.storeConfig .user).maxValueSize) :
    ∃ f s', (SiteM.writePlain 1 key data).run.run s = (.error f, s') := by
  obtain ⟨res, e', hw, R', -, -, -, hend, -⟩ := StoreM.run_write_ends hc hpol h.faithful.stored
    h.faithful.atRest h.faithful.mounted key data
  have hw' : (StoreM.write key data).run.run
      ({ s with manager := { s.manager with cache := some (C.remove key) } }.engine .user) =
      (res, e') := hw
  -- the store refuses the value before it looks at anything else
  obtain ⟨f, rfl⟩ : ∃ f, res = .error f := by
    cases hend with
    | badKey hk' => exact absurd (hk'.symm.trans hk) (by simp)
    | tooLarge => exact ⟨_, rfl⟩
    | unchanged _ hsize => omega
    | appended _ _ hsize => omega
    | full _ _ hsize => omega
  rw [h.run_writePlain key data]
  unfold SiteM.writeThrough
  simp only [run_bind, SiteM.run_modifyCache, h.cache, Option.map_some]
  exact ⟨f, _, SiteM.run_onStore hw'⟩

end Refusals

end Serves

variable {o : Options}

/-- A failed write loses at most the unflushed value of its own key. In every site a client
reaches, a write, a cached write or a deletion of `key` on the user partition that fails refuses
its arguments or finds no space; afterwards every other key reads through the manager as it did
before the call, and `key` reads what the user store itself answered for it before the call. A
dirty cached value of `key` that was never written back is lost when the call drops the key's
cache entry before the store refuses the value, as a plain write and a deletion always do. -/
theorem Serving.refused_write_reads (hv : o.validate = .ok ()) (hpol : Flash.Polar o.eraseValue)
    (hcache : 0 < o.cacheEntries) {s s' : Site} {M : ByteArray → Option ByteArray}
    (hs : Serving o s M) {key data : ByteArray} {q : Request}
    (hq : q = .write key data ∨ q = .writeCached key data ∨ q = .delete key) {f : Fault}
    (hrun : q.run.run.run s = (.error f, s')) :
    StoreM.Refusal f ∧
      (∀ key', key' ≠ key →
        ((SiteM.getPlain 1 key').run.run s').1 = ((SiteM.getPlain 1 key').run.run s).1) ∧
      ((SiteM.getPlain 1 key).run.run s').1 = ((StoreM.get key).run.run (s.engine .user)).1 := by
  have hc := Config.usable_of_validate (Options.storeConfig_validate hv .user)
  obtain ⟨F, R, C, h⟩ := hs.serves hv hpol hcache
  obtain ⟨hf, F', R', C', h'⟩ := h.refused hc hpol hq hrun
  refine ⟨hf, fun key' hne => ?_, h.getPlain_stored hc hpol h' (Function.update_self ..)⟩
  exact h'.getPlain_congr hc hpol h (Function.update_of_ne hne _ _)

/-- With `a` cached under `k` and `b` under `j`, a plain write of 100 bytes under `k` is refused, a
user sector taking values of 30 bytes at most: every other key reads as before, and `k` reads as
the store holds it. -/
theorem refused_write_reads_cached :
    ∃ s s' f, Serving sampleOptions s
        (Function.update (Function.update (fun _ => none) ⟨#[107]⟩ (some ⟨#[97]⟩))
          ⟨#[106]⟩ (some ⟨#[98]⟩)) ∧
      (Request.write ⟨#[107]⟩ ⟨Array.replicate 100 0x41⟩).run.run.run s = (.error f, s') ∧
      StoreM.Refusal f ∧
      (∀ key', key' ≠ ⟨#[107]⟩ →
        ((SiteM.getPlain 1 key').run.run s').1 = ((SiteM.getPlain 1 key').run.run s).1) ∧
      ((SiteM.getPlain 1 ⟨#[107]⟩).run.run s').1 =
        ((StoreM.get ⟨#[107]⟩).run.run (s.engine .user)).1 := by
  have hv : sampleOptions.validate = .ok () := rfl
  obtain ⟨s, hs⟩ := serving_cached
  obtain ⟨F, R, C, h⟩ := hs.serves hv (.inr rfl) (by decide)
  have hc := Config.usable_of_validate (Options.storeConfig_validate hv .user)
  obtain ⟨k, hk⟩ := Option.isSome_iff_exists.1 Session.sampleKeys_usable.1
  obtain ⟨f, s', hw⟩ := h.writePlain_tooLarge hc (.inr rfl) hk
    (show ((ByteArray.mk (Array.replicate 100 0x41)).size : Int) >
      (sampleOptions.storeConfig .user).maxValueSize by decide)
  have hrun : (Request.write ⟨#[107]⟩ ⟨Array.replicate 100 0x41⟩).run.run.run s =
      (.error f, s') := by
    show (discard (SiteM.writePlain 1 _ _)).run.run s = _
    rw [run_discard, hw]
    rfl
  exact ⟨s, s', f, hs, hrun,
    Serving.refused_write_reads hv (.inr rfl) (by decide) hs (Or.inl rfl) hrun⟩

end Storage

end NorStore
