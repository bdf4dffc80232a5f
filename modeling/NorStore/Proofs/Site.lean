import NorStore.Proofs.Cache
import NorStore.Proofs.Frame
import NorStore.Storage.Manager

/-!
# The manager over the user partition

A manager runs each store operation on the engine of one partition (`Site.engine`) and puts the
engine it leaves back (`Site.withEngine`); around the store operations it only logs, meters and
changes its cache. This module gives the run of each of its primitives, and the invariant that
ties an open manager to the map its client expects of the user partition (`Serves`):

* the user store is faithful to a map `stored` on a ring at rest, as a session of its own;
* the cache agrees between the expected map and `stored` (`Cache.Agrees`);
* every key the client expects to hold a value is usable, and the value is not empty.

Logging, metering and lookups keep the invariant as it is; a store write changes `stored` as the
store's own session does. Here each way of writing keeps it: plain writes, deletions, clearing
and formatting, and cached writes, which may write back the entry they push out of the cache.
-/

namespace NorStore

/-- A buffer of `n` bytes or more takes a whole value. -/
theorem ByteArray.extract_min (b : ByteArray) (n : Nat) : b.extract 0 (min n b.size) = b.extract 0 n := by
  apply ByteArray.ext
  rw [ByteArray.data_extract, ByteArray.data_extract]
  by_cases hn : n ≤ b.size
  · rw [Nat.min_eq_left hn]
  · have hlt : b.data.size < n := by
      simp only [ByteArray.size] at hn
      omega
    rw [Nat.min_eq_right (by omega), Array.extract_of_size_lt hlt]
    rfl

theorem run_discard {ε σ α : Type} (x : ExceptT ε (StateM σ) α) (s : σ) :
    (discard x).run.run s = ((x.run.run s).1.map fun _ => (), (x.run.run s).2) := by
  have hx : discard x = x >>= fun _ => pure () := by
    rw [discard, LawfulFunctor.map_const, Function.comp_apply, map_eq_pure_bind]
  rw [hx, run_bind]
  rcases x.run.run s with ⟨r, t⟩
  cases r <;> rfl

/-- What reading a key answers when it holds `v`: the value, or the `notFound` fault of the
operation `op`. -/
def lookupAnswer (op : String) (key : ByteArray) : Option ByteArray → Except Fault ByteArray
  | some v => .ok v
  | none => .error (.store op key none "" (some (.kind .notFound)))

/-- What reading a key into a buffer of `size` bytes answers when it holds `v`: the length of the
value and as much of it as fits, or the `notFound` fault of the operation `op`. -/
def readAnswer (op : String) (key : ByteArray) (size : Nat) :
    Option ByteArray → Except Fault (Nat × ByteArray)
  | some v => .ok (v.size, v.extract 0 size)
  | none => .error (.store op key none "" (some (.kind .notFound)))

/-! ## Sessions of the store under a manager -/

namespace Session

variable {c : Config} {s : Session} {R : Ring}

/-- Reading a usable key of a faithful session answers what the client expects of it, and only
reads. -/
theorem Faithful.get (hc : c.Usable) (hpol : Flash.Polar c.eraseValue) (h : s.Faithful c R)
    {key : ByteArray} {k : Vector UInt8 24} (hk : Entry.padKey? key = some k) :
    ∃ e', (StoreM.get key).run.run s.engine = (lookupAnswer "get" key (s.expected key), e') ∧
      s.engine.Reads e' := by
  obtain ⟨e', hget, hr⟩ := StoreM.run_get hc hpol h.stored h.mounted hk
  refine ⟨e', ?_, hr⟩
  rw [hget, h.agrees key k hk]
  cases s.expected key <;> rfl

/-- Reading a usable key of a faithful session into a buffer answers the length of what the
client expects of it and as much of it as fits, and only reads. -/
theorem Faithful.readVersion (hc : c.Usable) (hpol : Flash.Polar c.eraseValue)
    (h : s.Faithful c R) {key : ByteArray} {k : Vector UInt8 24} (hk : Entry.padKey? key = some k)
    (size : Nat) :
    ∃ e', (StoreM.readVersion key size 0).run.run s.engine =
      (readAnswer "read" key size (s.expected key), e') ∧ s.engine.Reads e' := by
  obtain ⟨e', hread, hr⟩ := StoreM.run_readVersion hc hpol h.stored h.mounted hk size
  refine ⟨e', ?_, hr⟩
  rw [hread, h.agrees key k hk]
  cases s.expected key with
  | none => rfl
  | some v => simp only [readAnswer, ByteArray.extract_min]

/-- A write that succeeds leaves a faithful session, expecting the written value. -/
theorem Faithful.write_ok (hc : c.Usable) (hpol : Flash.Polar c.eraseValue) (h : s.Faithful c R)
    {key data : ByteArray} {n : Nat} {e' : Engine}
    (hrun : (StoreM.write key data).run.run s.engine = (.ok n, e')) :
    ∃ R', Session.Faithful c
      ⟨e', Function.update s.expected key (if data.size = 0 then none else some data)⟩ R' := by
  obtain ⟨-, R', hR'⟩ := h.write hc hpol key data
  have hcall : (Call.write key data).run s.engine = (.ok (), e') := by
    simp only [Call.run, hrun]
    rfl
  rw [step_ok hcall] at hR'
  exact ⟨R', hR'⟩

/-- A write that fails refuses its arguments or finds no space, and leaves a faithful session
expecting what it did. -/
theorem Faithful.write_error (hc : c.Usable) (hpol : Flash.Polar c.eraseValue)
    (h : s.Faithful c R) {key data : ByteArray} {f : Fault} {e' : Engine}
    (hrun : (StoreM.write key data).run.run s.engine = (.error f, e')) :
    StoreM.Refusal f ∧ ∃ R', Session.Faithful c ⟨e', s.expected⟩ R' := by
  obtain ⟨res, e2, hrun2, R', hst', hrest', hm', hw⟩ :=
    StoreM.run_write hc hpol h.stored h.atRest h.mounted key data
  rw [hrun] at hrun2
  obtain ⟨rfl, rfl⟩ := Prod.mk.inj hrun2
  exact ⟨hw.1, R', h.keep hst' hrest' hm' hw.2⟩

/-- A session stays faithful to the same ring when its engine only reads. -/
theorem Faithful.reads (h : s.Faithful c R) {e' : Engine} (hr : s.engine.Reads e') :
    Session.Faithful c ⟨e', s.expected⟩ R :=
  h.keep (h.stored.reads hr) h.atRest (by rw [hr.1]; exact h.mounted) rfl

end Session

namespace Storage

/-- Valid options give each partition valid options of its own. -/
theorem Options.validatePartition_of_validate {o : Options} (hv : o.validate = .ok ())
    (p : Partition) : o.validatePartition p = .ok () := by
  unfold Options.validate at hv
  cases hf : o.validatePartition .factory with
  | error f => simp [hf, bind, Except.bind] at hv
  | ok u =>
    cases hu : o.validatePartition .user with
    | error f => simp [hf, hu, bind, Except.bind] at hv
    | ok w => cases p <;> assumption

/-- Valid options give each partition a valid store configuration. -/
theorem Options.storeConfig_validate {o : Options} (hv : o.validate = .ok ()) (p : Partition) :
    (o.storeConfig p).validate = .ok () := by
  have hpart := Options.validatePartition_of_validate hv p
  cases hc : (o.storeConfig p).validate with
  | ok u => rfl
  | error f =>
    -- an invalid store configuration fails the partition's check, aligned or not
    unfold Options.validatePartition at hpart
    simp only [hc] at hpart
    split at hpart <;>
      exact absurd hpart (by simp [throw, throwThe, MonadExceptOf.throw, bind, Except.bind])

/-! ## The engines of a site -/

/-- The engine a store operation on partition `p` runs on. -/
def Site.engine (s : Site) (p : Partition) : Engine :=
  ⟨s.manager.store p, s.rig⟩

/-- The site once a store operation on partition `p` has left the engine `e`. -/
def Site.withEngine (s : Site) (p : Partition) (e : Engine) : Site :=
  { s with manager := s.manager.setStore p e.store, rig := e.rig }

/-- `s'` is `s` after logging and metering: the same manager, part and text for the reader. -/
def Site.Quiet (s s' : Site) : Prop :=
  s'.manager = s.manager ∧ s'.rig.chip = s.rig.chip ∧ s'.console = s.console

namespace Site

variable {s s' s'' : Site} {p : Partition} {e : Engine}

@[simp] theorem store_setStore (m : Manager) (p : Partition) (st : Store) :
    (m.setStore p st).store p = st := by
  cases p <;> rfl

@[simp] theorem engine_withEngine : (s.withEngine p e).engine p = e := by
  simp [engine, withEngine]

@[simp] theorem withEngine_cache : (s.withEngine p e).manager.cache = s.manager.cache := by
  cases p <;> rfl

@[simp] theorem withEngine_options : (s.withEngine p e).manager.options = s.manager.options := by
  cases p <;> rfl

@[simp] theorem withEngine_closed : (s.withEngine p e).manager.closed = s.manager.closed := by
  cases p <;> rfl

@[simp] theorem withEngine_console : (s.withEngine p e).console = s.console := rfl

theorem Quiet.refl (s : Site) : s.Quiet s := ⟨rfl, rfl, rfl⟩

theorem Quiet.trans (h : s.Quiet s') (h' : s'.Quiet s'') : s.Quiet s'' :=
  ⟨h'.1.trans h.1, h'.2.1.trans h.2.1, h'.2.2.trans h.2.2⟩

/-- After logging and metering, a store operation runs on the same store and part. -/
theorem Quiet.engine (h : s.Quiet s') (p : Partition) : (s.engine p).Quiet (s'.engine p) := by
  show Engine.Quiet ⟨s.manager.store p, s.rig⟩ ⟨s'.manager.store p, s'.rig⟩
  rw [h.1]
  exact ⟨rfl, h.2.1⟩

end Site

/-! ## The primitives of the manager -/

namespace SiteM

variable {α : Type} {s : Site} {p : Partition} {act : StoreM α} {r : Except Fault α} {e : Engine}

@[simp] theorem run_manager (s : Site) : manager.run.run s = (.ok s.manager, s) := rfl

@[simp] theorem run_modifyManager (f : Manager → Manager) (s : Site) :
    (modifyManager f).run.run s = (.ok (), { s with manager := f s.manager }) := rfl

@[simp] theorem run_modifyCache (f : Cache → Cache) (s : Site) :
    (modifyCache f).run.run s =
      (.ok (), { s with manager := { s.manager with cache := s.manager.cache.map f } }) := rfl

@[simp] theorem run_out (b : ByteArray) (s : Site) :
    (out b).run.run s = (.ok (), { s with console := s.console ++ b }) := rfl

theorem run_logAt (l : Log.Level) (msg : String) (fs : List Log.Field) (s : Site) :
    ∃ s', (logAt l msg fs).run.run s = (.ok (), s') ∧ s.Quiet s' :=
  ⟨_, rfl, rfl, rfl, rfl⟩

@[simp] theorem run_meter (f : Metrics.Registry → Metrics.Registry) (s : Site) :
    (meter f).run.run s = (.ok (), { s with rig := { s.rig with meters := s.rig.meters.map f } }) :=
  rfl

theorem run_publishDirty (s : Site) : ∃ s', publishDirty.run.run s = (.ok (), s') ∧ s.Quiet s' := by
  unfold publishDirty
  simp only [run_bind, run_manager]
  cases s.manager.cache with
  | none => exact ⟨s, rfl, Site.Quiet.refl s⟩
  | some c => exact ⟨_, run_meter _ s, rfl, rfl, rfl⟩

theorem run_recordFlush (n : Nat) (s : Site) :
    ∃ s', (recordFlush n).run.run s = (.ok (), s') ∧ s.Quiet s' := by
  unfold recordFlush
  simp only [run_bind, run_manager]
  cases s.manager.cache with
  | none => exact ⟨s, rfl, Site.Quiet.refl s⟩
  | some c => exact ⟨_, run_meter _ s, rfl, rfl, rfl⟩

/-- A store operation runs on the engine of its partition, which the site then takes. -/
theorem run_onStore (h : act.run.run (s.engine p) = (r, e)) :
    (onStore p act).run.run s = (r, s.withEngine p e) := by
  have h' : act.run.run ⟨s.manager.store p, s.rig⟩ = (r, e) := h
  simp only [onStore, run_bind, run_monadGet, h', run_set]
  cases r <;> rfl

/-- An open manager names the user partition by 1. -/
theorem run_resolve_user (hopen : s.manager.closed = false) :
    (resolve 1).run.run s = (.ok .user, s) := by
  simp only [resolve, run_bind, run_manager, hopen, Bool.false_eq_true, if_false]
  rfl

theorem run_userCache_user (s : Site) : (userCache? 1).run.run s = (.ok s.manager.cache, s) :=
  rfl

end SiteM

/-! ## The user partition as its client expects it -/

/-- A map a client can expect of a store: only usable keys hold values, and no value is empty. -/
structure Expectable (expected : ByteArray → Option ByteArray) : Prop where
  usable : ∀ key, expected key ≠ none → ∃ k, Entry.padKey? key = some k
  sized : ∀ key v, expected key = some v → v.size ≠ 0

theorem Expectable.empty : Expectable fun _ => none where
  usable _ h := absurd rfl h
  sized _ _ h := absurd h (Option.some_ne_none _).symm

/-- Changing what a usable key holds to a value that is not empty, or to nothing, keeps a map
expectable. -/
theorem Expectable.update {M : ByteArray → Option ByteArray} (h : Expectable M) {key : ByteArray}
    {w : Option ByteArray} (hk : w ≠ none → ∃ k, Entry.padKey? key = some k)
    (hw : ∀ v, w = some v → v.size ≠ 0) : Expectable (Function.update M key w) where
  usable key' hkey' := by
    by_cases h' : key' = key
    · rw [h', Function.update_self] at hkey'
      exact h' ▸ hk hkey'
    · rw [Function.update_of_ne h'] at hkey'
      exact h.usable key' hkey'
  sized key' v hv := by
    by_cases h' : key' = key
    · rw [h', Function.update_self] at hv
      exact hw v hv
    · rw [Function.update_of_ne h'] at hv
      exact h.sized key' v hv

/-- What a write of `data` makes a client expect is empty only as a deletion. -/
theorem written_sized (data : ByteArray) (v : ByteArray)
    (h : (if data.size = 0 then none else some data) = some v) : v.size ≠ 0 := by
  split at h
  · exact absurd h (Option.some_ne_none _).symm
  · rename_i hsize
    rw [← Option.some.inj h]
    exact hsize

/-- An open manager over the user partition, for a client that expects `expected` of it: the
user store is faithful to `stored` on the ring `R`, the cache `C` agrees between the two maps,
and the expected map is one a client can expect. -/
structure Serves (o : Options) (s : Site) (expected stored : ByteArray → Option ByteArray)
    (R : Ring) (C : Cache) : Prop where
  options : s.manager.options = o
  opened : s.manager.closed = false
  cache : s.manager.cache = some C
  agrees : Cache.Agrees C.entries expected stored
  faithful : Session.Faithful (o.storeConfig .user) ⟨s.engine .user, stored⟩ R
  expectable : Expectable expected

namespace Serves

variable {o : Options} {s s' : Site} {M F : ByteArray → Option ByteArray} {R : Ring} {C : Cache}

/-- Logging and metering keep the invariant. -/
theorem quiet (h : Serves o s M F R C) (hq : s.Quiet s') : Serves o s' M F R C where
  options := hq.1 ▸ h.options
  opened := hq.1 ▸ h.opened
  cache := hq.1 ▸ h.cache
  agrees := h.agrees
  faithful := by
    have hf := h.faithful.reads (hq.engine .user).reads
    exact hf
  expectable := h.expectable

/-- A store operation on the user partition that leaves the store faithful to `F'` keeps the
invariant, for an expectable map the cache agrees with over `F'`. -/
theorem withEngine (h : Serves o s M F R C) {e : Engine} {M' F' : ByteArray → Option ByteArray}
    {R' : Ring} (hagree : Cache.Agrees C.entries M' F')
    (hf : Session.Faithful (o.storeConfig .user) ⟨e, F'⟩ R') (hM' : Expectable M') :
    Serves o (s.withEngine .user e) M' F' R' C where
  options := by rw [Site.withEngine_options]; exact h.options
  opened := by rw [Site.withEngine_closed]; exact h.opened
  cache := by rw [Site.withEngine_cache]; exact h.cache
  agrees := hagree
  faithful := by rw [Site.engine_withEngine]; exact hf
  expectable := hM'

/-- A store operation on the user partition that only reads keeps the invariant. -/
theorem reads (h : Serves o s M F R C) {e : Engine} (hr : (s.engine .user).Reads e) :
    Serves o (s.withEngine .user e) M F R C :=
  h.withEngine h.agrees (h.faithful.reads hr) h.expectable

/-- A new cache that agrees between the same store and an expectable map keeps the invariant, for
that map. -/
theorem setCache (h : Serves o s M F R C) {M' : ByteArray → Option ByteArray} {C' : Cache}
    (hagree : Cache.Agrees C'.entries M' F) (hM' : Expectable M') :
    Serves o { s with manager := { s.manager with cache := some C' } } M' F R C' where
  options := h.options
  opened := h.opened
  cache := rfl
  agrees := hagree
  faithful := h.faithful
  expectable := hM'

/-- Looking a key up for a dirty value: the dirty value is what the client expects, and a key
without one is stored as expected. -/
theorem run_dirtyValue (h : Serves o s M F R C) (key : ByteArray) :
    ∃ d, (SiteM.dirtyValue 1 key).run.run s = (.ok d, s) ∧ (∀ v, d = some v → M key = some v) ∧
      (d = none → F key = M key) := by
  unfold SiteM.dirtyValue
  simp only [run_bind, SiteM.run_userCache_user, h.cache]
  cases hf : C.find? key with
  | none =>
    exact ⟨none, rfl, fun _ hv => absurd hv (Option.some_ne_none _).symm,
      fun _ => h.agrees.find?_none hf⟩
  | some e =>
    obtain ⟨hk, hv⟩ := h.agrees.find? hf
    cases hd : e.dirty with
    | true =>
      refine ⟨some e.value, by simp only [hd, if_true]; rfl, fun v hsome => ?_,
        fun h0 => absurd h0 (Option.some_ne_none _)⟩
      rw [hv, hsome]
    | false =>
      -- a clean entry holds what the store holds, which is what the client expects
      refine ⟨none, by simp only [hd, Bool.false_eq_true, if_false]; rfl,
        fun _ hv => absurd hv (Option.some_ne_none _).symm, fun _ => ?_⟩
      rw [← hk, h.agrees.clean e (Cache.find?_key_eq hf).1 hd, hk, hv]

/-! ### Plain writes and emptying -/

/-- A plain write to the open user partition writes through its cache. -/
theorem run_writePlain (h : Serves o s M F R C) (key data : ByteArray) :
    (SiteM.writePlain 1 key data).run.run s = (SiteM.writeThrough .user key data).run.run s := by
  simp only [SiteM.writePlain, SiteM.writeThrough, run_bind, SiteM.run_resolve_user h.opened,
    SiteM.run_userCache_user, h.cache, Option.isSome_some, if_true]

section Plain

variable (hc : (o.storeConfig .user).Usable) (hpol : Flash.Polar (o.storeConfig .user).eraseValue)
include hc hpol

/-- Writing a key through the cache, which succeeds, drops its cache entry, and the store and the
client both take the written value; writing nothing deletes the key. -/
theorem writeThrough (h : Serves o s M F R C) {key data : ByteArray} {n : Nat} {s' : Site}
    (hrun : (SiteM.writeThrough .user key data).run.run s = (.ok n, s')) :
    ∃ F' R', Serves o s' (Function.update M key (if data.size = 0 then none else some data)) F' R'
      (C.remove key) := by
  unfold SiteM.writeThrough at hrun
  simp only [run_bind, SiteM.run_modifyCache, h.cache, Option.map_some] at hrun
  rcases hw : (StoreM.write key data).run.run (s.engine .user) with ⟨res, e'⟩
  have hw' : (StoreM.write key data).run.run
      ({ s with manager := { s.manager with cache := some (C.remove key) } }.engine .user) =
      (res, e') := hw
  rw [SiteM.run_onStore hw'] at hrun
  obtain ⟨rfl, rfl⟩ := Prod.mk.inj hrun
  -- the store took the value, so its session now expects it too
  obtain ⟨R', hR'⟩ := h.faithful.write_ok hc hpol hw
  dsimp only at hR'
  exact ⟨_, R', {
    options := by rw [Site.withEngine_options]; exact h.options
    opened := by rw [Site.withEngine_closed]; exact h.opened
    cache := by rw [Site.withEngine_cache]
    agrees := h.agrees.remove key _
    faithful := by rw [Site.engine_withEngine]; exact hR'
    expectable := h.expectable.update
      (fun hw' => hR'.usable key (by dsimp only; rw [Function.update_self]; exact hw'))
      (written_sized data) }⟩

/-- A plain write to the user partition that succeeds writes the key through the cache. -/
theorem writePlain (h : Serves o s M F R C) {key data : ByteArray} {n : Nat} {s' : Site}
    (hrun : (SiteM.writePlain 1 key data).run.run s = (.ok n, s')) :
    ∃ F' R', Serves o s' (Function.update M key (if data.size = 0 then none else some data)) F' R'
      (C.remove key) :=
  h.writeThrough hc hpol ((h.run_writePlain key data).symm.trans hrun)

/-- Deleting a key of the user partition, which succeeds, drops its cache entry and the key. -/
theorem delete (h : Serves o s M F R C) {key : ByteArray} {s' : Site}
    (hrun : (SiteM.delete 1 key).run.run s = (.ok (), s')) :
    ∃ F' R', Serves o s' (Function.update M key none) F' R' (C.remove key) := by
  unfold SiteM.delete at hrun
  rw [run_discard] at hrun
  rcases hw : (SiteM.writePlain 1 key ByteArray.empty).run.run s with ⟨res, s1⟩
  rw [hw] at hrun
  cases res with
  | error f => exact absurd (Prod.mk.inj hrun).1 (by simp [Except.map])
  | ok n =>
    obtain rfl := (Prod.mk.inj hrun).2
    simpa only [ByteArray.size_empty, if_true] using h.writePlain hc hpol hw

omit hpol in
/-- Emptying the user partition with a store operation that leaves the empty ring mounted drops
the cache: the client expects nothing. -/
theorem emptyWith (h : Serves o s M F R C) {act : StoreM Unit}
    (hact : ∀ e : Engine, e.store.config = o.storeConfig .user →
      (o.storeConfig .user).Placed e.rig.chip → e.store.mounted = true →
      ∃ e', act.run.run e = (.ok (), e') ∧ Ring.empty.Stored (o.storeConfig .user) e' ∧
        e'.store.mounted = true) :
    ∃ s', (SiteM.emptyWith act 1).run.run s = (.ok (), s') ∧
      Serves o s' (fun _ => none) (fun _ => none) Ring.empty C.clear := by
  unfold SiteM.emptyWith SiteM.dropCache
  simp only [run_bind, SiteM.run_resolve_user h.opened, SiteM.run_userCache_user, h.cache,
    Option.isSome_some, if_true, SiteM.run_modifyCache, Option.map_some]
  obtain ⟨s2, hpub, hq⟩ := SiteM.run_publishDirty
    { s with manager := { s.manager with cache := some C.clear } }
  rw [hpub]
  -- dropping the cache only logs and meters around the store
  have hr : (s.engine .user).Reads (s2.engine .user) := (hq.engine .user).reads
  have hf := h.faithful.reads hr
  obtain ⟨e', hrun, hst, hm⟩ := hact _ hf.stored.config hf.stored.placed hf.mounted
  rw [SiteM.run_onStore hrun]
  exact ⟨_, rfl, {
    options := by rw [Site.withEngine_options, hq.1]; exact h.options
    opened := by rw [Site.withEngine_closed, hq.1]; exact h.opened
    cache := by rw [Site.withEngine_cache, hq.1]
    agrees := Cache.Agrees.nil
    faithful := by
      rw [Site.engine_withEngine]
      exact Session.Faithful.empty hst (Ring.atRest_empty hc) hm
    expectable := Expectable.empty }⟩

/-- Clearing the user partition leaves the client expecting nothing. -/
theorem clear (h : Serves o s M F R C) :
    ∃ s', (SiteM.clear 1).run.run s = (.ok (), s') ∧
      Serves o s' (fun _ => none) (fun _ => none) Ring.empty C.clear :=
  h.emptyWith hc fun _ hcfg hpl hm => by
    obtain ⟨e', hrun, hst, hs', -⟩ := StoreM.run_clear hc hpol hcfg hpl hm
    exact ⟨e', hrun, hst, by rw [hs']⟩

/-- Formatting the user partition leaves the client expecting nothing. -/
theorem format (hv : (o.storeConfig .user).validate = .ok ()) (h : Serves o s M F R C) :
    ∃ s', (SiteM.format 1).run.run s = (.ok (), s') ∧
      Serves o s' (fun _ => none) (fun _ => none) Ring.empty C.clear :=
  h.emptyWith hc fun _ hcfg hpl _ => by
    obtain ⟨e', hrun, hst, hs', -⟩ := StoreM.run_format hv hpol hcfg hpl
    exact ⟨e', hrun, hst, by rw [hs']⟩

end Plain

/-! ### Cached writes -/

section Cached

variable (hc : (o.storeConfig .user).Usable) (hpol : Flash.Polar (o.storeConfig .user).eraseValue)
include hc hpol

/-- Writing back the value the client expects of a key, which succeeds, and marking its entry
clean keeps the invariant: the store now holds that value too. -/
theorem writeBack (h : Serves o s M F R C) {key v : ByteArray} (hM : M key = some v) {m : Nat}
    {e' : Engine} (hw : (StoreM.write key v).run.run (s.engine .user) = (.ok m, e')) :
    ∃ R', Serves o { s.withEngine .user e' with
        manager := { (s.withEngine .user e').manager with cache := some (C.markClean key v) } }
      M (Function.update F key (some v)) R' (C.markClean key v) := by
  obtain ⟨R', hR'⟩ := h.faithful.write_ok hc hpol hw
  dsimp only at hR'
  rw [if_neg (h.expectable.sized key v hM)] at hR'
  exact ⟨R', {
    options := by rw [Site.withEngine_options]; exact h.options
    opened := by rw [Site.withEngine_closed]; exact h.opened
    cache := rfl
    agrees := (h.agrees.store hM).markClean (Function.update_self key (some v) F)
    faithful := hR'
    expectable := h.expectable }⟩

/-- Making room for a key, which succeeds, writes back a dirty entry the key would push out of
the cache: the client expects what it did, and the store holds what it did of the key. -/
theorem makeRoom (h : Serves o s M F R C) {key : ByteArray} {s' : Site}
    (hrun : (SiteM.makeRoom .user C key).run.run s = (.ok (), s')) :
    ∃ F' R' C', Serves o s' M F' R' C' ∧ F' key = F key := by
  unfold SiteM.makeRoom at hrun
  cases hv : C.victim key with
  | none =>
    simp only [hv, run_pure] at hrun
    exact ⟨F, R, C, (Prod.mk.inj hrun).2 ▸ h, rfl⟩
  | some v =>
    cases hd : v.dirty with
    | false =>
      simp only [hv, hd, Bool.false_eq_true, if_false, run_pure] at hrun
      exact ⟨F, R, C, (Prod.mk.inj hrun).2 ▸ h, rfl⟩
    | true =>
      simp only [hv, hd, if_true, run_bind, run_discard] at hrun
      rcases hw : (StoreM.write v.key v.value).run.run (s.engine .user) with ⟨res, e'⟩
      rw [SiteM.run_onStore hw] at hrun
      cases res with
      | error f =>
        simp only [Except.map] at hrun
        exact absurd (Prod.mk.inj hrun).1 (by simp)
      | ok m =>
        -- the pushed-out entry is dirty, so the client expects its value of its key
        obtain ⟨R', h'⟩ := h.writeBack hc hpol (h.agrees.current v (Cache.victim_mem hv)) hw
        simp only [Except.map, SiteM.run_modifyCache, Site.withEngine_cache, h.cache,
          Option.map_some] at hrun
        obtain ⟨s2, hflush, hq⟩ := SiteM.run_recordFlush 1 _
        rw [hflush] at hrun
        obtain rfl := (Prod.mk.inj hrun).2
        exact ⟨_, R', _, h'.quiet hq, Function.update_of_ne (Cache.victim_key_ne hv).symm _ _⟩

/-- Caching a value dirty, which succeeds, makes the client expect it: the cache takes it, or
when it is full of dirty entries the value is written through. -/
theorem cacheDirty (h : Serves o s M F R C) {key data : ByteArray} {k : Vector UInt8 24}
    (hk : Entry.padKey? key = some k) (hsize : data.size ≠ 0) {n : Nat} {s' : Site}
    (hrun : (SiteM.cacheDirty .user key data).run.run s = (.ok n, s')) :
    ∃ F' R' C', Serves o s' (Function.update M key (some data)) F' R' C' := by
  unfold SiteM.cacheDirty at hrun
  simp only [run_bind, SiteM.run_manager, run_pure, h.cache] at hrun
  cases hok : (C.put key data true).2 with
  | true =>
    simp only [hok, if_true, run_bind, SiteM.run_modifyManager] at hrun
    obtain ⟨s2, hpub, hq⟩ := SiteM.run_publishDirty
      { s with manager := { s.manager with cache := some (C.put key data true).1 } }
    rw [hpub] at hrun
    obtain rfl := (Prod.mk.inj hrun).2
    -- the cache takes the value as a dirty entry
    have hagree := h.agrees.put (fun hd => absurd hd (by decide)) hok
    exact ⟨F, R, _, (h.setCache hagree (h.expectable.update (fun _ => ⟨k, hk⟩)
      fun v hv => Option.some.inj hv ▸ hsize)).quiet hq⟩
  | false =>
    simp only [hok, Bool.false_eq_true, if_false] at hrun
    obtain ⟨F', R', h'⟩ := h.writeThrough hc hpol hrun
    rw [if_neg hsize] at h'
    exact ⟨F', R', _, h'⟩

/-- A cached write to the user partition that succeeds makes the client expect the written
value; a value the cache cannot take is written plainly, and writing nothing deletes the key. -/
theorem writeCached (h : Serves o s M F R C) {key data : ByteArray} {n : Nat} {s' : Site}
    (hrun : (SiteM.writeCached 1 key data).run.run s = (.ok n, s')) :
    ∃ F' R' C', Serves o s' (Function.update M key (if data.size = 0 then none else some data))
      F' R' C' := by
  unfold SiteM.writeCached at hrun
  simp only [run_bind, SiteM.run_userCache_user, h.cache] at hrun
  by_cases hfit : C.fits data.size = true
  · have hsize : data.size ≠ 0 := by
      simp only [Cache.fits, Bool.and_eq_true, decide_eq_true_eq] at hfit
      omega
    simp only [hfit, Bool.not_true, Bool.false_eq_true, if_false, run_bind,
      SiteM.run_resolve_user h.opened] at hrun
    cases hk : Entry.padKey? key with
    | none =>
      simp only [hk, Option.isNone_none, if_true] at hrun
      exact absurd (Prod.mk.inj hrun).1 (by simp)
    | some k =>
      simp only [hk, Option.isNone_some, Bool.false_eq_true, if_false] at hrun
      rw [if_neg hsize]
      by_cases hh : C.holds key data = true
      · -- the cache holds the value already: nothing changes
        simp only [hh, if_true, run_pure] at hrun
        obtain rfl := (Prod.mk.inj hrun).2
        obtain ⟨e, hf, he⟩ := Cache.holds_eq_true hh
        have hM : M key = some data := he ▸ (h.agrees.find? hf).2
        rw [Function.update_eq_self_iff.2 hM.symm]
        exact ⟨F, R, C, h⟩
      · simp only [hh, Bool.false_eq_true, if_false, run_bind] at hrun
        rcases hroom : (SiteM.makeRoom .user C key).run.run s with ⟨res, s1⟩
        rw [hroom] at hrun
        cases res with
        | error f => exact absurd (Prod.mk.inj hrun).1 (by simp)
        | ok u =>
          obtain ⟨F1, R1, C1, h1, -⟩ := h.makeRoom hc hpol hroom
          exact h1.cacheDirty hc hpol hk hsize hrun
  · simp only [hfit, Bool.not_false, if_true] at hrun
    obtain ⟨F', R', h'⟩ := h.writePlain hc hpol hrun
    exact ⟨F', R', _, h'⟩

end Cached

/-- A cached write that the cache takes without pushing an entry out succeeds without touching
the store: the value is cached dirty and the client expects it. -/
theorem writeCached_put (h : Serves o s M F R C) {key : ByteArray} (data : ByteArray)
    {k : Vector UInt8 24} (hk : Entry.padKey? key = some k) (hfit : C.fits data.size = true)
    (hnew : C.holds key data = false) (hvictim : C.victim key = none)
    (hput : (C.put key data true).2 = true) :
    ∃ s', (SiteM.writeCached 1 key data).run.run s = (.ok data.size, s') ∧
      Serves o s' (Function.update M key (some data)) F R (C.put key data true).1 := by
  have hsize : data.size ≠ 0 := by
    simp only [Cache.fits, Bool.and_eq_true, decide_eq_true_eq] at hfit
    omega
  unfold SiteM.writeCached SiteM.makeRoom SiteM.cacheDirty
  simp only [run_bind, SiteM.run_userCache_user, h.cache, hfit, Bool.not_true, Bool.false_eq_true,
    if_false, SiteM.run_resolve_user h.opened, hk, Option.isNone_some, hnew, hvictim, run_pure,
    SiteM.run_manager, hput, if_true, SiteM.run_modifyManager]
  obtain ⟨s2, hpub, hq⟩ := SiteM.run_publishDirty
    { s with manager := { s.manager with cache := some (C.put key data true).1 } }
  rw [hpub]
  -- the cache takes the value as a dirty entry
  have hagree := h.agrees.put (fun hd => absurd hd (by decide)) hput
  exact ⟨s2, rfl, (h.setCache hagree (h.expectable.update (fun _ => ⟨k, hk⟩)
    fun v hv => Option.some.inj hv ▸ hsize)).quiet hq⟩

end Serves

end Storage

end NorStore
