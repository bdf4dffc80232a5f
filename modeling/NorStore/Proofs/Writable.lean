import NorStore.Proofs.Client
import NorStore.Proofs.Recency

/-!
# What the cache holds, the store takes

The user cache takes a value only when it `fits`: one byte at least, and no more than the
cache's bound, which a manager sets from the `cacheValueSize` of its options. `Cache.Bounded n`
says a cache has bound `n` and holds no value outside it; every operation of the cache keeps
it, a put given a value within the bound.

A manager's work keeps its cache bounded (`SiteM.KeepsBounded`, an instance of `Keeps`): each
primitive leaves the cache alone, drops, reorders or cleans entries, or puts a value that has
just been checked to fit. Where a step puts what an earlier step read, the proof carries the
bound of the cache it read (`SiteM.keepsBounded_of_manager`, `SiteM.keepsBounded_of_userCache`).
So every request keeps it (`Request.keepsBounded`), and every site a client reaches has a
bounded cache (`Serving.cacheBounded`).

The store takes values of up to its own `maxValueSize`, and validating the options does not
compare that with `cacheValueSize`. When the cache's bound is within the store's, every entry
of the cache is one the store takes: its key is usable, its value is not empty and not too
large, and writing it back succeeds or finds no space (`Serving.cache_writable`). When it is
not, a cached write of a value between the two bounds is accepted and every write-back of it
is refused as too large.
-/

namespace NorStore

/-! ## Keeping a relation along loops -/

section Loops

variable {ε σ α β : Type} {r : σ → σ → Prop} (hr : ∀ s, r s s)
  (ht : ∀ s t u, r s t → r t u → r s u)
include hr ht

theorem Keeps.foldlM {step : β → α → ExceptT ε (StateM σ) β} (hstep : ∀ b x, Keeps r (step b x)) :
    ∀ (l : List α) (b : β), Keeps r (l.foldlM step b)
  | [], b => Keeps.pure hr b
  | x :: l, b => by
    rw [List.foldlM_cons]
    exact Keeps.bind ht (hstep b x) fun b' => Keeps.foldlM hstep l b'

theorem Keeps.forM {f : α → ExceptT ε (StateM σ) PUnit} (hf : ∀ x, Keeps r (f x)) :
    ∀ l : List α, Keeps r (l.forM f)
  | [] => Keeps.pure hr _
  | x :: l => by
    rw [List.forM]
    exact Keeps.bind ht (hf x) fun _ => Keeps.forM hf l

theorem Keeps.forIn {f : α → β → ExceptT ε (StateM σ) (ForInStep β)}
    (hf : ∀ x b, Keeps r (f x b)) : ∀ (l : List α) (b : β), Keeps r (forIn l b f)
  | [], b => Keeps.pure hr b
  | x :: l, b => by
    rw [List.forIn_cons]
    refine Keeps.bind ht (hf x b) fun step => ?_
    cases step with
    | done b' => exact Keeps.pure hr b'
    | yield b' => exact Keeps.forIn hf l b'

end Loops

namespace Storage

/-! ## Bounded caches -/

namespace Cache

/-- A cache whose bound on values is `n`, every value of which is within the bound and not
empty. -/
structure Bounded (n : Int) (C : Cache) : Prop where
  max : C.maxValue = n
  sized : ∀ e ∈ C.entries, 0 < e.value.size ∧ (e.value.size : Int) ≤ n

variable {n m : Int} {C : Cache}

theorem Bounded.create (capacity n : Int) : (Cache.create capacity n).Bounded n :=
  ⟨rfl, fun _ he => absurd he List.not_mem_nil⟩

/-- A cache with the same bound whose values are all values of a bounded cache is bounded. -/
theorem Bounded.of_values (h : C.Bounded n) {C' : Cache} (hmax : C'.maxValue = C.maxValue)
    (hvals : ∀ e ∈ C'.entries, ∃ e₀ ∈ C.entries, e₀.value = e.value) : C'.Bounded n := by
  refine ⟨hmax.trans h.max, fun e he => ?_⟩
  obtain ⟨e₀, he₀, hv⟩ := hvals e he
  rw [← hv]
  exact h.sized e₀ he₀

theorem Bounded.remove (h : C.Bounded n) (key : ByteArray) : (C.remove key).Bounded n :=
  h.of_values rfl fun e he => ⟨e, (mem_without.1 he).1, rfl⟩

theorem Bounded.clear (h : C.Bounded n) : C.clear.Bounded n :=
  h.of_values rfl fun _ he => absurd he List.not_mem_nil

theorem Bounded.markClean (h : C.Bounded n) (key v : ByteArray) : (C.markClean key v).Bounded n :=
  h.of_values rfl fun e he => by
    obtain ⟨e₀, he₀, rfl⟩ := List.mem_map.1 he
    refine ⟨e₀, he₀, ?_⟩
    split <;> rfl

theorem Bounded.get (h : C.Bounded n) (key : ByteArray) : (C.get key).1.Bounded n := by
  cases hf : C.find? key with
  | none =>
    rw [get_of_find?_none hf]
    exact h.of_values rfl fun e he => ⟨e, he, rfl⟩
  | some e =>
    rw [get_of_find?_some hf]
    refine h.of_values rfl fun e' he' => ?_
    rcases List.mem_cons.1 he' with rfl | he'
    · exact ⟨e', (find?_key_eq hf).1, rfl⟩
    · exact ⟨e', (mem_without.1 he').1, rfl⟩

/-- A put of a value within the bound keeps a cache bounded. -/
theorem Bounded.put (h : C.Bounded n) {v : ByteArray} (hv : 0 < v.size ∧ (v.size : Int) ≤ n)
    (key : ByteArray) (d : Bool) : (C.put key v d).1.Bounded n := by
  cases hok : (C.put key v d).2 with
  | false =>
    rw [put_of_false hok]
    exact h
  | true =>
    obtain ⟨d', es', hput, hsub, -⟩ := put_inv hok
    obtain ⟨es, hes⟩ := put_fst_eq C key v d
    refine ⟨by rw [hes]; exact h.max, fun e he => ?_⟩
    rw [hput] at he
    rcases List.mem_cons.1 he with rfl | he
    · exact hv
    · exact h.sized e (hsub.subset he)

/-- A value the cache takes is one byte long at least, and within its bound. -/
theorem fits_bounds (hf : C.fits m = true) : 0 < m ∧ m ≤ C.maxValue := by
  simp only [fits, Bool.and_eq_true, decide_eq_true_eq] at hf
  exact ⟨hf.1.2, hf.2⟩

end Cache

/-! ## A manager's work keeps its cache bounded -/

/-- The user cache of a site, when it has one, is bounded by the `cacheValueSize` of `o`. -/
def Site.CacheBounded (o : Options) (s : Site) : Prop :=
  ∀ C, s.manager.cache = some C → C.Bounded o.cacheValueSize

namespace SiteM

variable {o : Options} {α β : Type}

/-- `act` keeps the user cache bounded by the `cacheValueSize` of `o`, whatever it answers. -/
abbrev KeepsBounded (o : Options) (act : SiteM α) : Prop :=
  Keeps (fun s s' => s.CacheBounded o → s'.CacheBounded o) act

namespace KeepsBounded

theorem pure (a : α) : KeepsBounded o (pure a) :=
  Keeps.pure (fun _ h => h) a

theorem throw (f : Fault) : KeepsBounded o (throw f : SiteM α) :=
  Keeps.throw (fun _ h => h) f

theorem bind {x : SiteM α} {f : α → SiteM β} (hx : KeepsBounded o x)
    (hf : ∀ a, KeepsBounded o (f a)) : KeepsBounded o (x >>= f) :=
  Keeps.bind (fun _ _ _ h h' hb => h' (h hb)) hx hf

theorem tryCatch {x : SiteM α} {h : Fault → SiteM α} (hx : KeepsBounded o x)
    (hh : ∀ f, KeepsBounded o (h f)) : KeepsBounded o (tryCatch x h) :=
  Keeps.tryCatch (fun _ _ _ h h' hb => h' (h hb)) hx hh

/-- What leaves the cache as it is keeps it bounded. -/
theorem of_cache {act : SiteM α} (h : ∀ s, (act.run.run s).2.manager.cache = s.manager.cache) :
    KeepsBounded o act := fun s hb C hC => hb C (by rw [← h s]; exact hC)

theorem discard {act : SiteM α} (h : KeepsBounded o act) : KeepsBounded o (discard act) :=
  fun s hb => by
    rw [run_discard]
    exact h s hb

end KeepsBounded

theorem keepsBounded_manager : KeepsBounded o manager :=
  KeepsBounded.of_cache fun _ => rfl

theorem keepsBounded_out (b : ByteArray) : KeepsBounded o (out b) :=
  KeepsBounded.of_cache fun _ => rfl

theorem keepsBounded_logAt (l : Log.Level) (msg : String) (fs : List Log.Field) :
    KeepsBounded o (logAt l msg fs) :=
  KeepsBounded.of_cache fun _ => rfl

theorem keepsBounded_meter (f : Metrics.Registry → Metrics.Registry) :
    KeepsBounded o (meter f) :=
  KeepsBounded.of_cache fun _ => rfl

theorem keepsBounded_onStore (p : Partition) (act : StoreM α) : KeepsBounded o (onStore p act) :=
  KeepsBounded.of_cache fun s => by
    rcases h : act.run.run (s.engine p) with ⟨r, e⟩
    rw [run_onStore h]
    exact Site.withEngine_cache

theorem keepsBounded_resolve (n : Int) : KeepsBounded o (resolve n) :=
  KeepsBounded.of_cache fun s => by
    unfold resolve
    simp only [run_bind, run_manager]
    split
    · rfl
    · split <;> rfl

theorem keepsBounded_userCache (n : Int) : KeepsBounded o (userCache? n) :=
  KeepsBounded.of_cache fun s => by
    unfold userCache?
    split <;> rfl

theorem keepsBounded_publishDirty : KeepsBounded o publishDirty :=
  KeepsBounded.of_cache fun s => by
    obtain ⟨s', hrun, hq⟩ := run_publishDirty s
    rw [hrun, hq.1]

theorem keepsBounded_recordFlush (n : Nat) : KeepsBounded o (recordFlush n) :=
  KeepsBounded.of_cache fun s => by
    obtain ⟨s', hrun, hq⟩ := run_recordFlush n s
    rw [hrun, hq.1]

theorem keepsBounded_dirtyValue (n : Int) (key : ByteArray) : KeepsBounded o (dirtyValue n key) := by
  unfold dirtyValue
  refine (keepsBounded_userCache n).bind fun c => ?_
  split
  · split <;> exact KeepsBounded.pure _
  · exact KeepsBounded.pure _

/-- Changing the cache by a function that keeps every cache bounded keeps it bounded. -/
theorem keepsBounded_modifyCache {f : Cache → Cache}
    (hf : ∀ C, C.Bounded o.cacheValueSize → (f C).Bounded o.cacheValueSize) :
    KeepsBounded o (modifyCache f) := fun s hb C hC => by
  rw [run_modifyCache] at hC
  obtain ⟨C₀, hC₀, rfl⟩ := Option.map_eq_some_iff.1 hC
  exact hf C₀ (hb C₀ hC₀)

/-- Setting a bounded cache keeps the cache bounded. -/
theorem keepsBounded_setCache {C : Cache} (hC : C.Bounded o.cacheValueSize) :
    KeepsBounded o (modifyManager fun m => { m with cache := some C }) := fun s _ C' hC' => by
  rw [run_modifyManager] at hC'
  cases hC'
  exact hC

/-- Work that reads the manager first may take its cache to be bounded. -/
theorem keepsBounded_of_manager {f : Manager → SiteM α}
    (h : ∀ m : Manager, (∀ C, m.cache = some C → C.Bounded o.cacheValueSize) → KeepsBounded o (f m)) :
    KeepsBounded o (manager >>= f) := fun s hb => by
  rw [run_bind, run_manager]
  exact h s.manager hb s hb

/-- Work that looks up the user cache first may take it to be bounded. -/
theorem keepsBounded_of_userCache {n : Int} {f : Option Cache → SiteM α}
    (h : ∀ c : Option Cache, (∀ C, c = some C → C.Bounded o.cacheValueSize) → KeepsBounded o (f c)) :
    KeepsBounded o (userCache? n >>= f) := by
  unfold userCache?
  split
  · rw [bind_assoc]
    exact keepsBounded_of_manager fun m hm => by
      rw [pure_bind]
      exact h m.cache hm
  · rw [pure_bind]
    exact h none fun _ hC => absurd hC (Option.some_ne_none _).symm

theorem KeepsBounded.map {x : SiteM α} (hx : KeepsBounded o x) (f : α → β) :
    KeepsBounded o (f <$> x) := by
  rw [map_eq_pure_bind]
  exact hx.bind fun _ => KeepsBounded.pure _

theorem KeepsBounded.throw_bind (f : Fault) (k : α → SiteM β) :
    KeepsBounded o ((MonadExcept.throw f : SiteM α) >>= k) := fun s hb => by
  rw [run_bind_error (run_throw f s)]
  exact hb

/-- A step taken or not before the rest of a block, as `do` writes an `if` without `else`. -/
theorem KeepsBounded.ite_bind {c : Prop} [Decidable c] {x : SiteM Unit} {k : Unit → SiteM β}
    (hx : KeepsBounded o x) (hk : ∀ u, KeepsBounded o (k u)) :
    KeepsBounded o (if c then x >>= k else k ()) := by
  split
  · exact hx.bind hk
  · exact hk ()

theorem KeepsBounded.foldlM {step : β → α → SiteM β} (hstep : ∀ b x, KeepsBounded o (step b x))
    (l : List α) (b : β) : KeepsBounded o (l.foldlM step b) :=
  Keeps.foldlM (fun _ h => h) (fun _ _ _ h h' hb => h' (h hb)) hstep l b

theorem KeepsBounded.forM {f : α → SiteM PUnit} (hf : ∀ x, KeepsBounded o (f x)) (l : List α) :
    KeepsBounded o (l.forM f) :=
  Keeps.forM (fun _ h => h) (fun _ _ _ h h' hb => h' (h hb)) hf l

theorem KeepsBounded.forIn {f : α → β → SiteM (ForInStep β)}
    (hf : ∀ x b, KeepsBounded o (f x b)) (l : List α) (b : β) : KeepsBounded o (forIn l b f) :=
  Keeps.forIn (fun _ h => h) (fun _ _ _ h h' hb => h' (h hb)) hf l b

/-! ### Plain access and emptying -/

theorem keepsBounded_writePlain (n : Int) (key data : ByteArray) :
    KeepsBounded o (writePlain n key data) := by
  unfold writePlain
  refine (keepsBounded_resolve n).bind fun p => (keepsBounded_userCache n).bind fun c => ?_
  dsimp only
  split
  · exact (keepsBounded_modifyCache fun C h => h.remove key).bind fun _ => keepsBounded_onStore p _
  · exact keepsBounded_onStore p _

theorem keepsBounded_readPlain (n : Int) (key : ByteArray) (size : Nat) :
    KeepsBounded o (readPlain n key size) := by
  unfold readPlain
  refine (keepsBounded_dirtyValue n key).bind fun d => ?_
  split
  · exact KeepsBounded.pure _
  · exact (keepsBounded_resolve n).bind fun p => keepsBounded_onStore p _

theorem keepsBounded_getPlain (n : Int) (key : ByteArray) : KeepsBounded o (getPlain n key) := by
  unfold getPlain
  refine (keepsBounded_dirtyValue n key).bind fun d => ?_
  split
  · exact KeepsBounded.pure _
  · exact (keepsBounded_resolve n).bind fun p => keepsBounded_onStore p _

theorem keepsBounded_delete (n : Int) (key : ByteArray) : KeepsBounded o (delete n key) :=
  (keepsBounded_writePlain n key _).discard

theorem keepsBounded_emptyWith (act : StoreM Unit) (n : Int) : KeepsBounded o (emptyWith act n) := by
  unfold emptyWith dropCache
  refine (keepsBounded_resolve n).bind fun p => KeepsBounded.bind ?_ fun _ => keepsBounded_onStore p _
  refine (keepsBounded_userCache n).bind fun c => ?_
  split
  · exact (keepsBounded_modifyCache fun C h => h.clear).bind fun _ => keepsBounded_publishDirty
  · exact KeepsBounded.pure _

/-! ### Flushing -/

theorem keepsBounded_writeBackEntry (p : Partition) (acc : List Fault × Nat) (e : CacheEntry) :
    KeepsBounded o (writeBackEntry p acc e) := by
  unfold writeBackEntry
  refine (KeepsBounded.tryCatch ((keepsBounded_onStore p _).discard.bind fun _ =>
    KeepsBounded.pure _) fun _ => KeepsBounded.pure _).bind fun r => ?_
  split
  · exact (keepsBounded_logAt _ _ _).bind fun _ => KeepsBounded.pure _
  · exact (keepsBounded_modifyCache fun C h => h.markClean _ _).bind fun _ => KeepsBounded.pure _

theorem keepsBounded_flush (n : Int) : KeepsBounded o (flush n) := by
  unfold flush
  dsimp only
  refine KeepsBounded.ite_bind (KeepsBounded.throw _) fun _ => ?_
  refine (keepsBounded_userCache n).bind fun c => ?_
  split
  · refine (keepsBounded_resolve n).bind fun p => ?_
    refine (KeepsBounded.foldlM (fun acc e => keepsBounded_writeBackEntry p acc e) _ _).bind
      fun r => ?_
    refine (keepsBounded_recordFlush _).bind fun _ => ?_
    refine KeepsBounded.ite_bind (keepsBounded_logAt _ _ _) fun _ => ?_
    split
    · exact KeepsBounded.throw _
    · exact KeepsBounded.pure _
  · exact KeepsBounded.pure _

theorem keepsBounded_flushAll : KeepsBounded o flushAll := by
  unfold flushAll
  refine (KeepsBounded.forIn (fun p failures => ?_) _ _).bind fun failures => ?_
  · refine (KeepsBounded.tryCatch ((keepsBounded_flush _).bind fun _ => KeepsBounded.pure _)
      fun _ => KeepsBounded.pure _).bind fun r => ?_
    split
    · split <;> exact KeepsBounded.pure _
    · exact KeepsBounded.pure _
  · dsimp only
    split
    · exact KeepsBounded.throw _
    · exact KeepsBounded.pure _

/-! ### Cached access -/

theorem keepsBounded_makeRoom (p : Partition) (C : Cache) (key : ByteArray) :
    KeepsBounded o (makeRoom p C key) := by
  unfold makeRoom
  split
  · split
    · exact (keepsBounded_onStore p _).discard.bind fun _ =>
        (keepsBounded_modifyCache fun C h => h.markClean _ _).bind fun _ =>
          keepsBounded_recordFlush 1
    · exact KeepsBounded.pure _
  · exact KeepsBounded.pure _

theorem keepsBounded_writeThrough (p : Partition) (key data : ByteArray) :
    KeepsBounded o (writeThrough p key data) := by
  unfold writeThrough
  exact (keepsBounded_modifyCache fun C h => h.remove key).bind fun _ => keepsBounded_onStore p _

/-- Caching a value within the bound keeps the cache bounded. -/
theorem keepsBounded_cacheDirty (p : Partition) (key : ByteArray) {data : ByteArray}
    (hv : 0 < data.size ∧ (data.size : Int) ≤ o.cacheValueSize) :
    KeepsBounded o (cacheDirty p key data) := by
  unfold cacheDirty
  refine keepsBounded_of_manager fun m hm => ?_
  rw [pure_bind]
  split
  · rename_i C hC
    dsimp only
    split
    · exact (keepsBounded_setCache ((hm C hC).put hv key true)).bind fun _ =>
        keepsBounded_publishDirty.bind fun _ => KeepsBounded.pure _
    · exact keepsBounded_writeThrough p key data
  · exact KeepsBounded.pure _

theorem keepsBounded_writeCached (n : Int) (key data : ByteArray) :
    KeepsBounded o (writeCached n key data) := by
  unfold writeCached
  refine keepsBounded_of_userCache fun c hc => ?_
  split
  · rename_i C
    split
    · exact keepsBounded_writePlain n key data
    · -- the cache takes the value: it lies within the bound
      rename_i hfit
      have hv := Cache.fits_bounds (by simpa using hfit : C.fits data.size = true)
      rw [(hc C rfl).max] at hv
      refine (keepsBounded_resolve n).bind fun p => ?_
      dsimp only
      split
      · exact KeepsBounded.throw_bind _ _
      · split
        · exact KeepsBounded.pure _
        · exact (keepsBounded_makeRoom p C key).bind fun _ =>
            keepsBounded_cacheDirty p key (by exact_mod_cast hv)
  · exact keepsBounded_writePlain n key data

/-- Reading a miss through a cache with the bound keeps the cache bounded. -/
theorem keepsBounded_readMiss (p : Partition) {C : Cache} (hC : C.maxValue = o.cacheValueSize)
    (key : ByteArray) (size : Nat) : KeepsBounded o (readMiss p C key size) := by
  unfold readMiss
  refine (keepsBounded_onStore p _).bind fun v => ?_
  dsimp only
  split
  · rename_i hfit
    have hv := Cache.fits_bounds hfit
    rw [hC] at hv
    exact (keepsBounded_modifyCache fun C' h => h.put (by exact_mod_cast hv) key false).bind
      fun _ => KeepsBounded.pure _
  · exact KeepsBounded.pure _

theorem keepsBounded_readCached (n : Int) (key : ByteArray) (size : Nat) :
    KeepsBounded o (readCached n key size) := by
  unfold readCached
  refine keepsBounded_of_userCache fun c hc => ?_
  split
  · rename_i C
    have hb := (hc C rfl).get key
    refine (keepsBounded_resolve n).bind fun p => ?_
    dsimp only
    refine (keepsBounded_setCache hb).bind fun _ => ?_
    split
    · exact (keepsBounded_meter _).bind fun _ => KeepsBounded.pure _
    · refine (keepsBounded_meter _).bind fun _ => ?_
      split
      · exact KeepsBounded.pure _
      · exact keepsBounded_readMiss p hb.max key size
  · exact keepsBounded_readPlain n key size

theorem keepsBounded_getCached (n : Int) (key : ByteArray) : KeepsBounded o (getCached n key) := by
  unfold getCached
  refine (keepsBounded_userCache n).bind fun c => ?_
  split
  · exact keepsBounded_getPlain n key
  · refine keepsBounded_manager.bind fun m => (keepsBounded_readCached n key _).bind fun r => ?_
    obtain ⟨length, bytes⟩ := r
    dsimp only
    split
    · exact keepsBounded_getPlain n key
    · exact KeepsBounded.pure _

/-! ### Listing -/

theorem keepsBounded_listKey (p : Partition) (k : ByteArray) : KeepsBounded o (listKey p k) := by
  unfold listKey
  refine (KeepsBounded.tryCatch ((keepsBounded_onStore p _).map _) fun f => ?_).bind fun r => ?_
  · split
    · exact KeepsBounded.pure _
    · exact KeepsBounded.throw _
  · split
    · exact keepsBounded_out _
    · exact KeepsBounded.pure _

theorem keepsBounded_dump (n : Int) : KeepsBounded o (dump n) := by
  unfold dump
  dsimp only
  refine KeepsBounded.ite_bind (keepsBounded_flush n) fun _ => ?_
  refine (keepsBounded_resolve n).bind fun p => (keepsBounded_onStore p _).bind fun keys => ?_
  exact KeepsBounded.ite_bind (keepsBounded_out _) fun _ => KeepsBounded.forM (keepsBounded_listKey p) keys

end SiteM

variable {o : Options}

/-- Every request keeps the user cache bounded, whatever it answers. -/
theorem Request.keepsBounded (q : Request) : SiteM.KeepsBounded o q.run := by
  cases q with
  | write key data => exact (SiteM.keepsBounded_writePlain 1 key data).discard
  | writeCached key data => exact (SiteM.keepsBounded_writeCached 1 key data).discard
  | delete key => exact SiteM.keepsBounded_delete 1 key
  | flush => exact SiteM.keepsBounded_flush 1
  | flushAll => exact SiteM.keepsBounded_flushAll
  | clear => exact SiteM.keepsBounded_emptyWith _ 1
  | format => exact SiteM.keepsBounded_emptyWith _ 1
  | get key => exact (SiteM.keepsBounded_getPlain 1 key).discard
  | read key size => exact (SiteM.keepsBounded_readPlain 1 key size).discard
  | getCached key => exact (SiteM.keepsBounded_getCached 1 key).discard
  | readCached key size => exact (SiteM.keepsBounded_readCached 1 key size).discard
  | dump => exact SiteM.keepsBounded_dump 1

/-- In every site a client reaches, the user cache is bounded by `cacheValueSize`: the manager
opens with an empty cache of that bound, and every request keeps it. -/
theorem Serving.cacheBounded (hv : o.validate = .ok ()) (hpol : Flash.Polar o.eraseValue)
    (hcache : 0 < o.cacheEntries) {s : Site} {M : ByteArray → Option ByteArray}
    (hs : Serving o s M) : s.CacheBounded o := by
  induction hs with
  | opened hfp hfe hup hue hopen =>
    obtain ⟨s0, hopen0, h0⟩ := run_openSite hv hpol hcache _ hfp hfe hup hue
    rw [hopen0] at hopen
    obtain rfl := Except.ok.inj (Prod.mk.inj hopen).2
    intro C hC
    rw [h0.cache] at hC
    cases hC
    exact Cache.Bounded.create _ _
  | step q _ hrun _ ih =>
    have hkeep := q.keepsBounded (o := o) _ ih
    rwa [hrun] at hkeep

end Storage

namespace Session

variable {c : Config} {s : Session} {R : Ring}

/-- On a faithful session, writing a usable key with a value within the store's bound succeeds
or fails only for lack of space. -/
theorem Faithful.write_within (hc : c.Usable) (hpol : Flash.Polar c.eraseValue)
    (h : s.Faithful c R) {key data : ByteArray} {k : Vector UInt8 24}
    (hk : Entry.padKey? key = some k) (hsize : (data.size : Int) ≤ c.maxValueSize) :
    ∃ r e', (StoreM.write key data).run.run s.engine = (r, e') ∧
      ∀ f, r = .error f → f.kinds = [.noSpace] := by
  obtain ⟨r, e', hrun, R', -, -, -, hend, -⟩ :=
    StoreM.run_write_ends hc hpol h.stored h.atRest h.mounted key data
  refine ⟨r, e', hrun, fun f hf => ?_⟩
  cases hend with
  | badKey hk' _ =>
    rw [hk] at hk'
    cases hk'
  | tooLarge _ hbig _ => exact absurd hsize (not_le.2 hbig)
  | unchanged => cases hf
  | appended => cases hf
  | full =>
    cases hf
    simp only [Fault.kinds]

end Session

namespace Storage

variable {o : Options}

/-- Every cached value can be written back, when the cache's bound on values is within the user
store's. In every site a client reaches, each entry of the user cache, dirty or clean, has a
usable key and a value of one byte up to the store's `maxValueSize`, and writing it to the user
store succeeds or fails only for lack of space: the write never refuses its key or its size.
Validating the options does not compare the two bounds, so the hypothesis is the caller's. -/
theorem Serving.cache_writable (hv : o.validate = .ok ()) (hpol : Flash.Polar o.eraseValue)
    (hcache : 0 < o.cacheEntries)
    (hfit : o.cacheValueSize ≤ (o.storeConfig .user).maxValueSize) {s : Site}
    {M : ByteArray → Option ByteArray} (hs : Serving o s M) :
    ∃ C, s.manager.cache = some C ∧ ∀ x ∈ C.entries,
      (∃ k, Entry.padKey? x.key = some k) ∧ 0 < x.value.size ∧
      (x.value.size : Int) ≤ (o.storeConfig .user).maxValueSize ∧
      ∃ r e', (StoreM.write x.key x.value).run.run (s.engine .user) = (r, e') ∧
        ∀ f, r = .error f → f.kinds = [.noSpace] := by
  have hc := Config.usable_of_validate (Options.storeConfig_validate hv .user)
  obtain ⟨F, R, C, h⟩ := hs.serves hv hpol hcache
  have hb := hs.cacheBounded hv hpol hcache C h.cache
  refine ⟨C, h.cache, fun x hx => ?_⟩
  -- a cached value is what the client expects of its key, so the key is usable
  have hM := h.agrees.current x hx
  obtain ⟨k, hk⟩ := h.expectable.usable x.key (by rw [hM]; exact Option.some_ne_none _)
  obtain ⟨hpos, hle⟩ := hb.sized x hx
  have hmax : (x.value.size : Int) ≤ (o.storeConfig .user).maxValueSize := le_trans hle hfit
  exact ⟨⟨k, hk⟩, hpos, hmax, h.faithful.write_within hc hpol hk hmax⟩

/-- With `a` cached under `k` and `b` under `j`, both dirty, the store takes each cached value: the
user store takes values of 30 bytes, the cache values of 16. -/
theorem cache_writable_cached :
    sampleOptions.validate = .ok () ∧ Flash.Polar sampleOptions.eraseValue ∧
      (0 : Int) < sampleOptions.cacheEntries ∧
      sampleOptions.cacheValueSize ≤ (sampleOptions.storeConfig .user).maxValueSize ∧
      ∃ s, Serving sampleOptions s
          (Function.update (Function.update (fun _ => none) ⟨#[107]⟩ (some ⟨#[97]⟩))
            ⟨#[106]⟩ (some ⟨#[98]⟩)) ∧
        ∃ C, s.manager.cache = some C ∧ ∀ x ∈ C.entries,
          ∃ r e', (StoreM.write x.key x.value).run.run (s.engine .user) = (r, e') ∧
            ∀ f, r = .error f → f.kinds = [.noSpace] := by
  obtain ⟨s, hs⟩ := serving_cached
  obtain ⟨C, hC, hx⟩ := Serving.cache_writable rfl (.inr rfl) (by decide) (by decide) hs
  exact ⟨rfl, .inr rfl, by decide, by decide, s, hs, C, hC, fun x hmem => (hx x hmem).2.2.2⟩

end Storage

end NorStore
