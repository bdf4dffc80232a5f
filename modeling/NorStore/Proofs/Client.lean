import NorStore.Proofs.Reads

/-!
# A client of the manager

A client opens a manager on a part whose two partitions are erased, then makes requests of the
user partition (`Request`): writes, cached writes, deletions, flushes, clearing and formatting,
and reads of every kind, in any number and order. Beside the site it keeps the map it expects
the user partition to hold. A request that changes the partition is taken only when it succeeds,
and then changes the map as it says (`Request.update`); a read may answer anything.

*The invariant.* Opening mounts both stores on the empty ring, the user partition's cache empty
(`run_openSite`), and each request keeps the user partition serving the client's map
(`Serves.request`), so every site a client reaches serves it (`Serving.serves`).

*Main statement* (`Serving.cache_refinement`). Opening succeeds; in every site a client reaches,
a usable key reads as the client expects, plainly or through the cache, whole or into a buffer;
a listing writes one line for each key the client expects to hold a value, unless a write-back
fails or the store's walk limit is short of two rounds of its ring; and once a flush or a close
has succeeded, the user store itself holds what the client expects.
-/

namespace NorStore

namespace Storage

/-! ## Opening -/

namespace Manager

variable (m : Manager) (p : Partition) (st : Store)

@[simp] theorem setStore_options : (m.setStore p st).options = m.options := by
  cases p <;> rfl

@[simp] theorem setStore_cache : (m.setStore p st).cache = m.cache := by
  cases p <;> rfl

@[simp] theorem setStore_closed : (m.setStore p st).closed = m.closed := by
  cases p <;> rfl

@[simp] theorem setStore_setStore (st' : Store) :
    (m.setStore p st).setStore p st' = m.setStore p st' := by
  cases p <;> rfl

end Manager

/-- Mounting a partition placed on an erased region succeeds and finds the empty ring: the
manager changes only in the store of the partition, and the part only in its count of reads. -/
theorem SiteM.run_mountPartition {o : Options} (p : Partition)
    (hv : (o.storeConfig p).validate = .ok ()) (hpol : Flash.Polar o.eraseValue)
    (log : Log.Logger) {s : Site} (hopt : s.manager.options = o)
    (hpl : (o.storeConfig p).Placed s.rig.chip)
    (herased : (o.storeConfig p).Hosts s.rig.chip fun _ _ => o.eraseValue) :
    ∃ s', (SiteM.mountPartition p log).run.run s = (.ok (), s') ∧
      s'.manager = s.manager.setStore p (s'.manager.store p) ∧
      s'.rig.chip = { s.rig.chip with reads := s'.rig.chip.reads } ∧
      Session.Faithful (o.storeConfig p) ⟨s'.engine p, fun _ => none⟩ Ring.empty := by
  have hc := Config.usable_of_validate hv
  let s1 : Site := { s with manager := s.manager.setStore p (Store.create (o.storeConfig p) log
    (if s.rig.meters.isSome = true then p.name else "default")) }
  have hhost : Ring.empty.Hosted (o.storeConfig p) (s1.engine p) :=
    { toFit := Ring.fit_empty hc
      config := by simp only [s1, Site.engine, Site.store_setStore]; rfl
      placed := hpl
      hosts := herased.congr fun j _ off _ =>
        (congrFun (Ring.image_empty (c := o.storeConfig p) j) off).symm }
  obtain ⟨e', hmount, hst, hs', hchip⟩ := StoreM.run_mount hv hpol hhost (Ring.atRest_empty hc)
  have hin : (do SiteM.onStore p StoreM.mount; pure none : SiteM (Option Fault)).run.run s1 =
      (.ok none, s1.withEngine p e') := by
    rw [run_bind_ok (SiteM.run_onStore hmount)]
    rfl
  obtain ⟨s3, hlog, hq3⟩ := SiteM.run_logAt .info "partition mounted"
    [("partition", .text p.name), ("latency", .text Log.elapsed)]
    { s1.withEngine p e' with rig := { (s1.withEngine p e').rig with
        meters := (s1.withEngine p e').rig.meters.map fun reg => reg.recordMount p.name true } }
  -- the manager after the mount is the one before, with the mounted store
  have hman : s3.manager = s.manager.setStore p e'.store := by
    rw [hq3.1]
    simp only [s1, Site.withEngine, Manager.setStore_setStore]
  have hq : e'.Quiet (s3.engine p) := by
    refine ⟨?_, hq3.2.1⟩
    show s3.manager.store p = e'.store
    rw [hman, Site.store_setStore]
  refine ⟨s3, ?_, ?_, ?_, ?_⟩
  · unfold SiteM.mountPartition
    simp only [run_bind, SiteM.run_manager, run_monadGet, SiteM.run_modifyManager, hopt]
    rw [run_tryCatch_ok hin]
    simp only [SiteM.run_meter, Option.isNone_none]
    exact hlog
  · rw [hman, Site.store_setStore]
  · rw [hq3.2.1]
    exact hchip
  · exact (Session.Faithful.empty hst (Ring.atRest_empty hc) (by rw [hs'])).reads hq.reads

variable {o : Options}

/-- Opening a manager on a part whose two partitions are placed on it and erased succeeds: both
stores are mounted, and the user partition serves a client that expects nothing, its cache
empty. -/
theorem run_openSite (hv : o.validate = .ok ()) (hpol : Flash.Polar o.eraseValue)
    (hcache : 0 < o.cacheEntries) (logger : Option Log.Logger) {rig : Rig}
    (hfp : (o.storeConfig .factory).Placed rig.chip)
    (hfe : (o.storeConfig .factory).Hosts rig.chip fun _ _ => o.eraseValue)
    (hup : (o.storeConfig .user).Placed rig.chip)
    (hue : (o.storeConfig .user).Hosts rig.chip fun _ _ => o.eraseValue) :
    ∃ s, openSite o logger rig = (s.rig, .ok s) ∧
      Serves o s (fun _ => none) (fun _ => none) Ring.empty
        (Cache.create o.cacheEntries o.cacheValueSize) := by
  let m : Manager :=
    { options := o, factory := default, user := default,
      cache := if o.cacheEntries > 0 then some (Cache.create o.cacheEntries o.cacheValueSize)
        else none,
      log := (logger.getD .silent).child [("component", .text "storage")] }
  obtain ⟨s1, hm1, hman1, hchip1, -⟩ := SiteM.run_mountPartition .factory
    (Options.storeConfig_validate hv .factory) hpol (logger.getD .silent)
    (s := { manager := m, rig := rig }) rfl hfp hfe
  -- the factory mount only read the part, so the user partition is still erased
  have hopt1 : s1.manager.options = o := by rw [hman1, Manager.setStore_options]
  have hup1 : (o.storeConfig .user).Placed s1.rig.chip := by
    rw [hchip1]
    exact hup.of_reads _
  have hue1 : (o.storeConfig .user).Hosts s1.rig.chip fun _ _ => o.eraseValue := by
    rw [hchip1]
    exact hue.of_reads _
  obtain ⟨s2, hm2, hman2, -, hf2⟩ := SiteM.run_mountPartition .user
    (Options.storeConfig_validate hv .user) hpol (logger.getD .silent) hopt1 hup1 hue1
  have hm : s2.manager = (m.setStore .factory (s1.manager.store .factory)).setStore .user
      (s2.manager.store .user) := by
    rw [hman2, hman1]
    rfl
  refine ⟨s2, ?_, {
    options := by rw [hm]; rfl
    opened := by rw [hm]; rfl
    cache := by rw [hm]; exact if_pos hcache
    agrees := Cache.Agrees.nil
    faithful := hf2
    expectable := Expectable.empty }⟩
  unfold openSite
  simp only [hv]
  rw [run_bind_ok hm1, hm2]

/-! ## Requests -/

/-- A request a client makes of the user partition. -/
inductive Request where
  | write (key data : ByteArray)
  | writeCached (key data : ByteArray)
  | delete (key : ByteArray)
  | flush
  | flushAll
  | clear
  | format
  | get (key : ByteArray)
  | read (key : ByteArray) (size : Nat)
  | getCached (key : ByteArray)
  | readCached (key : ByteArray) (size : Nat)
  | dump

namespace Request

/-- Runs a request on the user partition; what it answers is dropped. -/
def run : Request → SiteM Unit
  | write key data => discard (SiteM.writePlain 1 key data)
  | writeCached key data => discard (SiteM.writeCached 1 key data)
  | delete key => SiteM.delete 1 key
  | flush => SiteM.flush 1
  | flushAll => SiteM.flushAll
  | clear => SiteM.clear 1
  | format => SiteM.format 1
  | get key => discard (SiteM.getPlain 1 key)
  | read key size => discard (SiteM.readPlain 1 key size)
  | getCached key => discard (SiteM.getCached 1 key)
  | readCached key size => discard (SiteM.readCached 1 key size)
  | dump => SiteM.dump 1

/-- Whether a request only reads. -/
def reads : Request → Bool
  | get .. | read .. | getCached .. | readCached .. | dump => true
  | _ => false

/-- What the client expects of the user partition once the request has succeeded. -/
def update : Request → (ByteArray → Option ByteArray) → ByteArray → Option ByteArray
  | write key data, M | writeCached key data, M =>
    Function.update M key (if data.size = 0 then none else some data)
  | delete key, M => Function.update M key none
  | clear, _ | format, _ => fun _ => none
  | _, M => M

end Request

/-- The sites a client reaches with the map it expects of the user partition: a manager opened on
a part whose two partitions are placed on it and erased, then any request that succeeds and any
read. -/
inductive Serving (o : Options) : Site → (ByteArray → Option ByteArray) → Prop
  | opened {logger : Option Log.Logger} {rig rig' : Rig} {s : Site}
      (hfp : (o.storeConfig .factory).Placed rig.chip)
      (hfe : (o.storeConfig .factory).Hosts rig.chip fun _ _ => o.eraseValue)
      (hup : (o.storeConfig .user).Placed rig.chip)
      (hue : (o.storeConfig .user).Hosts rig.chip fun _ _ => o.eraseValue)
      (hopen : openSite o logger rig = (rig', .ok s)) : Serving o s fun _ => none
  | step {s s' : Site} {M : ByteArray → Option ByteArray} {r : Except Fault Unit} (q : Request) :
      Serving o s M → q.run.run.run s = (r, s') → (q.reads = true ∨ r = .ok ()) →
      Serving o s' (q.update M)

namespace Serves

variable {s s' : Site} {M F : ByteArray → Option ByteArray} {R : Ring} {C : Cache}
/-- A read that leaves the site `s'`, whatever it answers, keeps the invariant. -/
theorem discard_read {α : Type} {act : SiteM α} {r : Except Fault Unit}
    (hrun : (discard act).run.run s = (r, s'))
    (hact : ∃ r' s'' C', act.run.run s = (r', s'') ∧ Serves o s'' M F R C') :
    ∃ F' R' C', Serves o s' M F' R' C' := by
  obtain ⟨r', s'', C', hact, h'⟩ := hact
  rw [run_discard, hact] at hrun
  obtain rfl := (Prod.mk.inj hrun).2
  exact ⟨F, R, C', h'⟩

/-- A write that succeeds, its count dropped, is a write that succeeds. -/
theorem discard_ok {act : SiteM Nat} (hrun : (discard act).run.run s = (.ok (), s')) :
    ∃ n, act.run.run s = (.ok n, s') := by
  rw [run_discard] at hrun
  rcases hact : act.run.run s with ⟨r, t⟩
  rw [hact] at hrun
  cases r with
  | ok n =>
    have ht : t = s' := (Prod.mk.inj hrun).2
    exact ⟨n, by rw [ht]⟩
  | error f => exact absurd (Prod.mk.inj hrun).1 (by simp [Except.map])

variable (hv : (o.storeConfig .user).validate = .ok ())
  (hpol : Flash.Polar (o.storeConfig .user).eraseValue)
include hv hpol

/-- Every request that succeeds, and every read, keeps the invariant for the map the request
leaves the client expecting. -/
theorem request (h : Serves o s M F R C) (q : Request) {r : Except Fault Unit}
    (hrun : q.run.run.run s = (r, s')) (hok : q.reads = true ∨ r = .ok ()) :
    ∃ F' R' C', Serves o s' (q.update M) F' R' C' := by
  have hc := Config.usable_of_validate hv
  -- a request that changes the partition is taken only when it succeeds
  have hok' : q.reads = false → r = .ok () := fun hq => hok.resolve_left (by rw [hq]; decide)
  cases q with
  | write key data =>
    obtain ⟨n, hw⟩ := discard_ok (hok' rfl ▸ hrun)
    obtain ⟨F', R', h'⟩ := h.writePlain hc hpol hw
    exact ⟨F', R', _, h'⟩
  | writeCached key data =>
    obtain ⟨n, hw⟩ := discard_ok (hok' rfl ▸ hrun)
    exact h.writeCached hc hpol hw
  | delete key =>
    obtain ⟨F', R', h'⟩ := h.delete hc hpol (hok' rfl ▸ hrun)
    exact ⟨F', R', _, h'⟩
  | flush =>
    obtain ⟨s1, F1, R1, C1, h1, -, hres⟩ := h.flush hc hpol
    have hs : s' = s1 := by
      rcases hres with ⟨hflush, -⟩ | ⟨fs, hflush, -⟩ <;>
        exact ((Prod.mk.inj (hrun.symm.trans hflush)).2)
    exact ⟨F1, R1, C1, hs ▸ h1⟩
  | flushAll =>
    obtain ⟨s1, F1, R1, C1, h1, hres⟩ := h.flushAll hc hpol
    have hs : s' = s1 := by
      rcases hres with ⟨hflush, -⟩ | ⟨f, hflush⟩ <;>
        exact ((Prod.mk.inj (hrun.symm.trans hflush)).2)
    exact ⟨F1, R1, C1, hs ▸ h1⟩
  | clear =>
    obtain ⟨s1, hclear, h1⟩ := h.clear hc hpol
    have hs : s' = s1 := (Prod.mk.inj ((hok' rfl ▸ hrun).symm.trans hclear)).2
    exact ⟨_, _, _, hs ▸ h1⟩
  | format =>
    obtain ⟨s1, hformat, h1⟩ := h.format hc hpol hv
    have hs : s' = s1 := (Prod.mk.inj ((hok' rfl ▸ hrun).symm.trans hformat)).2
    exact ⟨_, _, _, hs ▸ h1⟩
  | get key =>
    obtain ⟨r', s'', hget, h', -⟩ := h.getPlain hc hpol key
    exact discard_read hrun ⟨r', s'', C, hget, h'⟩
  | read key size =>
    obtain ⟨r', s'', hread, h', -⟩ := h.readPlain hc hpol key size
    exact discard_read hrun ⟨r', s'', C, hread, h'⟩
  | getCached key =>
    obtain ⟨r', s'', C', hget, h', -⟩ := h.getCached hc hpol key
    exact discard_read hrun ⟨r', s'', C', hget, h'⟩
  | readCached key size =>
    obtain ⟨r', s'', C', hread, h', -⟩ := h.readCached hc hpol key size
    exact discard_read hrun ⟨r', s'', C', hread, h'⟩
  | dump =>
    obtain ⟨s1, F1, R1, C1, h1, hres⟩ := h.dump hc hpol
    have hs : s' = s1 := by
      rcases hres with ⟨hdump, -⟩ | ⟨fs, hdump, -⟩ | ⟨f, hdump, -⟩ <;>
        exact ((Prod.mk.inj (hrun.symm.trans hdump)).2)
    exact ⟨F1, R1, C1, hs ▸ h1⟩

end Serves

/-- Every site a client reaches serves the map it expects. -/
theorem Serving.serves (hv : o.validate = .ok ()) (hpol : Flash.Polar o.eraseValue)
    (hcache : 0 < o.cacheEntries) {s : Site} {M : ByteArray → Option ByteArray}
    (hs : Serving o s M) : ∃ F R C, Serves o s M F R C := by
  induction hs with
  | opened hfp hfe hup hue hopen =>
    obtain ⟨s0, hopen0, h0⟩ := run_openSite hv hpol hcache _ hfp hfe hup hue
    rw [hopen0] at hopen
    obtain rfl := Except.ok.inj (Prod.mk.inj hopen).2
    exact ⟨_, _, _, h0⟩
  | step q _ hrun hok ih =>
    obtain ⟨F, R, C, h⟩ := ih
    exact h.request (Options.storeConfig_validate hv .user) hpol q hrun hok

/-- The cache keeps the map its client expects. Opening a manager on a part whose two partitions
are erased succeeds; and in every site a client reaches from there, a usable key reads as the
client expects it to, plainly or through the cache, whole or into a buffer of any size; listing
the user partition writes one line for each key the client expects to hold a value, each key
once, unless a write-back of its flush fails or the store's walk limit is short of two rounds of
the ring it holds; and once a flush or a close has succeeded, the user store itself answers
what the client expects. -/
theorem Serving.cache_refinement (hv : o.validate = .ok ()) (hpol : Flash.Polar o.eraseValue)
    (hcache : 0 < o.cacheEntries) :
    (∀ (logger : Option Log.Logger) (rig : Rig),
      (o.storeConfig .factory).Placed rig.chip →
      (o.storeConfig .factory).Hosts rig.chip (fun _ _ => o.eraseValue) →
      (o.storeConfig .user).Placed rig.chip →
      (o.storeConfig .user).Hosts rig.chip (fun _ _ => o.eraseValue) →
      ∃ s, openSite o logger rig = (s.rig, .ok s)) ∧
    ∀ (s : Site) (M : ByteArray → Option ByteArray), Serving o s M →
      (∀ key, (Entry.padKey? key).isSome →
        (∃ s', (SiteM.getPlain 1 key).run.run s = (lookupAnswer "get" key (M key), s')) ∧
        (∀ size, ∃ s', (SiteM.readPlain 1 key size).run.run s =
          (readAnswer "read" key size (M key), s')) ∧
        (∃ s', (SiteM.getCached 1 key).run.run s = (lookupAnswer "get" key (M key), s')) ∧
        (∀ size, ∃ s', (SiteM.readCached 1 key size).run.run s =
          (readAnswer "get" key size (M key), s')) ∧
        ∃ s', ((SiteM.view 1).get key).run.run s = (lookupAnswer "get" key (M key), s')) ∧
      (∃ s', ((SiteM.dump 1).run.run s = (.ok (), s') ∧ ∃ ks : List ByteArray, ks.Nodup ∧
            (∀ key, key ∈ ks ↔ M key ≠ none) ∧ s'.console = s.console ++ listing M ks) ∨
          (∃ fs, (SiteM.dump 1).run.run s = (.error (.joined fs), s') ∧ fs ≠ [] ∧
            ∀ f ∈ fs, StoreM.Refusal f) ∨
          (∃ f R, (SiteM.dump 1).run.run s = (.error f, s') ∧ f.is .corrupt ∧
            Session.Faithful (o.storeConfig .user) ⟨s'.engine .user, M⟩ R ∧
            (s'.engine .user).store.walkLimit < 2 * (R.records.length + 1))) ∧
      (∀ s', (SiteM.flush 1).run.run s = (.ok (), s') → ∀ key, (Entry.padKey? key).isSome →
        ∃ e', (StoreM.get key).run.run (s'.engine .user) = (lookupAnswer "get" key (M key), e')) ∧
      ∀ s', SiteM.close.run.run s = (.ok (), s') → ∀ key, (Entry.padKey? key).isSome →
        ∃ e', (StoreM.get key).run.run (s'.engine .user) = (lookupAnswer "get" key (M key), e') := by
  have hvu := Options.storeConfig_validate hv .user
  have hc := Config.usable_of_validate hvu
  refine ⟨fun logger rig hfp hfe hup hue => ?_, fun s M hs => ?_⟩
  · obtain ⟨s, hopen, -⟩ := run_openSite hv hpol hcache logger hfp hfe hup hue
    exact ⟨s, hopen⟩
  obtain ⟨F, R, C, h⟩ := hs.serves hv hpol hcache
  -- a user store faithful to the client's map answers what the client expects
  have hstored : ∀ e R', Session.Faithful (o.storeConfig .user) ⟨e, M⟩ R' →
      ∀ key, (Entry.padKey? key).isSome →
        ∃ e', (StoreM.get key).run.run e = (lookupAnswer "get" key (M key), e') := by
    intro e R' hf key hkey
    obtain ⟨k, hk⟩ := Option.isSome_iff_exists.1 hkey
    obtain ⟨e', hget, -⟩ := hf.get hc hpol hk
    exact ⟨e', hget⟩
  refine ⟨fun key hkey => ?_, ?_, fun s' hflush => ?_, fun s' hclose => ?_⟩
  · obtain ⟨k, hk⟩ := Option.isSome_iff_exists.1 hkey
    obtain ⟨r1, s1, h1, -, a1⟩ := h.getPlain hc hpol key
    obtain ⟨r3, s3, C3, h3, -, a3⟩ := h.getCached hc hpol key
    refine ⟨⟨s1, by rw [h1, a1 k hk]⟩, fun size => ?_, ⟨s3, by rw [h3, a3 k hk]⟩, fun size => ?_,
      ⟨s3, by rw [← a3 k hk]; exact h3⟩⟩
    · obtain ⟨r2, s2, h2, -, a2⟩ := h.readPlain hc hpol key size
      exact ⟨s2, by rw [h2, a2 k hk]⟩
    · obtain ⟨r4, s4, C4, h4, -, a4⟩ := h.readCached hc hpol key size
      exact ⟨s4, by rw [h4, a4 k hk]⟩
  · obtain ⟨s', F', R', C', h', hres⟩ := h.dump hc hpol
    refine ⟨s', ?_⟩
    rcases hres with hok | herr | ⟨f, hdump, hcorrupt, hF, hlimit⟩
    · exact .inl hok
    · exact .inr (.inl herr)
    · exact .inr (.inr ⟨f, R', hdump, hcorrupt, hF ▸ h'.faithful, hlimit⟩)
  · -- a flush that succeeds leaves the store holding the client's map
    obtain ⟨s1, F1, R1, C1, h1, -, hres⟩ := h.flush hc hpol
    rcases hres with ⟨hok, hF⟩ | ⟨fs, herr, -⟩
    · have hs : s' = s1 := (Prod.mk.inj (hflush.symm.trans hok)).2
      subst hs
      exact hstored _ R1 (hF ▸ h1.faithful)
    · exact absurd (Prod.mk.inj (hflush.symm.trans herr)).1 (by simp)
  · obtain ⟨R', hf⟩ := h.close hc hpol hclose
    exact hstored _ R' hf

/-! ## A site with two values cached

The examples below open a manager on a blank part of two partitions of two sectors of 120 bytes,
with a cache of four entries of up to 16 bytes, and cache `a` under `k` and `b` under `j`. -/

/-- Two partitions of two sectors of 120 bytes, with a cache of four entries of up to 16 bytes. -/
def sampleOptions : Options :=
  { sectorSize := 120, writeBlock := 1, eraseValue := 0xFF, factory := ⟨0, 240⟩,
    user := ⟨240, 240⟩, cacheEntries := 4, cacheValueSize := 16 }

/-- A blank part of 480 bytes, erased a sector at a time. -/
def sampleDevice : Rig :=
  { chip := { geometry := ⟨480, 120, 1, 0xFF⟩, cells := ⟨Array.replicate 480 0xFF⟩,
              wear := #[0, 0, 0, 0] } }

theorem placed_sampleDevice (p : Partition) : (sampleOptions.storeConfig p).Placed sampleDevice.chip where
  erased := rfl
  size := Array.size_replicate
  region := by cases p <;> decide
  write_block := .inl (by decide)
  erase_block := .inr ⟨by cases p <;> decide, by cases p <;> decide⟩
  ready := ⟨rfl, by decide⟩

theorem hosts_sampleDevice (p : Partition) :
    (sampleOptions.storeConfig p).Hosts sampleDevice.chip fun _ _ => sampleOptions.eraseValue :=
  Config.hosts_replicate rfl (by cases p <;> decide)

/-- The manager opened on the blank part serves its client once it has cached `a` under `k` and
`b` under `j`: the cache takes both, dirty, and nothing is written to the store. -/
theorem serving_cached : ∃ s, Serving sampleOptions s
    (Function.update (Function.update (fun _ => none) ⟨#[107]⟩ (some ⟨#[97]⟩))
      ⟨#[106]⟩ (some ⟨#[98]⟩)) := by
  obtain ⟨s0, hopen, h0⟩ := run_openSite (o := sampleOptions) rfl (.inr rfl) (by decide) none
    (placed_sampleDevice .factory) (hosts_sampleDevice .factory) (placed_sampleDevice .user)
    (hosts_sampleDevice .user)
  obtain ⟨k, hk⟩ := Option.isSome_iff_exists.1 Session.sampleKeys_usable.1
  obtain ⟨j, hj⟩ := Option.isSome_iff_exists.1 Session.sampleKeys_usable.2
  obtain ⟨s1, hrun1, h1⟩ := h0.writeCached_put ⟨#[97]⟩ hk (by decide) (by decide) (by decide) (by decide)
  obtain ⟨s2, hrun2, -⟩ := h1.writeCached_put ⟨#[98]⟩ hj (by decide) (by decide) (by decide) (by decide)
  have hq1 : (Request.writeCached ⟨#[107]⟩ ⟨#[97]⟩).run.run.run s0 = (.ok (), s1) := by
    simp only [Request.run, run_discard, hrun1]
    rfl
  have hq2 : (Request.writeCached ⟨#[106]⟩ ⟨#[98]⟩).run.run.run s1 = (.ok (), s2) := by
    simp only [Request.run, run_discard, hrun2]
    rfl
  exact ⟨s2, .step _ (.step _ (.opened (placed_sampleDevice .factory) (hosts_sampleDevice .factory)
    (placed_sampleDevice .user) (hosts_sampleDevice .user) hopen) hq1 (.inr rfl)) hq2 (.inr rfl)⟩

/-- With `a` cached under `k` and `b` under `j`, neither yet on flash, a plain read of `k` and a
cached read of `j` answer the cached values. -/
theorem cache_refinement_cached :
    sampleOptions.validate = .ok () ∧ Flash.Polar sampleOptions.eraseValue ∧
      (0 : Int) < sampleOptions.cacheEntries ∧
      ∃ s, Serving sampleOptions s
          (Function.update (Function.update (fun _ => none) ⟨#[107]⟩ (some ⟨#[97]⟩))
            ⟨#[106]⟩ (some ⟨#[98]⟩)) ∧
        (∃ s', (SiteM.getPlain 1 ⟨#[107]⟩).run.run s =
          (lookupAnswer "get" ⟨#[107]⟩ (some ⟨#[97]⟩), s')) ∧
        ∃ s', (SiteM.getCached 1 ⟨#[106]⟩).run.run s =
          (lookupAnswer "get" ⟨#[106]⟩ (some ⟨#[98]⟩), s') := by
  obtain ⟨s, hs⟩ := serving_cached
  have hreads := ((Serving.cache_refinement (o := sampleOptions) rfl (.inr rfl) (by decide)).2 s _ hs).1
  exact ⟨rfl, .inr rfl, by decide, s, hs, (hreads _ Session.sampleKeys_usable.1).1,
    (hreads _ Session.sampleKeys_usable.2).2.2.1⟩

end Storage

end NorStore
