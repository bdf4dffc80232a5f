import NorStore.Proofs.Site

/-!
# Writing the cache back

Flushing writes the dirty entries of the cache back to the user store, the least recently used
first, one step each (`SiteM.writeBackEntry`). A step that succeeds marks its entry clean; one
that fails collects the store's refusal. Along the loop the site keeps serving the client, and
an entry still dirty is one still to be written back unless a step has failed (`Flushing`).

So a flush that succeeds leaves a store that holds exactly what the client expects, and one that
fails says why each write-back failed (`Serves.flush`). Flushing every partition and closing the
manager do the same for the user partition (`Serves.flushAll`, `Serves.close`).
-/

namespace NorStore

/-- A fold whose every step succeeds and keeps an invariant of the items still to come succeeds
and keeps it to the end. -/
theorem run_foldlM_of_step {ε σ α β : Type} (P : List α → β → σ → Prop)
    {step : β → α → ExceptT ε (StateM σ) β}
    (hstep : ∀ x l b s, P (x :: l) b s → ∃ b' s', (step b x).run.run s = (.ok b', s') ∧ P l b' s') :
    ∀ (l : List α) (b : β) (s : σ), P l b s →
      ∃ b' s', (l.foldlM step b).run.run s = (.ok b', s') ∧ P [] b' s' := by
  intro l
  induction l with
  | nil => intro b s h; exact ⟨b, s, rfl, h⟩
  | cons x l ih =>
    intro b s h
    obtain ⟨b1, s1, hrun, h1⟩ := hstep x l b s h
    obtain ⟨b2, s2, hrest, h2⟩ := ih b1 s1 h1
    refine ⟨b2, s2, ?_, h2⟩
    rw [List.foldlM_cons, run_bind_ok hrun]
    exact hrest

/-- A collection of refusals is not a refusal because the store is closed. -/
theorem StoreM.Refusal.joined_not_closed {fs : List Fault} (h : ∀ f ∈ fs, StoreM.Refusal f) :
    (Fault.joined fs).is .closed = false := by
  rw [Fault.is, Fault.kinds, Bool.eq_false_iff]
  intro hc
  simp only [List.contains_iff_mem, List.mem_flatten, List.mem_map] at hc
  obtain ⟨_, ⟨f, hf, rfl⟩, hk⟩ := hc
  rcases h f hf with h' | h' | h' <;> simp [h'] at hk

namespace Storage

/-- An entry left dirty by marking `x` clean was dirty before, and is not `x`. -/
theorem Cache.mem_markClean_dirty {C : Cache} {x y : CacheEntry}
    (hy : y ∈ (C.markClean x.key x.value).entries) (hd : y.dirty = true) :
    y ∈ C.entries ∧ y ≠ x := by
  obtain ⟨z, hz, rfl⟩ := List.mem_map.1 hy
  by_cases hm : (z.key == x.key && z.value == x.value) = true
  · rw [if_pos hm] at hd
    exact absurd hd Bool.false_ne_true
  · rw [if_neg hm]
    refine ⟨hz, fun hzx => hm ?_⟩
    rw [hzx, Bool.and_eq_true, ByteArray.beq_eq_true_iff, ByteArray.beq_eq_true_iff]
    exact ⟨rfl, rfl⟩

/-- Flushing a cache that holds no value does nothing, as for the factory partition. -/
theorem SiteM.run_flush_factory (s : Site) : (SiteM.flush 0).run.run s = (.ok (), s) := rfl

/-- Flushing with the dirty entries `rest` still to write back and the outcome `acc` so far:
the site serves the client and has written nothing for a reader since the text `console`, every
entry still to write back holds what the client expects of its key, every failure so far is a
refusal, and an entry still dirty is one still to write back unless a write-back has failed. -/
def Flushing (o : Options) (M : ByteArray → Option ByteArray) (console : ByteArray)
    (rest : List CacheEntry) (acc : List Fault × Nat) (s : Site) : Prop :=
  s.console = console ∧
    (∃ F R C, Serves o s M F R C ∧ ∀ x ∈ C.entries, x.dirty = true → x ∈ rest ∨ acc.1 ≠ []) ∧
    (∀ x ∈ rest, M x.key = some x.value) ∧ ∀ f ∈ acc.1, StoreM.Refusal f

namespace Serves

variable {o : Options} {s : Site} {M F : ByteArray → Option ByteArray} {R : Ring} {C : Cache}
variable (hc : (o.storeConfig .user).Usable) (hpol : Flash.Polar (o.storeConfig .user).eraseValue)
include hc hpol

/-- A write to the user store that fails is a refusal, and keeps the invariant. -/
theorem writeFailed (h : Serves o s M F R C) {key v : ByteArray} {f : Fault} {e' : Engine}
    (hw : (StoreM.write key v).run.run (s.engine .user) = (.error f, e')) :
    StoreM.Refusal f ∧ ∃ R', Serves o (s.withEngine .user e') M F R' C := by
  obtain ⟨hf, R', hR'⟩ := h.faithful.write_error hc hpol hw
  exact ⟨hf, R', h.withEngine h.agrees hR' h.expectable⟩

/-- One write-back keeps the loop's invariant, one entry further on. -/
theorem Flushing.step {console : ByteArray} {x : CacheEntry} {rest : List CacheEntry}
    {acc : List Fault × Nat} (h : Flushing o M console (x :: rest) acc s) :
    ∃ acc' s', (SiteM.writeBackEntry .user acc x).run.run s = (.ok acc', s') ∧
      Flushing o M console rest acc' s' := by
  obtain ⟨hcon, ⟨F, R, C, hs, hdirty⟩, hpend, href⟩ := h
  have hM : M x.key = some x.value := hpend x List.mem_cons_self
  have hpend' : ∀ y ∈ rest, M y.key = some y.value := fun y hy => hpend y (List.mem_cons_of_mem x hy)
  rcases hw : (StoreM.write x.key x.value).run.run (s.engine .user) with ⟨res, e'⟩
  cases res with
  | ok m =>
    -- the entry is written back and marked clean
    have hin : (do discard (SiteM.onStore .user (StoreM.write x.key x.value)); pure none :
        SiteM (Option Fault)).run.run s = (.ok none, s.withEngine .user e') := by
      rw [run_bind, run_discard, SiteM.run_onStore hw]
      rfl
    obtain ⟨R', h'⟩ := hs.writeBack hc hpol hM hw
    refine ⟨(acc.1, acc.2 + 1), _, ?_, ?_, ⟨_, R', _, h', fun y hy hd => ?_⟩, hpend', href⟩
    · unfold SiteM.writeBackEntry
      rw [run_bind, run_tryCatch_ok hin]
      simp only [run_bind, SiteM.run_modifyCache, Site.withEngine_cache, hs.cache, Option.map_some,
        run_pure]
    · exact hcon
    · obtain ⟨hy', hne⟩ := Cache.mem_markClean_dirty hy hd
      rcases hdirty y hy' hd with hmem | hfail
      · exact .inl ((List.mem_cons.1 hmem).resolve_left hne)
      · exact .inr hfail
  | error f =>
    -- the store refused the value, which stays dirty; the failure is collected
    have hin : (do discard (SiteM.onStore .user (StoreM.write x.key x.value)); pure none :
        SiteM (Option Fault)).run.run s = (.error f, s.withEngine .user e') := by
      rw [run_bind, run_discard, SiteM.run_onStore hw]
      rfl
    obtain ⟨hrefuse, R', h'⟩ := hs.writeFailed hc hpol hw
    obtain ⟨s2, hlog, hq⟩ := SiteM.run_logAt .error "cache write-back failed"
      [Log.Field.bytes "key" x.key, Log.errorField (some f.message)] (s.withEngine .user e')
    refine ⟨(acc.1 ++ [f], acc.2), s2, ?_, hq.2.2.trans hcon,
      ⟨F, R', C, h'.quiet hq, fun _ _ _ => .inr (by simp)⟩, hpend', fun g hg => ?_⟩
    · unfold SiteM.writeBackEntry
      rw [run_bind, run_tryCatch_error hin]
      simp only [run_pure, run_bind, hlog]
    · rcases List.mem_append.1 hg with hg | hg
      · exact href g hg
      · rw [List.mem_singleton.1 hg]
        exact hrefuse

/-- Flushing the user partition writes every dirty entry back: when it succeeds the store holds
exactly what the client expects; when it fails, with the refusal of each write-back that failed,
the invariant still holds. It writes nothing for a reader. -/
theorem flush (h : Serves o s M F R C) :
    ∃ s' F' R' C', Serves o s' M F' R' C' ∧ s'.console = s.console ∧
      ((SiteM.flush 1).run.run s = (.ok (), s') ∧ F' = M ∨
        ∃ fs, (SiteM.flush 1).run.run s = (.error (.joined fs), s') ∧ fs ≠ [] ∧
          ∀ f ∈ fs, StoreM.Refusal f) := by
  have hstart : Flushing o M s.console C.dirtyEntries ([], 0) s :=
    ⟨rfl, ⟨F, R, C, h, fun x hx hd => .inl (Cache.mem_dirtyEntries.2 ⟨hx, hd⟩)⟩,
      fun x hx => h.agrees.current x (Cache.mem_dirtyEntries.1 hx).1,
      fun _ hf => absurd hf List.not_mem_nil⟩
  obtain ⟨⟨fs, w⟩, s1, hloop, hcon, ⟨F1, R1, C1, h1, hclean⟩, -, hrefused⟩ :=
    run_foldlM_of_step (Flushing o M s.console) (fun _ _ _ _ hfl => Flushing.step hc hpol hfl) _ _ s
      hstart
  obtain ⟨s2, hrec, hq2⟩ := SiteM.run_recordFlush w s1
  -- once the loop is over, the flush fails exactly when a write-back failed
  have hend : ∀ s3, s1.Quiet s3 → ∃ s' F' R' C', Serves o s' M F' R' C' ∧ s'.console = s.console ∧
      ((if (!fs.isEmpty) = true then throw (Fault.joined fs) else pure () : SiteM Unit).run.run s3 =
          (.ok (), s') ∧ F' = M ∨
        ∃ fs', (if (!fs.isEmpty) = true then throw (Fault.joined fs) else pure () : SiteM Unit).run.run
          s3 = (.error (.joined fs'), s') ∧ fs' ≠ [] ∧ ∀ f ∈ fs', StoreM.Refusal f) := by
    intro s3 hq
    cases fs with
    | nil =>
      -- no write-back failed, so no entry is dirty and the store holds what the client expects
      have hF : F1 = M := h1.agrees.stored_eq fun x hx => by
        cases hd : x.dirty with
        | false => rfl
        | true => exact absurd (hclean x hx hd) (by simp)
      exact ⟨s3, M, R1, C1, hF ▸ h1.quiet hq, hq.2.2.trans hcon, .inl ⟨rfl, rfl⟩⟩
    | cons f fs' =>
      exact ⟨s3, F1, R1, C1, h1.quiet hq, hq.2.2.trans hcon,
        .inr ⟨f :: fs', rfl, List.cons_ne_nil f fs', hrefused⟩⟩
  have hp : Partition.ofIndex? 1 = some .user := rfl
  unfold SiteM.flush
  simp only [hp, Option.isNone_some, Bool.false_eq_true, if_false, run_bind,
    SiteM.run_userCache_user, h.cache, SiteM.run_resolve_user h.opened]
  rw [hloop]
  simp only [hrec]
  split
  · obtain ⟨s3, hlog, hq3⟩ := SiteM.run_logAt .debug "cache flushed" [("count", .int w)] s2
    rw [run_bind_ok hlog]
    exact hend s3 (hq2.trans hq3)
  · exact hend s2 hq2

/-- Flushing every partition flushes the user partition: when it succeeds the store holds exactly
what the client expects, and whatever it answers the invariant holds. -/
theorem flushAll (h : Serves o s M F R C) :
    ∃ s' F' R' C', Serves o s' M F' R' C' ∧
      (SiteM.flushAll.run.run s = (.ok (), s') ∧ F' = M ∨
        ∃ f, SiteM.flushAll.run.run s = (.error f, s')) := by
  obtain ⟨s1, F1, R1, C1, h1, -, hres⟩ := h.flush hc hpol
  have hf0 : (do SiteM.flush Partition.factory.index; pure none : SiteM (Option Fault)).run.run s =
      (.ok none, s) := rfl
  have hidx : Partition.user.index = 1 := rfl
  refine ⟨s1, F1, R1, C1, h1, ?_⟩
  unfold SiteM.flushAll
  simp only [Partition.all, List.forIn_cons, List.forIn_nil, run_bind, run_tryCatch_ok hf0, run_pure]
  rcases hres with ⟨hok, hF⟩ | ⟨fs, herr, hne, hrefused⟩
  · have hin : (do SiteM.flush Partition.user.index; pure none : SiteM (Option Fault)).run.run s =
        (.ok none, s1) := by
      rw [hidx, run_bind_ok hok]
      rfl
    simp only [run_tryCatch_ok hin, run_pure]
    exact .inl ⟨rfl, hF⟩
  · -- the refusals do not say the store is closed, so the failure is kept
    have hin : (do SiteM.flush Partition.user.index; pure none : SiteM (Option Fault)).run.run s =
        (.error (.joined fs), s1) := by
      rw [hidx, run_bind_error herr]
    simp only [run_tryCatch_error hin, run_pure, StoreM.Refusal.joined_not_closed hrefused]
    exact .inr ⟨_, rfl⟩

/-- Closing the manager, when it succeeds, leaves the user store holding exactly what the client
expects. -/
theorem close (h : Serves o s M F R C) {s' : Site} (hrun : SiteM.close.run.run s = (.ok (), s')) :
    ∃ R', Session.Faithful (o.storeConfig .user) ⟨s'.engine .user, M⟩ R' := by
  obtain ⟨s1, F1, R1, C1, h1, hres⟩ := h.flushAll hc hpol
  unfold SiteM.close at hrun
  rcases hres with ⟨hok, rfl⟩ | ⟨f, herr⟩
  · have hin : (do SiteM.flushAll; pure none : SiteM (Option Fault)).run.run s = (.ok none, s1) := by
      rw [run_bind_ok hok]
      rfl
    simp only [run_bind, run_tryCatch_ok hin, SiteM.run_modifyManager] at hrun
    -- marking the manager closed leaves the store as the flush did
    obtain rfl := (Prod.mk.inj hrun).2
    exact ⟨R1, h1.faithful⟩
  · -- a failed flush is the failure of the close
    have hin : (do SiteM.flushAll; pure none : SiteM (Option Fault)).run.run s = (.error f, s1) := by
      rw [run_bind_error herr]
    simp only [run_bind, run_tryCatch_error hin, run_pure, SiteM.run_modifyManager, run_throw] at hrun
    exact absurd (Prod.mk.inj hrun).1 (by simp)

end Serves

end Storage

end NorStore
