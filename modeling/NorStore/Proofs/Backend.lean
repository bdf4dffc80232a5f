import NorStore.Proofs.Confinement
import NorStore.Proofs.Settings
import NorStore.Proofs.Space

/-!
# A mounted store as a key-value backend

The typed settings are proved over every backend that a client sees as a map
(`Settings.Backend.KeyValue`). This module shows that a mounted store is one.

*The state.* A store answers as a map only while it is mounted on a ring at rest that holds what
its client expects, as `Session.Faithful` says; the laws of a backend speak of every state, so
the state here is a session that carries that fact (`Mounted`). Each operation of
`Mounted.backend` runs the store's own operation on the session's engine (`Mounted.run_lift`).
A read only reads (`Session.Faithful.get_reads`); a write or a deletion is a call of the session,
which keeps it faithful.

*Which writes it takes.* A write fails for lack of space only when its record fits neither the
active sector nor the one the first rotation opens (`StoreM.WriteEnd.full`). What a rotation
copies into the sector it opens is part of what the ring holds (`Ring.keep_oldest_sublist`), so
the record fits there whenever the values the client expects and the new one fit one sector
beside its free and close slots (`Ring.fits_rotate`). That is a condition on the map alone
(`Config.Roomy`), and a write of a usable key that meets it succeeds
(`Session.Faithful.write_of_roomy`).

*Main statement.* `Mounted.keyValue`: a mounted store is a key-value backend that takes every
write the map has room for, so the laws of `Backend.KeyValue.settings_laws` hold of it.
-/

namespace NorStore

namespace Config

variable {c : Config}

/-- Records whose values cost no more than a sector less its free and close slots fit it. -/
theorem fits_of_sum_cost_le {rs : List Record}
    (h : (rs.map fun r => c.cost r.value).sum + 2 * c.entrySize.toNat ≤ c.sectorSize.toNat) :
    c.Fits rs := by
  have hmul : (rs.length + 2) * c.entrySize.toNat =
      rs.length * c.entrySize.toNat + 2 * c.entrySize.toNat := Nat.add_mul _ _ _
  rw [sum_cost_eq] at h
  unfold Fits
  omega

/-- A map has room for a value when the values it holds and that one fit in one sector beside
its free and close slots, however many of its values are counted. -/
def Roomy (c : Config) (m : ByteArray → Option ByteArray) (data : ByteArray) : Prop :=
  ∀ L : List (ByteArray × ByteArray), (L.map Prod.fst).Nodup → (∀ b ∈ L, m b.1 = some b.2) →
    (L.map fun b => c.cost b.2).sum + c.cost data + 2 * c.entrySize.toNat ≤ c.sectorSize.toNat

/-- A value a map has room for is not too large for the store. -/
theorem Roomy.size_le (hc : c.Usable) {m : ByteArray → Option ByteArray} {data : ByteArray}
    (h : c.Roomy m data) : (data.size : Int) ≤ c.maxValueSize := by
  have h0 := h [] List.nodup_nil fun _ hb => absurd hb List.not_mem_nil
  have hle := Nat.le_blockCeil (n := data.size) hc.block_pos
  simp only [List.map_nil, List.sum_nil, cost] at h0
  unfold maxValueSize
  omega

end Config

namespace Ring

variable {c : Config} {R : Ring}

/-- What a collection copies out of the oldest sector is part of what a collection of the whole
ring keeps: the records of the newer sectors come first in both. -/
theorem keep_oldest_sublist (R : Ring) :
    (keep R.newerKeys R.oldest).Sublist (keep [] R.records) := by
  rw [records_split, keep_append, List.nil_append]
  exact List.sublist_append_right _ _

/-- The sector the first rotation opens has room for a record when the values the ring holds and
the record's fit one sector beside its free and close slots. -/
theorem fits_rotate (hc : c.Usable) {g : Record} (hsize : (g.value.size : Int) ≤ c.maxValueSize)
    (hroom : ((keep [] R.records).map fun r => c.cost r.value).sum + c.cost g.value +
      2 * c.entrySize.toNat ≤ c.sectorSize.toNat) :
    c.Fits (g :: (R.rotate c).current) := by
  unfold rotate
  split
  · -- the oldest sector was collected into the new one: its copies hold values the ring holds
    have hle := ((keep_oldest_sublist R).map fun r => c.cost r.value).sum_le_sum
      fun _ _ => Nat.zero_le _
    apply Config.fits_of_sum_cost_le
    simp only [List.map_cons, List.sum_cons, List.map_reverse, List.sum_reverse]
    omega
  · -- the next sector was blank
    exact Config.fits_single hc hsize

end Ring

namespace Session

variable {c : Config} {s : Session} {R : Ring}

/-- In a faithful session a write of a usable key that the expected map has room for succeeds:
a whole round of rotations finds no room only when the record fits not even the sector the first
rotation opens, which holds no more than the values the client expects. -/
theorem Faithful.write_of_roomy (hv : c.validate = .ok ()) (hpol : Flash.Polar c.eraseValue)
    (h : s.Faithful c R) {key data : ByteArray} (hkey : (Entry.padKey? key).isSome)
    (hroom : c.Roomy s.expected data) :
    ∃ n e', (StoreM.write key data).run.run s.engine = (.ok n, e') := by
  have hc := Config.usable_of_validate hv
  obtain ⟨res, e', hrun, R', -, -, -, hend, -⟩ :=
    StoreM.run_write_ends hc hpol h.stored h.atRest h.mounted key data
  -- the values the ring holds are those the client expects, one per key
  obtain ⟨L, hnodup, hmem, hcost⟩ := h.bindings
  have hlive := hroom L hnodup fun b hb => (hmem b.1 b.2).1 hb
  rw [hcost] at hlive
  cases hend with
  | badKey hbad => simp [hbad] at hkey
  | tooLarge _ hbig => exact absurd (hroom.size_le hc) (Int.not_le.2 hbig)
  | unchanged => exact ⟨0, e', hrun⟩
  | appended n => exact ⟨data.size, e', hrun⟩
  | full n _ hsize _ _ hnext => exact (hnext (Ring.fits_rotate hc hsize hlive)).elim

end Session

/-- A session whose store is mounted on a ring at rest that holds what its client expects. -/
structure Mounted (c : Config) where
  /-- The store and what its client expects of it. -/
  session : Session
  faithful : ∃ R, session.Faithful c R

namespace Mounted

variable {c : Config} {α : Type}

/-- Runs `act` on the store of a mounted session, which leaves the session `next` gives;
`keeps` says that one is mounted too. -/
def lift (act : StoreM α) (next : Session → Session)
    (keeps : ∀ s : Mounted c, ∃ R, (next s.session).Faithful c R) :
    ExceptT Fault (StateM (Mounted c)) α :=
  ExceptT.mk fun s => ((act.run.run s.session.engine).1, ⟨next s.session, keeps s⟩)

@[simp] theorem run_lift (act : StoreM α) (next : Session → Session)
    (keeps : ∀ s : Mounted c, ∃ R, (next s.session).Faithful c R) (s : Mounted c) :
    (lift act next keeps).run.run s =
      ((act.run.run s.session.engine).1, ⟨next s.session, keeps s⟩) :=
  rfl

variable (hv : c.validate = .ok ()) (hpol : Flash.Polar c.eraseValue)

/-- A mounted store as a backend for settings. A read leaves what the client expects as it was;
a write or a deletion is a call of the session, changing it as the call says when it succeeds. -/
def backend : Settings.Backend (ExceptT Fault (StateM (Mounted c))) where
  write key data := lift (StoreM.write key data) (·.step (.write key data))
    fun s => s.faithful.elim fun _ h => (h.call hv hpol (.write key data)).2
  get key := lift (StoreM.get key) (fun s => ⟨((StoreM.get key).run.run s.engine).2, s.expected⟩)
    fun s => s.faithful.elim fun R h => ⟨R, h.reads (h.get_reads hv hpol key)⟩
  delete key := lift (StoreM.delete key) (·.step (.delete key))
    fun s => s.faithful.elim fun _ h => (h.call hv hpol (.delete key)).2

/-- A read of a usable key answers the value the client expects, or fails as not found. -/
theorem get_answer (s : Mounted c) {key : ByteArray} {k : Vector UInt8 24}
    (hk : Entry.padKey? key = some k) :
    (((backend hv hpol).get key).run.run s).1 =
      lookupAnswer "get" key (s.session.expected key) := by
  obtain ⟨R, h⟩ := s.faithful
  obtain ⟨e', hrun, -⟩ := h.get (Config.usable_of_validate hv) hpol hk
  show ((StoreM.get key).run.run s.session.engine).1 = _
  rw [hrun]

/-- A mounted store is a key-value backend that takes every write the map it holds has room for:
a read of a usable key answers the value the client expects, or fails as not found, and changes
nothing the client expects; such a write succeeds and the key then holds the bytes. -/
theorem keyValue :
    (backend hv hpol).KeyValue (fun s => s.session.expected) fun m _ data => c.Roomy m data where
  get_some {key v} s hkey hget := by
    obtain ⟨k, hk⟩ := Option.isSome_iff_exists.1 hkey
    have hans := get_answer hv hpol s hk
    rw [hget] at hans
    exact ⟨_, Prod.ext hans rfl, rfl⟩
  get_none {key} s hkey hget := by
    obtain ⟨k, hk⟩ := Option.isSome_iff_exists.1 hkey
    have hans := get_answer hv hpol s hk
    rw [hget] at hans
    exact ⟨_, _, Prod.ext hans rfl, by simp [Fault.is, Fault.kinds], rfl⟩
  write_accepted {key data} s hkey hsize hroom := by
    obtain ⟨R, h⟩ := s.faithful
    obtain ⟨n, e', hw⟩ := h.write_of_roomy hv hpol hkey hroom
    have hcall : (Call.write key data).run s.session.engine = (.ok (), e') := by
      simp only [Call.run, hw]
      rfl
    refine ⟨n, _, Prod.ext (show ((StoreM.write key data).run.run s.session.engine).1 = _ by
      rw [hw]) rfl, ?_⟩
    show (s.session.step (.write key data)).expected = _
    rw [Session.step_ok hcall]
    simp only [Call.update, if_neg (Nat.pos_iff_ne_zero.1 hsize)]

/-- The new store on the blank part of the examples (`Session.samplePart`), mounted. -/
def blank : Mounted Session.sampleConfig :=
  ⟨Session.start Session.sampleConfig .silent "default" Session.samplePart,
    (Session.Reachable.start .silent "default" Session.placed_samplePart
      Session.hosts_samplePart).faithful rfl (.inr rfl)⟩

/-- On the new store, the key `k` takes an 8-bit setting and reads it back. -/
theorem settings_blank :
    (Entry.padKey? ⟨#[107]⟩).isSome ∧ ∃ s₁,
      ((backend (c := Session.sampleConfig) rfl (.inr rfl)).set ⟨#[107]⟩ (.u8 7)).run.run blank =
        (.ok (), s₁) ∧
      ∃ s₂, ((backend (c := Session.sampleConfig) rfl (.inr rfl)).read .u8 ⟨#[107]⟩).run.run s₁ =
        (.ok (.u8 7), s₂) := by
  have hkey : (Entry.padKey? ⟨#[107]⟩).isSome := by decide +kernel
  have hroom : Session.sampleConfig.Roomy (fun _ => none) (Settings.Value.u8 7).encode := by
    intro L _ hL
    -- the new store holds nothing, so no value is counted
    obtain rfl : L = [] := List.eq_nil_iff_forall_not_mem.2 fun b hb => by simpa using hL b hb
    decide +kernel
  exact ⟨hkey, ((keyValue rfl (.inr rfl)).settings_laws hkey blank).1 (.u8 7) (by decide)
    (fun _ h => Settings.Value.noConfusion h) hroom⟩

end Mounted

end NorStore
