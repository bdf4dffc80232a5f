import NorStore.Proofs.Termination

/-!
# The versions of a key

`readVersion key size n` reads version `n` of a key, counting back from the newest and counting
deletions as versions. This module says which versions a store keeps: always the newest ones its
client wrote since the region was last emptied.

*The versions a ring keeps.* `Ring.versions R k` lists the values of the records of key `k`,
newest first, an empty value for a deletion. A walk from the entry cursor meets the records of
`k` in that order (`Ring.nthEntry_trail`), so reading version `n` answers the `n`-th of them
(`StoreM.run_readVersion_versions`): its length and as much of it as fits, or `notFound` for a
deletion or for a version past the last.

*Rotations forget the oldest versions.* A collection copies a record only when it is the newest
of its key and holds a value, and the collected sector is the oldest of the ring; so the versions
after a rotation are a prefix of the versions before (`Ring.versions_rotate`), and a write puts
its version in front of them.

*Histories.* Beside what its client expects, a session can keep the versions the client wrote of
each key since the region was last emptied (`Call.chronicle`): a write or a deletion that succeeds
adds one when it changes what the key holds, clearing and formatting forget them all, and other
calls change none. `Session.Chronicle` is a session a client reaches together with its history,
and every reachable session has one (`Session.Reachable.chronicle`). In each, the store keeps a
prefix of the history of every usable key, and the client expects each key to hold what the
newest version of its history leaves (`Session.Chronicled`).

*Main statement* (`Session.Chronicle.versions_prefix`): reading version `n` of a usable key answers
version `n` of the first `m` versions of its history, where `m` counts the newest version whenever
that holds a value; a negative version is refused, and every version of a key that is not usable.
Counting versions across a clearing instead fails (`Session.clear_forgets_versions`).
-/

namespace NorStore

/-- What the newest of some versions leaves its key holding: its value, or nothing when there is
no version or the newest is a deletion. -/
def latest : List ByteArray → Option ByteArray
  | [] => none
  | v :: _ => if v.size = 0 then none else some v

theorem latest_cons (v : ByteArray) (vs : List ByteArray) : latest (v :: vs) = latest [v] := rfl

/-! ## The versions a ring keeps -/

namespace Ring

variable {c : Config} {R : Ring}

/-- The versions the ring keeps of key `k`, newest first: the values of its records, an empty one
for a deletion. -/
def versions (R : Ring) (k : Vector UInt8 24) : List ByteArray :=
  (R.records.filter (·.key = k)).map (·.value)

/-- What the ring holds for a key is what its newest version leaves. -/
theorem view_eq_latest (R : Ring) (k : Vector UInt8 24) : R.view k = latest (R.versions k) := by
  rw [view_eq, versions, ← List.head?_filter]
  cases R.records.filter (·.key = k) with
  | nil => rfl
  | cons r rs => rfl

theorem versions_push_self (R : Ring) (k : Vector UInt8 24) (v : ByteArray) :
    (R.push ⟨k, v⟩).versions k = v :: R.versions k := by
  simp [versions, push, records]

theorem versions_push_of_ne (R : Ring) {k k' : Vector UInt8 24} (v : ByteArray) (h : k' ≠ k) :
    (R.push ⟨k, v⟩).versions k' = R.versions k' := by
  simp [versions, push, records, Ne.symm h]

/-- Among records of distinct keys, the records of one key are its first one, if any. -/
theorem filter_key_of_pairwise {rs : List Record} (h : rs.Pairwise (fun x y => x.key ≠ y.key))
    (k : Vector UInt8 24) : rs.filter (·.key = k) = (rs.find? (·.key = k)).toList := by
  induction rs with
  | nil => rfl
  | cons r rs ih =>
    rw [List.pairwise_cons] at h
    by_cases hr : r.key = k
    · -- no later record shares the key of `r`
      have hnone : rs.filter (·.key = k) = [] := by
        rw [List.filter_eq_nil_iff]
        intro x hx heq
        exact h.1 x hx (hr.trans (of_decide_eq_true heq).symm)
      simp [hr, hnone]
    · simp [hr, ih h.2]

/-- What a collection keeps of a key not seen newer is its newest record, if that holds a value. -/
theorem filter_keep {seen : List (Vector UInt8 24)} {k : Vector UInt8 24} (hk : k ∉ seen)
    (G : List Record) :
    (keep seen G).filter (·.key = k) = ((G.find? (·.key = k)).filter (·.value.size ≠ 0)).toList := by
  rw [filter_key_of_pairwise (keep_pairwise seen G), find?_keep hk]

/-- A rotation forgets only the oldest versions of a key. -/
theorem versions_rotate (R : Ring) (k : Vector UInt8 24) : (R.rotate c).versions k <+: R.versions k := by
  unfold rotate
  split
  · -- the oldest sector was collected: its survivors now come before the newer sectors
    unfold versions
    rw [records_split R]
    simp only [records, List.filter_append, List.map_append]
    by_cases hk : k ∈ R.newerKeys
    · -- a newer record of the key decides, and no record of it is copied
      have hnone : (keep R.newerKeys R.oldest).reverse.filter (·.key = k) = [] := by
        rw [List.filter_reverse, filter_key_of_pairwise (keep_pairwise _ _), find?_keep_of_mem hk]
        rfl
      rw [hnone, List.map_nil, List.nil_append]
      exact List.prefix_append _ _
    · -- every version lies in the oldest sector, and only the newest may be copied
      have hnone : R.newer.flatten.filter (·.key = k) = [] := by
        rw [List.filter_eq_nil_iff]
        intro r hr heq
        exact hk (List.mem_map.2 ⟨r, hr, of_decide_eq_true heq⟩)
      rw [hnone, List.map_nil, List.append_nil, List.nil_append, List.filter_reverse,
        filter_keep hk, ← List.head?_filter]
      cases R.oldest.filter (·.key = k) with
      | nil => exact List.nil_prefix
      | cons g gs =>
        -- the newest record of the key is copied when it holds a value
        rw [List.head?_cons, Option.filter_some]
        split
        · exact List.cons_prefix_cons.2 ⟨rfl, List.nil_prefix⟩
        · exact List.nil_prefix
  · simp only [versions, records_close]
    exact List.prefix_refl _

/-- Rotations forget only the oldest versions of a key. -/
theorem versions_rotate_iterate (R : Ring) (n : Nat) (k : Vector UInt8 24) :
    ((rotate c)^[n] R).versions k <+: R.versions k := by
  induction n with
  | zero => exact List.prefix_refl _
  | succ n ih =>
    rw [Function.iterate_succ_apply']
    exact (versions_rotate _ k).trans ih

/-! ## Reading a version -/

/-- The `n`-th entry of a key down the visits of some sites is the entry of its `n`-th site. -/
theorem nthEntry_visits (k : Vector UInt8 24) : ∀ (l : List Site) (n : Nat),
    nthEntry k n (l.map (Site.visit c)) =
      ((l.filter (·.record.key = k))[n]?).map fun s => (s.entry, s.addr c)
  | [], n => by cases n <;> rfl
  | s :: l, n => by
    have hkey : s.entry.key = s.record.key := rfl
    by_cases hk : s.record.key = k
    · cases n with
      | zero => simp [Site.visit, nthEntry_valid_zero (hkey.trans hk), hk]
      | succ n =>
        simp [Site.visit, nthEntry_valid_succ (hkey.trans hk), hk, nthEntry_visits k l n]
    · simp [Site.visit, nthEntry_valid_of_ne (hkey.trans_ne hk), hk, nthEntry_visits k l n]

/-- The `n`-th entry of a key down the trail is the entry of the `n`-th site of that key. -/
theorem nthEntry_trail (k : Vector UInt8 24) (n : Nat) :
    nthEntry k n (R.trail c) =
      (((R.sites c).filter (·.record.key = k))[n]?).map fun s => (s.entry, s.addr c) := by
  rw [trail, nthEntry_erased, nthEntry_visits]

/-- The versions of a key are the values of its sites, newest first. -/
theorem versions_eq_sites (k : Vector UInt8 24) :
    R.versions k = ((R.sites c).filter (·.record.key = k)).map (·.record.value) := by
  rw [versions, ← map_record_ringSites (c := c), List.filter_map, List.map_map]
  rfl

end Ring

namespace StoreM

variable {c : Config} {R : Ring} {e : Engine}

/-- What reading a version into a buffer of `size` bytes answers: the version's length and as
much of it as fits, or `notFound` for a deletion or a version that is not there. -/
def versionAnswer (key : ByteArray) (size : Nat) : Option ByteArray → Except Fault (Nat × ByteArray)
  | some v =>
    if v.size = 0 then .error (.store "read" key none "" (some (.kind .notFound)))
    else .ok (v.size, v.extract 0 (min size v.size))
  | none => .error (.store "read" key none "" (some (.kind .notFound)))

/-- Reading version `n` of a usable key answers the `n`-th version the ring keeps of it, and only
reads. -/
theorem run_readVersion_versions (hc : c.Usable) (hpol : Flash.Polar c.eraseValue)
    (hst : R.Stored c e) (hm : e.store.mounted = true) {key : ByteArray} {k : Vector UInt8 24}
    (hk : Entry.padKey? key = some k) (size n : Nat) :
    ∃ e', (readVersion key size n).run.run e = (versionAnswer key size (R.versions k)[n]?, e') ∧
      e.Reads e' := by
  obtain ⟨e1, hfv, hr1⟩ := run_findVersion hc hpol hst k n
  rw [Ring.nthEntry_trail] at hfv
  rw [Ring.versions_eq_sites (c := c), List.getElem?_map]
  -- past the key, index and mount checks, the lookup runs inside the fault wrapper
  unfold readVersion
  apply run_observed_reads
  simp only [keyField, hk, run_bind, run_pure, run_store, hm, Bool.not_true, Bool.false_eq_true,
    if_false, Int.toNat_natCast, show ¬ ((n : Int) < 0) from Int.not_lt.2 (Int.natCast_nonneg n)]
  cases hs : ((R.sites c).filter (·.record.key = k))[n]? with
  | none =>
    -- past the last version of the key the walk finds nothing
    rw [hs, Option.map_none] at hfv
    exact ⟨e1, run_wrapFault_error (run_bind_error hfv), hr1⟩
  | some s =>
    rw [hs, Option.map_some] at hfv
    have hmem : s ∈ R.sites c := List.mem_of_mem_filter (List.mem_of_getElem? hs)
    have hlen := Ring.entry_length hc hst.toFit hmem
    by_cases h0 : s.record.value.size = 0
    · -- a deletion is a version that reads as nothing
      have hl : s.entry.length = 0 := UInt16.toNat_inj.1 (by rw [hlen, h0]; rfl)
      simp only [versionOf, hl, if_true, run_throw] at hfv
      refine ⟨e1, ?_, hr1⟩
      rw [run_wrapFault_error (run_bind_error hfv)]
      simp [versionAnswer, h0]
    · -- a value is read as far as the buffer goes
      have hl : s.entry.length ≠ 0 := fun h => h0 (by rw [← hlen, h]; rfl)
      simp only [versionOf, hl, if_false, run_pure] at hfv
      simp only [Option.map_some, versionAnswer, h0, if_false]
      by_cases hz : min size s.entry.length.toNat > 0
      · obtain ⟨e2, hread, hr2⟩ := run_read_site hc (hst.reads hr1) hmem
          (n := min size s.entry.length.toNat) (by omega)
        rw [hlen] at hz hread
        refine ⟨e2, ?_, hr1.trans hr2⟩
        rw [run_wrapFault_ok]
        simp only [run_bind_ok hfv, hz, if_true, run_bind_ok hread, run_pure, hlen]
      · refine ⟨e1, ?_, hr1⟩
        rw [run_wrapFault_ok]
        have hz' : min size s.record.value.size = 0 := by omega
        simp only [run_bind_ok hfv, hlen, hz', gt_iff_lt, Nat.lt_irrefl, if_false,
          run_bind, run_pure, ByteArray.extract_zero_zero]

/-- Reading any version of a key that no store can hold fails as an invalid key, and only
reads. -/
theorem run_readVersion_badKey {key : ByteArray} (hk : Entry.padKey? key = none) (size : Nat)
    (n : Int) (e : Engine) :
    ∃ e', (readVersion key size n).run.run e =
      (.error (.store "read" key none "" (some (.kind .invalidKey))), e') ∧ e.Reads e' := by
  unfold readVersion
  apply run_observed_reads
  exact ⟨e, run_bind_error (run_keyField_none "read" hk e), Engine.Reads.refl e⟩

/-- Reading a negative version of a usable key is refused, and only reads. -/
theorem run_readVersion_negative {key : ByteArray} {k : Vector UInt8 24}
    (hk : Entry.padKey? key = some k) (size : Nat) {n : Int} (hn : n < 0) (e : Engine) :
    ∃ e', (readVersion key size n).run.run e = (.error (.store "read" key none
      "negative history index" (some (.kind .invalidArgument))), e') ∧ e.Reads e' := by
  unfold readVersion
  apply run_observed_reads
  refine ⟨e, ?_, Engine.Reads.refl e⟩
  simp only [run_bind, run_keyField_some _ hk, if_pos hn, run_throw]

end StoreM

/-! ## Histories of a session -/

namespace Call

/-- The versions of each key after the call succeeded, newest first: a write or a deletion adds
one to its key when it changes what the key holds, clearing and formatting forget them all, and a
new store over the region changes none. -/
def chronicle : Call → (ByteArray → List ByteArray) → ByteArray → List ByteArray
  | write key data, h =>
    if latest (h key) = latest [data] then h else Function.update h key (data :: h key)
  | delete key, h =>
    if latest (h key) = none then h else Function.update h key (ByteArray.empty :: h key)
  | clear, _ | format, _ => fun _ => []
  | remount .., h => h

/-- A deletion adds what the write of an empty value adds. -/
theorem chronicle_delete (key : ByteArray) (h : ByteArray → List ByteArray) :
    (delete key).chronicle h = (write key ByteArray.empty).chronicle h := rfl

end Call

namespace Session

variable {c : Config} {s : Session} {h : ByteArray → List ByteArray} {R : Ring}

/-- The history after a call on the session: as the call says when it succeeds, unchanged when it
fails. -/
def chronicle (s : Session) (call : Call) (h : ByteArray → List ByteArray) :
    ByteArray → List ByteArray :=
  match (call.run s.engine).1 with
  | .ok () => call.chronicle h
  | .error _ => h

theorem chronicle_ok {call : Call} {e : Engine} (hrun : call.run s.engine = (.ok (), e)) :
    s.chronicle call h = call.chronicle h := by
  rw [chronicle, hrun]

theorem chronicle_error {call : Call} {f : Fault} {e : Engine}
    (hrun : call.run s.engine = (.error f, e)) : s.chronicle call h = h := by
  rw [chronicle, hrun]

theorem chronicle_delete (key : ByteArray) :
    s.chronicle (.delete key) h = s.chronicle (.write key ByteArray.empty) h := by
  simp only [chronicle, Call.run_delete, Call.chronicle_delete]

/-- The sessions a client reaches, each with the versions the client wrote of every key since the
region was last emptied, newest first. -/
inductive Chronicle (c : Config) : Session → (ByteArray → List ByteArray) → Prop
  | start (log : Log.Logger) (partition : String) {rig : Rig} (hpl : c.Placed rig.chip)
      (herased : c.Hosts rig.chip fun _ _ => c.eraseValue) :
      Chronicle c (Session.start c log partition rig) fun _ => []
  | step {s : Session} {h : ByteArray → List ByteArray} (call : Call) :
      Chronicle c s h → Chronicle c (s.step call) (s.chronicle call h)

/-- Every session a client reaches has a history. -/
theorem Reachable.chronicle (hs : s.Reachable c) : ∃ h, s.Chronicle c h := by
  induction hs with
  | start log partition hpl herased => exact ⟨_, .start log partition hpl herased⟩
  | step call _ ih =>
    obtain ⟨h, hch⟩ := ih
    exact ⟨_, .step call hch⟩

/-- A faithful session on ring `R` whose client expects each key to hold what the newest version
of its history leaves, and whose ring keeps the newest versions of the history of every usable
key. -/
structure Chronicled (c : Config) (s : Session) (h : ByteArray → List ByteArray) (R : Ring) :
    Prop where
  faithful : s.Faithful c R
  expected : ∀ key, s.expected key = latest (h key)
  kept : ∀ key k, Entry.padKey? key = some k → R.versions k <+: h key

namespace Chronicled

/-- After some rotations, and nothing else, the history stays and the ring forgets only old
versions. -/
theorem rotated (hch : s.Chronicled c h R) {e : Engine} (n : Nat)
    (hst : ((Ring.rotate c)^[n] R).Stored c e) (hrest : ((Ring.rotate c)^[n] R).AtRest c)
    (hm : e.store.mounted = true) : Chronicled c ⟨e, s.expected⟩ h ((Ring.rotate c)^[n] R) where
  faithful := hch.faithful.keep hst hrest hm (Ring.view_rotate_iterate R n)
  expected := hch.expected
  kept key k hk := (Ring.versions_rotate_iterate R n k).trans (hch.kept key k hk)

/-- A record pushed after some rotations adds its value to the history of its key. -/
theorem pushed (hch : s.Chronicled c h R) {e : Engine} (n : Nat) {key data : ByteArray}
    {k : Vector UInt8 24} (hk : Entry.padKey? key = some k)
    (hst : (((Ring.rotate c)^[n] R).push ⟨k, data⟩).Stored c e)
    (hrest : (((Ring.rotate c)^[n] R).push ⟨k, data⟩).AtRest c) (hm : e.store.mounted = true) :
    Chronicled c ⟨e, Function.update s.expected key (latest [data])⟩
      (Function.update h key (data :: h key)) (((Ring.rotate c)^[n] R).push ⟨k, data⟩) where
  faithful := hch.faithful.update hst hrest hm hk _ (by
    rw [Ring.view_push, Ring.view_rotate_iterate]
    rfl)
  expected key' := by
    show Function.update s.expected key _ key' = latest (Function.update h key _ key')
    by_cases hkey : key' = key
    · subst hkey
      rw [Function.update_self, Function.update_self]
      exact (latest_cons data _).symm
    · rw [Function.update_of_ne hkey, Function.update_of_ne hkey]
      exact hch.expected key'
  kept key' k' hk' := by
    show _ <+: Function.update h key _ key'
    have hold := (Ring.versions_rotate_iterate (c := c) R n k').trans (hch.kept key' k' hk')
    by_cases hkey : key' = key
    · subst hkey
      obtain rfl : k' = k := Option.some.inj (hk'.symm.trans hk)
      rw [Function.update_self, Ring.versions_push_self]
      exact List.cons_prefix_cons.2 ⟨rfl, hold⟩
    · -- another key has another field, and its versions are left alone
      have hne : k' ≠ k := fun hkk => hkey (Entry.padKey?_inj hk' (hkk ▸ hk))
      rw [Function.update_of_ne hkey, Ring.versions_push_of_ne _ _ hne]
      exact hold

/-! ### One lemma per kind of call -/

variable (hc : c.Usable) (hpol : Flash.Polar c.eraseValue)
include hc hpol

theorem write (hch : s.Chronicled c h R) (key data : ByteArray) :
    ∃ R', (s.step (.write key data)).Chronicled c (s.chronicle (.write key data) h) R' := by
  obtain ⟨res, e', hrun, R', hst', hrest', hm', hend, -⟩ := StoreM.run_write_ends hc hpol
    hch.faithful.stored hch.faithful.atRest hch.faithful.mounted key data
  have hcall : (Call.write key data).run s.engine = (res.map fun _ => (), e') := by
    simp only [Call.run, hrun]
  -- what the ring holds under the key is what the newest version of its history leaves
  have hheld : ∀ k, Entry.padKey? key = some k → R.view k = latest (h key) := fun k hk =>
    (hch.faithful.agrees key k hk).trans (hch.expected key)
  cases hend with
  | badKey _ _ =>
    rw [step_error hcall, chronicle_error hcall]
    exact ⟨R, hch.rotated 0 hst' hrest' hm'⟩
  | tooLarge _ _ _ =>
    rw [step_error hcall, chronicle_error hcall]
    exact ⟨R, hch.rotated 0 hst' hrest' hm'⟩
  | unchanged hk _ hv _ =>
    -- the write leaves the key as it was, so neither the map nor the history moves
    have hsame : latest (h key) = latest [data] := (hheld _ hk).symm.trans hv
    have hmap : Call.update (.write key data) s.expected = s.expected := by
      rw [Call.update, show (if data.size = 0 then none else some data) = s.expected key from
        (hsame.symm.trans (hch.expected key).symm)]
      exact Function.update_eq_self key s.expected
    rw [step_ok hcall, chronicle_ok hcall, hmap, Call.chronicle, if_pos hsame]
    exact ⟨R, hch.rotated 0 hst' hrest' hm'⟩
  | appended n hk _ hv _ _ =>
    have hchanged : latest (h key) ≠ latest [data] := fun heq => hv ((hheld _ hk).trans heq)
    rw [step_ok hcall, chronicle_ok hcall, Call.chronicle, if_neg hchanged]
    exact ⟨_, hch.pushed n hk hst' hrest' hm'⟩
  | full n _ _ _ _ =>
    rw [step_error hcall, chronicle_error hcall]
    exact ⟨_, hch.rotated n hst' hrest' hm'⟩

theorem clear (hch : s.Chronicled c h R) :
    (s.step .clear).Chronicled c (s.chronicle .clear h) Ring.empty := by
  obtain ⟨e', hrun, hst', hs', -⟩ := StoreM.run_clear hc hpol hch.faithful.stored.config
    hch.faithful.stored.placed hch.faithful.mounted
  have hcall : Call.clear.run s.engine = (.ok (), e') := hrun
  rw [step_ok hcall, chronicle_ok hcall]
  exact ⟨Faithful.empty hst' (Ring.atRest_empty hc) (by rw [hs']), fun _ => rfl,
    fun _ _ _ => List.nil_prefix⟩

theorem format (hv : c.validate = .ok ()) (hch : s.Chronicled c h R) :
    (s.step .format).Chronicled c (s.chronicle .format h) Ring.empty := by
  obtain ⟨e', hrun, hst', hs', -⟩ := StoreM.run_format hv hpol hch.faithful.stored.config
    hch.faithful.stored.placed
  have hcall : Call.format.run s.engine = (.ok (), e') := hrun
  rw [step_ok hcall, chronicle_ok hcall]
  exact ⟨Faithful.empty hst' (Ring.atRest_empty hc) (by rw [hs']), fun _ => rfl,
    fun _ _ _ => List.nil_prefix⟩

omit hc in
theorem remount (hv : c.validate = .ok ()) (hch : s.Chronicled c h R) (log : Log.Logger)
    (partition : String) :
    (s.step (.remount log partition)).Chronicled c (s.chronicle (.remount log partition) h) R := by
  obtain ⟨e', hrun, hst', hs', -⟩ := StoreM.run_mount hv hpol
    (hch.faithful.stored.toHosted.withStore (s := Store.create s.engine.store.config log partition)
      hch.faithful.stored.config) hch.faithful.atRest
  have hcall : (Call.remount log partition).run s.engine = (.ok (), e') := hrun
  rw [step_ok hcall, chronicle_ok hcall]
  exact ⟨hch.faithful.keep hst' hch.faithful.atRest (by rw [hs']) rfl, hch.expected, hch.kept⟩

omit hc in
/-- Every call keeps a session chronicled. -/
theorem call (hv : c.validate = .ok ()) (hch : s.Chronicled c h R) (call : Call) :
    ∃ R', (s.step call).Chronicled c (s.chronicle call h) R' := by
  have hc := Config.usable_of_validate hv
  cases call with
  | write key data => exact hch.write hc hpol key data
  | delete key =>
    rw [step_delete, chronicle_delete]
    exact hch.write hc hpol key ByteArray.empty
  | clear => exact ⟨_, hch.clear hc hpol⟩
  | format => exact ⟨_, hch.format hc hpol hv⟩
  | remount log partition => exact ⟨_, hch.remount hpol hv log partition⟩

end Chronicled

/-- Every session a client reaches, with its history, is chronicled. -/
theorem Chronicle.chronicled (hv : c.validate = .ok ()) (hpol : Flash.Polar c.eraseValue)
    (hs : s.Chronicle c h) : ∃ R, s.Chronicled c h R := by
  induction hs with
  | start log partition hpl herased =>
    obtain ⟨e', hrun, hf, -⟩ := run_start hv hpol log partition hpl herased
    refine ⟨Ring.empty, ?_⟩
    rw [Session.start, hrun]
    exact ⟨hf, fun _ => rfl, fun _ _ _ => List.nil_prefix⟩
  | step call _ ih =>
    obtain ⟨R, hch⟩ := ih
    exact hch.call hpol hv call

/-- The store keeps the newest versions of every key. In every session a client reaches, with the
versions `h key` it wrote of each key since the region was last emptied, newest first: reading
version `n` of a usable key answers version `n` of the newest `m` versions of its history (its
length and as much of it as the buffer takes, or `notFound` for a deletion and for every `n` from
`m` on), where `m` counts the newest version whenever that holds a value; a negative version is
refused; and every version of a key that is not usable is refused as an invalid key. -/
theorem Chronicle.versions_prefix (hv : c.validate = .ok ()) (hpol : Flash.Polar c.eraseValue)
    (hs : s.Chronicle c h) (key : ByteArray) :
    (Entry.padKey? key = none → ∀ (size : Nat) (n : Int), ∃ e',
      (StoreM.readVersion key size n).run.run s.engine =
        (.error (.store "read" key none "" (some (.kind .invalidKey))), e')) ∧
    ((Entry.padKey? key).isSome →
      (∀ (size : Nat) (n : Int), n < 0 → ∃ e',
        (StoreM.readVersion key size n).run.run s.engine = (.error (.store "read" key none
          "negative history index" (some (.kind .invalidArgument))), e')) ∧
      ∃ m ≤ (h key).length, (∀ v, (h key).head? = some v → v.size ≠ 0 → 1 ≤ m) ∧
        ∀ (size n : Nat), ∃ e', (StoreM.readVersion key size n).run.run s.engine =
          (StoreM.versionAnswer key size ((h key).take m)[n]?, e')) := by
  have hc := Config.usable_of_validate hv
  obtain ⟨R, hch⟩ := hs.chronicled hv hpol
  refine ⟨fun hk size n => ?_, fun hkey => ?_⟩
  · obtain ⟨e', hrun, -⟩ := StoreM.run_readVersion_badKey hk size n s.engine
    exact ⟨e', hrun⟩
  obtain ⟨k, hk⟩ := Option.isSome_iff_exists.1 hkey
  -- the ring keeps the newest versions of the history: they are the `m` of the statement
  have hpre := hch.kept key k hk
  refine ⟨fun size n hn => ?_, (R.versions k).length, hpre.length_le, fun v hv0 hsize => ?_,
    fun size n => ?_⟩
  · obtain ⟨e', hrun, -⟩ := StoreM.run_readVersion_negative hk size hn s.engine
    exact ⟨e', hrun⟩
  · -- a newest version holding a value is what the key holds, so the ring has a version of it
    have hlatest : latest (h key) = some v := by
      obtain ⟨vs, hvs⟩ := List.head?_eq_some_iff.1 hv0
      rw [hvs, latest, if_neg hsize]
    have hview : latest (R.versions k) = some v := by
      rw [← Ring.view_eq_latest, hch.faithful.agrees key k hk, hch.expected key, hlatest]
    cases hvs : R.versions k with
    | nil =>
      rw [hvs] at hview
      exact absurd hview (Option.some_ne_none v).symm
    | cons w ws => exact Nat.succ_le_succ (Nat.zero_le _)
  · obtain ⟨e', hrun, -⟩ := StoreM.run_readVersion_versions hc hpol hch.faithful.stored
      hch.faithful.mounted hk size n
    refine ⟨e', ?_⟩
    rw [hrun, ← List.prefix_iff_eq_take.1 hpre]

/-- After the calls the store reads back, of the key `k`, a prefix of the versions written under it,
newest first, with the newest among them whenever the newest holds a value. -/
theorem versions_prefix_rotated :
    sampleConfig.validate = .ok () ∧ Flash.Polar sampleConfig.eraseValue ∧
      ∃ h, rotated.Chronicle sampleConfig h ∧ (Entry.padKey? ⟨#[107]⟩).isSome ∧
        ∃ m ≤ (h ⟨#[107]⟩).length, (∀ v, (h ⟨#[107]⟩).head? = some v → v.size ≠ 0 → 1 ≤ m) ∧
          ∀ (size n : Nat), ∃ e', (StoreM.readVersion ⟨#[107]⟩ size n).run.run rotated.engine =
            (StoreM.versionAnswer ⟨#[107]⟩ size ((h ⟨#[107]⟩).take m)[n]?, e') := by
  obtain ⟨h, hch⟩ := reachable_rotated.chronicle
  exact ⟨rfl, .inr rfl, h, hch, sampleKeys_usable.1,
    ((Chronicle.versions_prefix rfl (.inr rfl) hch ⟨#[107]⟩).2 sampleKeys_usable.1).2⟩

/-- Clearing forgets every version. On a blank part, writing `a` under key `k` appends it and
answers one byte written, clearing then succeeds, and version 0 of `k` is not found. -/
theorem clear_forgets_versions :
    ∃ e1 e2 e3, (StoreM.write ⟨#[107]⟩ ⟨#[97]⟩).run.run
        (start ⟨0, 120, 2, 1, 0xFF⟩ .silent "default"
          { chip := { geometry := ⟨240, 120, 1, 0xFF⟩, cells := ⟨Array.replicate 240 0xFF⟩,
                      wear := #[0, 0] } }).engine = (.ok 1, e1) ∧
      StoreM.clear.run.run e1 = (.ok (), e2) ∧
      (StoreM.readVersion ⟨#[107]⟩ 8 0).run.run e2 =
        (.error (.store "read" ⟨#[107]⟩ none "" (some (.kind .notFound))), e3) := by
  have hc : Config.Usable ⟨0, 120, 2, 1, 0xFF⟩ := Config.usable_of_validate rfl
  have hf0 := faithful_blank_part
  obtain ⟨k, hk⟩ := Option.isSome_iff_exists.1 (by decide +kernel : (Entry.padKey? ⟨#[107]⟩).isSome)
  obtain ⟨res, e1, hw, R1, hst1, -, hm1, hend, -⟩ := StoreM.run_write_ends hc (.inr rfl) hf0.stored
    hf0.atRest hf0.mounted ⟨#[107]⟩ ⟨#[97]⟩
  -- the key is usable and the value one byte, new to the empty ring, which takes it at once
  have hsize : ((ByteArray.size ⟨#[97]⟩ : Nat) : Int) ≤ Config.maxValueSize ⟨0, 120, 2, 1, 0xFF⟩ := by
    decide
  cases hend with
  | badKey hbad _ => exact absurd hbad (by decide +kernel)
  | tooLarge _ hbig _ => exact absurd hsize (Int.not_le.2 hbig)
  | unchanged _ _ hsame _ => cases hsame
  | full _ _ _ _ hnofit => exact absurd (Config.fits_single hc hsize) hnofit
  | appended n _ _ _ _ _ =>
    obtain ⟨e2, hclear, hst2, hs2, -⟩ := StoreM.run_clear hc (.inr rfl) hst1.config hst1.placed hm1
    obtain ⟨e3, hread, -⟩ := StoreM.run_readVersion_versions hc (.inr rfl) hst2
      (by rw [hs2]) hk 8 0
    exact ⟨e1, e2, e3, hw, hclear, hread⟩

end Session

end NorStore
