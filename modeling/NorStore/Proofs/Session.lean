import NorStore.Proofs.Mount

/-!
# Sessions on a store

A client mounts a store on an erased region, then writes, deletes, clears and formats it and
mounts new stores over the same region, any number of times and in any order. Beside the engine
a session keeps the map the client expects the store to hold: a call that succeeds changes it as
the call says (`Call.update`), and one that fails leaves it as it was.

*The invariant.* In every session a client can reach (`Session.Reachable`) the store is mounted
on a ring at rest that answers every usable key as the expected map does (`Session.Faithful`).
Each kind of call keeps it, through the spec of the store operation it runs: `run_write` for
writes and deletions, `run_clear` and `run_format`, and `run_mount` for a new store, which finds
the ring the old one left.

*Main statement.* In every reachable session, reading a usable key answers the value the client
expects, or `notFound`; a buffered read answers its length and as much of it as fits; and a call
fails only by refusing its arguments or for lack of space (`Session.Reachable.refines`).
-/

namespace NorStore

/-- A call that can change what a store holds. -/
inductive Call where
  | write (key data : ByteArray)
  | delete (key : ByteArray)
  | clear
  | format
  /-- A new store over the same region, mounted, logging to `log` under `partition`. -/
  | remount (log : Log.Logger) (partition : String)

namespace Call

/-- Runs a call on an engine: whether it succeeded, and the engine after it. -/
def run : Call → Engine → Except Fault Unit × Engine
  | write key data, e =>
    let (r, e') := (StoreM.write key data).run.run e
    (r.map fun _ => (), e')
  | delete key, e => (StoreM.delete key).run.run e
  | clear, e => StoreM.clear.run.run e
  | format, e => StoreM.format.run.run e
  | remount log partition, e =>
    StoreM.mount.run.run { e with store := Store.create e.store.config log partition }

/-- What the client expects of the store after the call succeeded. -/
def update : Call → (ByteArray → Option ByteArray) → ByteArray → Option ByteArray
  | write key data, m => Function.update m key (if data.size = 0 then none else some data)
  | delete key, m => Function.update m key none
  | clear, _ | format, _ => fun _ => none
  | remount .., m => m

/-- A deletion runs as the write of an empty value. -/
theorem run_delete (key : ByteArray) (e : Engine) :
    (delete key).run e = (write key ByteArray.empty).run e := by
  simp only [run, StoreM.run_delete]
  rcases (StoreM.write key ByteArray.empty).run.run e with ⟨r, e'⟩
  rfl

end Call

/-- A part whose every byte is `v` hosts a blank region, wherever the region lies in it. -/
theorem Config.hosts_replicate {c : Config} {chip : Flash.Chip} {n : Nat} {v : UInt8}
    (hcells : chip.cells = ⟨Array.replicate n v⟩)
    (hregion : c.offset.toNat + c.sectorSize.toNat * c.sectorCount.toNat ≤ n) :
    c.Hosts chip fun _ _ => v := by
  intro j hj o ho
  have hlt : c.offset.toNat + j * c.sectorSize.toNat + o < n := by
    have := Config.sector_end_le hj
    omega
  rw [hcells, ByteArray.get!_eq]
  simp [hlt]

/-- A store in use, with the value its client expects each key to hold. -/
structure Session where
  /-- The store and the part it runs on. -/
  engine : Engine
  /-- What the client expects each key to hold. -/
  expected : ByteArray → Option ByteArray

namespace Session

/-- The session after a call. -/
def step (s : Session) (call : Call) : Session :=
  match call.run s.engine with
  | (.ok (), e) => ⟨e, call.update s.expected⟩
  | (.error _, e) => ⟨e, s.expected⟩

/-- A new store on `rig`, mounted, expected to hold nothing. -/
def start (c : Config) (log : Log.Logger) (partition : String) (rig : Rig) : Session :=
  ⟨(StoreM.mount.run.run ⟨Store.create c log partition, rig⟩).2, fun _ => none⟩

/-- The sessions a client reaches from a new store on an erased region of a part that holds
the region. -/
inductive Reachable (c : Config) : Session → Prop
  | start (log : Log.Logger) (partition : String) {rig : Rig} (hpl : c.Placed rig.chip)
      (herased : c.Hosts rig.chip fun _ _ => c.eraseValue) :
      Reachable c (Session.start c log partition rig)
  | step {s : Session} (call : Call) : Reachable c s → Reachable c (s.step call)

/-- The store of the session is mounted on ring `R`, at rest, which answers every usable key as
the client expects; the ring's live keys and the expected map's keys are all usable. -/
structure Faithful (c : Config) (s : Session) (R : Ring) : Prop where
  stored : R.Stored c s.engine
  atRest : R.AtRest c
  mounted : s.engine.store.mounted = true
  agrees : ∀ key k, Entry.padKey? key = some k → R.view k = s.expected key
  padded : ∀ k, R.view k ≠ none → ∃ key, Entry.padKey? key = some k
  usable : ∀ key, s.expected key ≠ none → ∃ k, Entry.padKey? key = some k

theorem step_ok {s : Session} {call : Call} {e : Engine} (h : call.run s.engine = (.ok (), e)) :
    s.step call = ⟨e, call.update s.expected⟩ := by
  rw [step, h]

theorem step_error {s : Session} {call : Call} {f : Fault} {e : Engine}
    (h : call.run s.engine = (.error f, e)) : s.step call = ⟨e, s.expected⟩ := by
  rw [step, h]

/-- A deletion is expected to do what the write of an empty value does. -/
theorem step_delete (s : Session) (key : ByteArray) :
    s.step (.delete key) = s.step (.write key ByteArray.empty) := by
  simp only [step, Call.run_delete]
  rfl

/-- What a call answers in a faithful session: success, or a refusal of its arguments, or no
space for a write. -/
def Answered : Except Fault Unit → Prop
  | .ok () => True
  | .error f => f.is .invalidKey ∨ f.is .valueTooLarge ∨ f.is .noSpace

namespace Faithful

variable {c : Config} {s : Session} {R : Ring}

/-- A ring that answers every key as a faithful one does is faithful on the engine holding it. -/
theorem keep (h : s.Faithful c R) {e : Engine} {R' : Ring} (hst : R'.Stored c e)
    (hrest : R'.AtRest c) (hm : e.store.mounted = true) (hv : R'.view = R.view) :
    Session.Faithful c ⟨e, s.expected⟩ R' where
  stored := hst
  atRest := hrest
  mounted := hm
  agrees := hv ▸ h.agrees
  padded := hv ▸ h.padded
  usable := h.usable

/-- A ring that changes what one usable key holds is faithful to the map changed alike. -/
theorem update (h : s.Faithful c R) {e : Engine} {R' : Ring} (hst : R'.Stored c e)
    (hrest : R'.AtRest c) (hm : e.store.mounted = true) {key : ByteArray}
    {k : Vector UInt8 24} (hk : Entry.padKey? key = some k) (v : Option ByteArray)
    (hv : R'.view = Function.update R.view k v) :
    Session.Faithful c ⟨e, Function.update s.expected key v⟩ R' where
  stored := hst
  atRest := hrest
  mounted := hm
  agrees key' k' hk' := by
    rw [hv]
    by_cases hkey : key' = key
    · subst hkey
      obtain rfl : k' = k := Option.some.inj (hk'.symm.trans hk)
      simp only [Function.update_self]
    · -- another key has another field
      have hne : k' ≠ k := fun hkk => hkey (Entry.padKey?_inj hk' (hkk ▸ hk))
      simp only [Function.update_of_ne hne, Function.update_of_ne hkey]
      exact h.agrees key' k' hk'
  padded k' hlive := by
    rw [hv] at hlive
    by_cases hkk : k' = k
    · exact ⟨key, hkk ▸ hk⟩
    · rw [Function.update_of_ne hkk] at hlive
      exact h.padded k' hlive
  usable key' hlive := by
    by_cases hkey : key' = key
    · exact ⟨k, hkey ▸ hk⟩
    · exact h.usable key' (by simpa only [Function.update_of_ne hkey] using hlive)

/-- The empty ring is faithful to the empty map. -/
theorem empty {e : Engine} (hst : Ring.empty.Stored c e) (hrest : Ring.empty.AtRest c)
    (hm : e.store.mounted = true) : Session.Faithful c ⟨e, fun _ => none⟩ Ring.empty where
  stored := hst
  atRest := hrest
  mounted := hm
  agrees _ _ _ := rfl
  padded _ hlive := absurd rfl hlive
  usable _ hlive := absurd rfl hlive

/-! ### One lemma per kind of call -/

variable (hc : c.Usable) (hpol : Flash.Polar c.eraseValue)
include hc hpol

theorem write (h : s.Faithful c R) (key data : ByteArray) :
    Answered (Call.write key data |>.run s.engine).1 ∧
      ∃ R', (s.step (.write key data)).Faithful c R' := by
  obtain ⟨res, e', hrun, R', hst', hrest', hm', hw⟩ :=
    StoreM.run_write hc hpol h.stored h.atRest h.mounted key data
  have hcall : (Call.write key data).run s.engine = (res.map fun _ => (), e') := by
    simp only [Call.run, hrun]
  rw [hcall]
  cases res with
  | ok n =>
    obtain ⟨k, hk, hv⟩ := hw
    rw [step_ok hcall]
    exact ⟨trivial, R', h.update hst' hrest' hm' hk _ hv⟩
  | error f =>
    rw [step_error hcall]
    exact ⟨hw.1.is, R', h.keep hst' hrest' hm' hw.2⟩

theorem delete (h : s.Faithful c R) (key : ByteArray) :
    Answered (Call.delete key |>.run s.engine).1 ∧ ∃ R', (s.step (.delete key)).Faithful c R' := by
  rw [Call.run_delete, step_delete]
  exact h.write hc hpol key ByteArray.empty

theorem clear (h : s.Faithful c R) :
    Answered (Call.clear.run s.engine).1 ∧ ∃ R', (s.step .clear).Faithful c R' := by
  obtain ⟨e', hrun, hst', hs', -⟩ :=
    StoreM.run_clear hc hpol h.stored.config h.stored.placed h.mounted
  have hcall : Call.clear.run s.engine = (.ok (), e') := hrun
  rw [hcall, step_ok hcall]
  exact ⟨trivial, _, empty hst' (Ring.atRest_empty hc) (by rw [hs'])⟩

omit hc in
theorem format (hv : c.validate = .ok ()) (h : s.Faithful c R) :
    Answered (Call.format.run s.engine).1 ∧ ∃ R', (s.step .format).Faithful c R' := by
  obtain ⟨e', hrun, hst', hs', -⟩ :=
    StoreM.run_format hv hpol h.stored.config h.stored.placed
  have hcall : Call.format.run s.engine = (.ok (), e') := hrun
  rw [hcall, step_ok hcall]
  exact ⟨trivial, _, empty hst' (Ring.atRest_empty (Config.usable_of_validate hv)) (by rw [hs'])⟩

omit hc in
/-- A new store over the region finds the ring the old one left. -/
theorem remount (hv : c.validate = .ok ()) (h : s.Faithful c R) (log : Log.Logger)
    (partition : String) :
    Answered ((Call.remount log partition).run s.engine).1 ∧
      ∃ R', (s.step (.remount log partition)).Faithful c R' := by
  obtain ⟨e', hrun, hst', hs', -⟩ := StoreM.run_mount hv hpol
    (h.stored.toHosted.withStore (s := Store.create s.engine.store.config log partition)
      h.stored.config) h.atRest
  have hcall : (Call.remount log partition).run s.engine = (.ok (), e') := hrun
  rw [hcall, step_ok hcall]
  exact ⟨trivial, R, h.keep hst' h.atRest (by rw [hs']) rfl⟩

end Faithful

/-- Mounting a new store on an erased region succeeds and finds the empty ring. -/
theorem run_start {c : Config} (hv : c.validate = .ok ()) (hpol : Flash.Polar c.eraseValue)
    (log : Log.Logger) (partition : String) {rig : Rig} (hpl : c.Placed rig.chip)
    (herased : c.Hosts rig.chip fun _ _ => c.eraseValue) :
    ∃ e', StoreM.mount.run.run ⟨Store.create c log partition, rig⟩ = (.ok (), e') ∧
      Session.Faithful c ⟨e', fun _ => none⟩ Ring.empty ∧
      e'.rig.chip = { rig.chip with reads := e'.rig.chip.reads } := by
  have hc := Config.usable_of_validate hv
  have hhost : Ring.empty.Hosted c ⟨Store.create c log partition, rig⟩ :=
    { toFit := Ring.fit_empty hc
      config := rfl
      placed := hpl
      hosts := herased.congr fun j _ o _ => by rw [Ring.image_empty] }
  obtain ⟨e', hrun, hst', hs', hchip⟩ := StoreM.run_mount hv hpol hhost (Ring.atRest_empty hc)
  exact ⟨e', hrun, Faithful.empty hst' (Ring.atRest_empty hc) (by rw [hs']), hchip⟩

variable {c : Config}

/-- Every call keeps a session faithful, and is answered as `Answered` says. -/
theorem Faithful.call (hv : c.validate = .ok ()) (hpol : Flash.Polar c.eraseValue)
    {s : Session} {R : Ring} (h : s.Faithful c R) (call : Call) :
    Answered (call.run s.engine).1 ∧ ∃ R', (s.step call).Faithful c R' := by
  have hc := Config.usable_of_validate hv
  cases call with
  | write key data => exact h.write hc hpol key data
  | delete key => exact h.delete hc hpol key
  | clear => exact h.clear hc hpol
  | format => exact h.format hpol hv
  | remount log partition => exact h.remount hpol hv log partition

/-- Every session a client reaches is faithful. -/
theorem Reachable.faithful (hv : c.validate = .ok ()) (hpol : Flash.Polar c.eraseValue)
    {s : Session} (hs : s.Reachable c) : ∃ R, s.Faithful c R := by
  induction hs with
  | start log partition hpl herased =>
    obtain ⟨e', hrun, h, -⟩ := run_start hv hpol log partition hpl herased
    refine ⟨Ring.empty, ?_⟩
    rw [Session.start, hrun]
    exact h
  | step call _ ih =>
    obtain ⟨R, h⟩ := ih
    exact (h.call hv hpol call).2

/-- The store keeps the map its client expects. Mounting a new store on an erased region
succeeds; and in every session a client reaches from there, a usable key reads as the client
expects it to, whole or into a buffer of any size, and the next call either succeeds or fails
by refusing its arguments or for lack of space. -/
theorem Reachable.refines (hv : c.validate = .ok ()) (hpol : Flash.Polar c.eraseValue) :
    (∀ (log : Log.Logger) (partition : String) (rig : Rig), c.Placed rig.chip →
      c.Hosts rig.chip (fun _ _ => c.eraseValue) →
      (StoreM.mount.run.run ⟨Store.create c log partition, rig⟩).1 = .ok ()) ∧
    ∀ s : Session, s.Reachable c →
      (∀ key, (Entry.padKey? key).isSome →
        (∃ e', (StoreM.get key).run.run s.engine = (match s.expected key with
          | some v => .ok v
          | none => .error (.store "get" key none "" (some (.kind .notFound))), e')) ∧
        ∀ size, ∃ e', (StoreM.readVersion key size 0).run.run s.engine =
          (match s.expected key with
            | some v => .ok (v.size, v.extract 0 (min size v.size))
            | none => .error (.store "read" key none "" (some (.kind .notFound))), e')) ∧
      ∀ call : Call, Answered (call.run s.engine).1 := by
  have hc := Config.usable_of_validate hv
  refine ⟨fun log partition rig hpl herased => ?_, fun s hs => ?_⟩
  · obtain ⟨e', hrun, -⟩ := run_start hv hpol log partition hpl herased
    rw [hrun]
  obtain ⟨R, h⟩ := hs.faithful hv hpol
  refine ⟨fun key hkey => ?_, fun call => (h.call hv hpol call).1⟩
  obtain ⟨k, hk⟩ := Option.isSome_iff_exists.1 hkey
  obtain ⟨e1, hget, -⟩ := StoreM.run_get hc hpol h.stored h.mounted hk
  -- the answers are those of the ring, which agrees with the expected map on usable keys
  have hview := h.agrees key k hk
  refine ⟨⟨e1, ?_⟩, fun size => ?_⟩
  · rw [hget]
    cases hv : s.expected key <;> rw [hview, hv]
  obtain ⟨e2, hread, -⟩ := StoreM.run_readVersion hc hpol h.stored h.mounted hk size
  refine ⟨e2, ?_⟩
  rw [hread]
  cases hv : s.expected key <;> rw [hview, hv]

/-! ## A session after a rotation

The examples below run on three sectors of 180 bytes at the start of a blank part. A sector
takes three entries of one-byte values under its close slot, so of two keys written twice each,
the fourth write finds the first sector full, closes it and goes on in the second. -/

/-- Three sectors of 180 bytes at the start of a part, programmed a byte at a time. -/
def sampleConfig : Config := ⟨0, 180, 3, 1, 0xFF⟩

/-- A blank part of 540 bytes, erased a sector at a time. -/
def samplePart : Rig :=
  { chip := { geometry := ⟨540, 180, 1, 0xFF⟩, cells := ⟨Array.replicate 540 0xFF⟩,
              wear := #[0, 0, 0] } }

/-- A new store on the blank part after the keys `k` and `j` are written twice each with
one-byte values. -/
def rotated : Session :=
  ((((start sampleConfig .silent "default" samplePart).step (.write ⟨#[107]⟩ ⟨#[97]⟩)).step
    (.write ⟨#[106]⟩ ⟨#[98]⟩)).step (.write ⟨#[107]⟩ ⟨#[99]⟩)).step (.write ⟨#[106]⟩ ⟨#[100]⟩)

theorem placed_samplePart : sampleConfig.Placed samplePart.chip where
  erased := rfl
  size := Array.size_replicate
  region := by decide
  write_block := .inl (by decide)
  erase_block := .inr ⟨by decide, by decide⟩
  ready := ⟨rfl, by decide⟩

theorem hosts_samplePart : sampleConfig.Hosts samplePart.chip fun _ _ => sampleConfig.eraseValue :=
  Config.hosts_replicate rfl (by decide)

theorem reachable_rotated : rotated.Reachable sampleConfig :=
  .step _ (.step _ (.step _ (.step _ (.start .silent "default" placed_samplePart hosts_samplePart))))

/-- The two keys of the calls are usable. -/
theorem sampleKeys_usable : (Entry.padKey? ⟨#[107]⟩).isSome ∧ (Entry.padKey? ⟨#[106]⟩).isSome := by
  decide +kernel

/-- On the blank part a new store mounts, and after the calls the key `k` reads as the client
expects. -/
theorem refines_rotated :
    sampleConfig.validate = .ok () ∧ Flash.Polar sampleConfig.eraseValue ∧
      (StoreM.mount.run.run ⟨Store.create sampleConfig .silent "default", samplePart⟩).1 = .ok () ∧
      rotated.Reachable sampleConfig ∧
      ∃ e', (StoreM.get ⟨#[107]⟩).run.run rotated.engine = (match rotated.expected ⟨#[107]⟩ with
        | some v => .ok v
        | none => .error (.store "get" ⟨#[107]⟩ none "" (some (.kind .notFound))), e') := by
  obtain ⟨hmount, hreach⟩ := Reachable.refines (c := sampleConfig) rfl (.inr rfl)
  exact ⟨rfl, .inr rfl, hmount .silent "default" samplePart placed_samplePart hosts_samplePart,
    reachable_rotated, ((hreach rotated reachable_rotated).1 _ sampleKeys_usable.1).1⟩

/-- Two sectors of 120 bytes at the start of a blank part of 240 bytes. -/
theorem placed_blank_part :
    Config.Placed ⟨0, 120, 2, 1, 0xFF⟩
      { geometry := ⟨240, 120, 1, 0xFF⟩, cells := ⟨Array.replicate 240 0xFF⟩, wear := #[0, 0] } where
  erased := rfl
  size := Array.size_replicate
  region := by decide
  write_block := .inl (by decide)
  erase_block := .inr ⟨by decide, by decide⟩
  ready := ⟨rfl, by decide⟩

/-- The fresh store on that blank part is faithful to the empty ring. -/
theorem faithful_blank_part :
    (start ⟨0, 120, 2, 1, 0xFF⟩ .silent "default"
      { chip := { geometry := ⟨240, 120, 1, 0xFF⟩, cells := ⟨Array.replicate 240 0xFF⟩,
                  wear := #[0, 0] } }).Faithful ⟨0, 120, 2, 1, 0xFF⟩ Ring.empty := by
  obtain ⟨e', hrun, hf, -⟩ := @run_start _ rfl (.inr rfl) .silent "default"
    { chip := { geometry := ⟨240, 120, 1, 0xFF⟩, cells := ⟨Array.replicate 240 0xFF⟩,
                wear := #[0, 0] } } placed_blank_part (Config.hosts_replicate rfl (by decide))
  rw [start, hrun]
  exact hf

end Session

end NorStore
