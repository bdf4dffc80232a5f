import NorStore.Proofs.Space

/-!
# Writing over a key

Before it appends, a write asks whether the newest record of its key already leaves the key
holding what the write would: the same bytes, or nothing for an empty value. This module shows
that the answer is exact, so a write that changes nothing costs no flash and a repeated write is
free; and it says when a deletion, which writes an entry and no value, can fail.

*Only reading.* `Engine.Reads e e'` says that `e'` differs from `e` in its read count alone: the
same store with both cursors, and the same cells, wear and write count. A write that finds its
key unchanged only reads (`StoreM.WriteEnd.unchanged`).

*Appending moves the cursor.* A write that appends pushes its record after fewer rotations than
there are sectors, so the entry cursor ends in another slot: the one under it when the record
fits the active sector, a slot of another sector after rotations (`Ring.ate_push_ne`). An
appended write never only reads, not even a deletion that answers `0` like an unchanged write
(`StoreM.WriteEnd.reads_iff`).

*Free space* depends on the store and the ring alone (`StoreM.run_freeSpace_reads`), so it
reads the same across a write that only reads.

*Main statement* (`Session.Reachable.write_dedup`): in every session a client reaches, for a
usable key and a value the configuration allows, a write answers `0` having only read exactly
when the key holds that value already, or holds nothing and the value is empty; every other
write appends its record as the newest of the active sector and answers the value's length, or
finds no space; and after a write that succeeded, the same write again answers `0`, only
reads, and leaves free space as it was.

*Deletions* (`Session.Faithful.delete_room`). A deletion reserves nothing: it succeeds, or finds
no space, and the second only when the active sector has no room for one more entry. No slot is
kept back for it, so a store whose sectors its live values fill can refuse one, every rotation
refilling the new sector with the values it copies.
-/

namespace NorStore

/-- What a record leaves its key holding, said of its value. -/
theorem Record.eq_held_iff (o : Option ByteArray) (r : Record) :
    o = r.held ↔ r.value.size ≠ 0 ∧ o = some r.value ∨ r.value.size = 0 ∧ o = none := by
  unfold Record.held
  by_cases h0 : r.value.size = 0
  · simp [h0]
  · simp [h0]

/-- A deletion's empty value is one every usable configuration allows. -/
theorem Config.empty_le_maxValueSize {c : Config} (hc : c.Usable) :
    ((ByteArray.empty.size : Nat) : Int) ≤ c.maxValueSize := by
  have h4 := hc.four_entries
  change ((0 : Nat) : Int) ≤ (c.sectorSize.toNat : Int) - 3 * (c.entrySize.toNat : Int)
  omega

/-! ## Appending moves the entry cursor -/

namespace Ring

variable {c : Config} {R : Ring}

/-- A record pushed after fewer rotations than there are sectors moves the entry cursor: to the
slot under it when no rotation ran, into another sector otherwise. -/
theorem ate_push_ne (hc : c.Usable) (hfit : R.Fit c) {n : Nat} (hn : n < c.sectorCount.toNat)
    {r : Record} (hroom : n = 0 → c.Fits (r :: R.current)) :
    (((rotate c)^[n] R).push r).ate c ≠ R.ate c := by
  have hS := hc.sector_le
  have hN := hc.count_le
  have hE : 30 ≤ c.entrySize.toNat := hc.entry_ge
  have ha := hfit.active_lt
  intro heq
  cases n with
  | zero =>
    -- in the same sector, the pushed record takes the slot one entry under the cursor
    change Address.at R.active (c.slot (R.current.length + 1)) =
      Address.at R.active (c.slot R.current.length) at heq
    have hroom := hroom rfl
    unfold Config.Fits at hroom
    rw [List.length_cons] at hroom
    have hbelow := Config.slot_add_le (c := c) (Nat.lt_add_one R.current.length) (by omega)
    have hslot := ((Address.at_inj (by omega) (by unfold Config.slot; omega) (by omega)
      (by unfold Config.slot; omega)).1 heq).2
    omega
  | succ m =>
    -- the rotations moved the active sector on, by fewer steps than a round
    change Address.at ((rotate c)^[m + 1] R).active
        (c.slot (((rotate c)^[m + 1] R).current.length + 1)) =
      Address.at R.active (c.slot R.current.length) at heq
    rw [active_rotate_iterate ha] at heq
    have hlt := Nat.mod_lt (R.active + (m + 1)) (show 0 < c.sectorCount.toNat by omega)
    have hsec := ((Address.at_inj (by omega) (by unfold Config.slot; omega) (by omega)
      (by unfold Config.slot; omega)).1 heq).1
    by_cases hwrap : R.active + (m + 1) < c.sectorCount.toNat
    · rw [Nat.mod_eq_of_lt hwrap] at hsec
      omega
    · rw [Nat.mod_eq_sub_mod (by omega), Nat.mod_eq_of_lt (by omega)] at hsec
      omega

end Ring

/-! ## How a write of a usable key ends -/

namespace StoreM

variable {c : Config} {R R' : Ring} {e e' : Engine} {key data : ByteArray}
  {res : Except Fault Nat} {k : Vector UInt8 24}

/-- A write of a usable key and an allowed value answers `0` having only read exactly when the
key already holds what the write would leave it holding. -/
theorem WriteEnd.reads_iff (hc : c.Usable) (hend : WriteEnd c R key data e res e' R')
    (hst : R.Stored c e) (hst' : R'.Stored c e') (hk : Entry.padKey? key = some k)
    (hsize : (data.size : Int) ≤ c.maxValueSize) :
    (res = .ok 0 ∧ e.Reads e') ↔ R.view k = Record.held ⟨k, data⟩ := by
  cases hend with
  | badKey hbad _ => exact absurd (hk.symm.trans hbad) (Option.some_ne_none k)
  | tooLarge _ hbig _ => exact absurd hsize (Int.not_le.2 hbig)
  | unchanged hk' _ hv hr =>
    obtain rfl := Option.some.inj (hk.symm.trans hk')
    exact iff_of_true ⟨rfl, hr⟩ hv
  | appended n hk' _ hv hn hroom =>
    obtain rfl := Option.some.inj (hk.symm.trans hk')
    refine iff_of_false (fun ⟨_, hr⟩ => ?_) hv
    -- a write that only read leaves the entry cursor where it was, and a push moves it
    have hate : (((Ring.rotate c)^[n] R).push ⟨k, data⟩).ate c = R.ate c := by
      rw [← hst'.ate, ← hst.ate, hr.1]
    exact Ring.ate_push_ne hc hst.toFit hn hroom.1 hate
  | full n hk' _ hv _ =>
    obtain rfl := Option.some.inj (hk.symm.trans hk')
    exact iff_of_false (fun ⟨hres, _⟩ => by cases hres) hv

/-- A write of a usable key and an allowed value appends its record as the newest of the active
sector and answers the value's length, or answers `0` having only read, or finds no space. -/
theorem WriteEnd.answers (hend : WriteEnd c R key data e res e' R')
    (hk : Entry.padKey? key = some k) (hsize : (data.size : Int) ≤ c.maxValueSize) :
    (res = .ok data.size ∧ R'.current.head? = some ⟨k, data⟩) ∨ (res = .ok 0 ∧ e.Reads e') ∨
      res = .error (.store (if data.size = 0 then "delete" else "write") key none ""
        (some (.kind .noSpace))) := by
  cases hend with
  | badKey hbad _ => exact absurd (hk.symm.trans hbad) (Option.some_ne_none k)
  | tooLarge _ hbig _ => exact absurd hsize (Int.not_le.2 hbig)
  | unchanged _ _ _ hr => exact Or.inr (Or.inl ⟨rfl, hr⟩)
  | appended n hk' =>
    obtain rfl := Option.some.inj (hk.symm.trans hk')
    exact Or.inl ⟨rfl, rfl⟩
  | full => exact Or.inr (Or.inr rfl)

/-- Free space depends on the store and the ring alone: it reads the same on an engine that
differs only in its read count. -/
theorem run_freeSpace_reads (hc : c.Usable) (hpol : Flash.Polar c.eraseValue)
    (hst : R.Stored c e) (hm : e.store.mounted = true) (hr : e.Reads e') :
    ∃ free e1 e2, freeSpace.run.run e = (.ok free, e1) ∧ freeSpace.run.run e' = (.ok free, e2) := by
  obtain ⟨e1, hu1, hr1⟩ := run_usage hc hpol hst
  obtain ⟨e2, hu2, hr2⟩ := run_usage hc hpol (hst.reads hr)
  obtain ⟨f1, hf1, -⟩ := run_freeSpace hm hu1 hr1
  obtain ⟨f2, hf2, -⟩ := run_freeSpace (by rw [hr.1]; exact hm) hu2 hr2
  rw [hr.1] at hf2
  exact ⟨_, f1, f2, hf1, hf2⟩

end StoreM

/-! ## Main statement -/

namespace Session

variable {c : Config} {s : Session}

/-- Writing what a key already holds is exact and idempotent. In every session a client reaches,
for a usable key and a value the configuration allows: the write answers `0` having only read
(the store with both cursors, the cells, the wear and the write count all as they were) exactly
when the key holds that value already, or holds nothing and the value is empty; a write either
appends its record as the newest of the active sector and answers the value's length, or answers
`0` having only read, or finds no space; and after a write that succeeded, the same write again
answers `0`, only reads, and free space reads the same before and after it. -/
theorem Reachable.write_dedup (hv : c.validate = .ok ()) (hpol : Flash.Polar c.eraseValue)
    (hs : s.Reachable c) {key data : ByteArray} (hkey : (Entry.padKey? key).isSome)
    (hsize : (data.size : Int) ≤ c.maxValueSize) :
    ∃ res e', (StoreM.write key data).run.run s.engine = (res, e') ∧
      ((res = .ok 0 ∧ s.engine.Reads e') ↔
        data.size ≠ 0 ∧ s.expected key = some data ∨ data.size = 0 ∧ s.expected key = none) ∧
      ((res = .ok data.size ∧ ∃ (R' : Ring) (k : Vector UInt8 24), Entry.padKey? key = some k ∧
          R'.Stored c e' ∧ R'.current.head? = some ⟨k, data⟩) ∨
        (res = .ok 0 ∧ s.engine.Reads e') ∨
        res = .error (.store (if data.size = 0 then "delete" else "write") key none ""
          (some (.kind .noSpace)))) ∧
      ∀ n, res = .ok n → ∃ e'', (StoreM.write key data).run.run e' = (.ok 0, e'') ∧
        e'.Reads e'' ∧ ∃ free e1 e2, StoreM.freeSpace.run.run e' = (.ok free, e1) ∧
          StoreM.freeSpace.run.run e'' = (.ok free, e2) := by
  have hc := Config.usable_of_validate hv
  obtain ⟨R, h⟩ := hs.faithful hv hpol
  obtain ⟨k, hk⟩ := Option.isSome_iff_exists.1 hkey
  obtain ⟨res, e', hrun, R', hst', hrest', hm', hend, -⟩ :=
    StoreM.run_write_ends hc hpol h.stored h.atRest h.mounted key data
  -- what the client expects of the key is what the ring holds
  have hheld : R.view k = Record.held ⟨k, data⟩ ↔
      data.size ≠ 0 ∧ s.expected key = some data ∨ data.size = 0 ∧ s.expected key = none := by
    rw [h.agrees key k hk]
    exact Record.eq_held_iff (s.expected key) ⟨k, data⟩
  refine ⟨res, e', hrun, (hend.reads_iff hc h.stored hst' hk hsize).trans hheld, ?_,
    fun n hn => ?_⟩
  · rcases hend.answers hk hsize with ⟨hres, hhead⟩ | hsame | hfull
    · exact Or.inl ⟨hres, R', k, hk, hst', hhead⟩
    · exact Or.inr (Or.inl hsame)
    · exact Or.inr (Or.inr hfull)
  -- after a write that succeeded the key holds the value, so the same write only reads
  subst hn
  obtain ⟨k', hk', hview⟩ := hend.written
  obtain rfl := Option.some.inj (hk.symm.trans hk')
  have hsame : R'.view k = Record.held ⟨k, data⟩ := by rw [hview, Function.update_self]
  obtain ⟨res2, e2, hrun2, R2, hst2, -, -, hend2, -⟩ :=
    StoreM.run_write_ends hc hpol hst' hrest' hm' key data
  obtain ⟨rfl, hr2⟩ := (hend2.reads_iff hc hst' hst2 hk hsize).2 hsame
  exact ⟨e2, hrun2, hr2, StoreM.run_freeSpace_reads hc hpol hst' hm' hr2⟩

/-- After the calls, writing `c` under the key `k` answers `0` having only read exactly when the
client expects `k` to hold `c`. -/
theorem write_dedup_rotated :
    sampleConfig.validate = .ok () ∧ Flash.Polar sampleConfig.eraseValue ∧
      rotated.Reachable sampleConfig ∧ (Entry.padKey? ⟨#[107]⟩).isSome ∧
      ((ByteArray.size ⟨#[99]⟩ : Nat) : Int) ≤ sampleConfig.maxValueSize ∧
      ∃ res e', (StoreM.write ⟨#[107]⟩ ⟨#[99]⟩).run.run rotated.engine = (res, e') ∧
        ((res = .ok 0 ∧ rotated.engine.Reads e') ↔ rotated.expected ⟨#[107]⟩ = some ⟨#[99]⟩) := by
  have hsize : ((ByteArray.size ⟨#[99]⟩ : Nat) : Int) ≤ sampleConfig.maxValueSize := by decide
  obtain ⟨res, e', hrun, hiff, -⟩ :=
    Reachable.write_dedup rfl (.inr rfl) reachable_rotated sampleKeys_usable.1 hsize
  -- the value is not empty, so only the expected value makes the write a repeat
  have hne : (ByteArray.size ⟨#[99]⟩ : Nat) ≠ 0 := by decide
  refine ⟨rfl, .inr rfl, reachable_rotated, sampleKeys_usable.1, hsize, res, e', hrun, hiff.trans ?_⟩
  exact ⟨fun h => h.elim And.right fun h' => absurd h'.1 hne, fun h => .inl ⟨hne, h⟩⟩

/-- Deleting fails only for want of a slot. In a faithful session, deleting a usable key either
succeeds, the key then holding nothing on the ring the store is left with, or finds no space;
and it finds no space only when the active sector has no room for one more entry, the entry of
the deletion. -/
theorem Faithful.delete_room (hv : c.validate = .ok ()) (hpol : Flash.Polar c.eraseValue)
    {R : Ring} (h : s.Faithful c R) {key : ByteArray} (hkey : (Entry.padKey? key).isSome) :
    ∃ res e', (StoreM.delete key).run.run s.engine = (res, e') ∧
      ((res = .ok () ∧ ∃ (R' : Ring) (k : Vector UInt8 24), Entry.padKey? key = some k ∧
          R'.Stored c e' ∧ R'.view k = none) ∨
        (res = .error (.store "delete" key none "" (some (.kind .noSpace))) ∧
          ∀ k, Entry.padKey? key = some k → ¬ c.Fits (⟨k, ByteArray.empty⟩ :: R.current))) := by
  have hc := Config.usable_of_validate hv
  obtain ⟨k, hk⟩ := Option.isSome_iff_exists.1 hkey
  obtain ⟨res, e', hrun, R', hst', -, -, hend, -⟩ :=
    StoreM.run_write_ends hc hpol h.stored h.atRest h.mounted key ByteArray.empty
  refine ⟨res.map fun _ => (), e', by rw [StoreM.run_delete, hrun], ?_⟩
  cases hend with
  | badKey hbad _ => exact absurd (hk.symm.trans hbad) (Option.some_ne_none k)
  | tooLarge _ hbig _ => exact absurd (Config.empty_le_maxValueSize hc) (Int.not_le.2 hbig)
  | unchanged hk' _ hnone _ =>
    -- the key held nothing already, so the deletion only read
    obtain rfl := Option.some.inj (hk.symm.trans hk')
    exact Or.inl ⟨rfl, R, k, hk, hst', hnone⟩
  | appended n hk' =>
    obtain rfl := Option.some.inj (hk.symm.trans hk')
    refine Or.inl ⟨rfl, _, k, hk, hst', ?_⟩
    rw [Ring.view_push, Function.update_self]
    rfl
  | full n hk' _ _ hnofit =>
    -- a whole round of rotations found no room, and the active sector had none to start with
    obtain rfl := Option.some.inj (hk.symm.trans hk')
    refine Or.inr ⟨rfl, fun k' hk'' => ?_⟩
    obtain rfl := Option.some.inj (hk''.symm.trans hk)
    exact hnofit

/-- After the calls, deleting the key `j` succeeds and leaves a ring without it, or finds no slot
for its entry. -/
theorem delete_room_rotated :
    sampleConfig.validate = .ok () ∧ Flash.Polar sampleConfig.eraseValue ∧
      ∃ R, rotated.Faithful sampleConfig R ∧ (Entry.padKey? ⟨#[106]⟩).isSome ∧
        ∃ res e', (StoreM.delete ⟨#[106]⟩).run.run rotated.engine = (res, e') ∧
          ((res = .ok () ∧ ∃ (R' : Ring) (k : Vector UInt8 24), Entry.padKey? ⟨#[106]⟩ = some k ∧
              R'.Stored sampleConfig e' ∧ R'.view k = none) ∨
            (res = .error (.store "delete" ⟨#[106]⟩ none "" (some (.kind .noSpace))) ∧
              ∀ k, Entry.padKey? ⟨#[106]⟩ = some k →
                ¬ sampleConfig.Fits (⟨k, ByteArray.empty⟩ :: R.current))) := by
  obtain ⟨R, h⟩ := reachable_rotated.faithful rfl (.inr rfl)
  exact ⟨rfl, .inr rfl, R, h, sampleKeys_usable.2,
    Faithful.delete_room rfl (.inr rfl) h sampleKeys_usable.2⟩

end Session

end NorStore
