import NorStore.Proofs.Bounds

/-!
# The store programs erased bytes only

A NOR part clears bits when it programs and sets them back only when it erases a whole block;
a strict part refuses to program a byte that does not read as erased. The store programs in
three places only: at its data cursor and at the slot of its entry cursor when it appends, at
the close slot of the active sector when it closes it, and, when it rotates, in the sector after
it, whose records a collection then copies. `Engine.Programmable` says all three read as erased
on the part.

* A store that holds a ring at rest keeps them erased (`Ring.Stored.programmable`): the part
  holds the ring's image, whose active sector has its gap and its close slot blank and whose
  next sector is blank.
* A call on a faithful session fails only by refusing its arguments or for lack of space
  (`Faithful.fails_refusing`), never with a fault of the part.
* In every session a client reaches, both hold (`Reachable.programs_erased`).

The sessions are those of calls that run to their end. A power cut in the middle of a table
entry leaves the slot at the entry cursor partly programmed, and a store mounted afterwards can
put its cursor back on it.
-/

namespace NorStore

/-- Where the store programs next reads as erased on the part: in the sector of the cursors, the
bytes from the data cursor to the end of the slot at the entry cursor and the close slot, and
the whole sector after it. -/
structure Engine.Programmable (c : Config) (e : Engine) : Prop where
  /-- The free bytes between the values and the table, the slot at the entry cursor included. -/
  gap : Sector.Blank (c.sectorOn e.rig.chip e.store.ateCursor.sector.toNat) c.eraseValue
    e.store.dataCursor.offset.toNat
    (e.store.ateCursor.offset.toNat + c.entrySize.toNat - e.store.dataCursor.offset.toNat)
  /-- The close slot of the sector of the cursors. -/
  close : Sector.Blank (c.sectorOn e.rig.chip e.store.ateCursor.sector.toNat) c.eraseValue
    c.closeOffset c.entrySize.toNat
  /-- The sector after it, where a rotation moves the cursors. -/
  next : Sector.Blank
    (c.sectorOn e.rig.chip ((e.store.ateCursor.sector.toNat + 1) % c.sectorCount.toNat))
    c.eraseValue 0 c.sectorSize.toNat

namespace Ring

variable {c : Config} {R : Ring} {e : Engine}

/-- What the ring's image has blank inside a sector, the part has blank. -/
theorem Hosted.blank_on (hh : R.Hosted c e) {j o n : Nat} (hj : j < c.sectorCount.toNat)
    (hn : o + n ≤ c.sectorSize.toNat) (hb : Sector.Blank (R.image c j) c.eraseValue o n) :
    Sector.Blank (c.sectorOn e.rig.chip j) c.eraseValue o n :=
  fun t ht => (hh.hosts j hj (o + t) (by omega)).trans (hb t ht)

/-- A store that holds a ring at rest programs next only bytes that read as erased. -/
theorem Stored.programmable (hc : c.Usable) (hst : R.Stored c e) (hrest : R.AtRest c) :
    e.Programmable c := by
  have hS := hc.sector_le
  have hN := hc.count_le
  have hE : 30 ≤ c.entrySize.toNat := hc.entry_ge
  obtain ⟨hate, hdata, ha, hd, ht⟩ := hst.bounds
  -- both cursors are in the active sector, at the ring's free slot and at the end of its values
  have hsec : e.store.ateCursor.sector.toNat = R.active := by
    rw [hate, Address.sector_at (by omega) (by omega)]
  have hslot : e.store.ateCursor.offset.toNat = c.slot R.current.length := by
    rw [hate, Address.offset_at (by omega) (by omega)]
  have hend : e.store.dataCursor.offset.toNat = c.dataEnd R.current := by
    rw [hdata, Address.offset_at (by omega) (by omega)]
  have hact : R.image c R.active = c.layout R.current := image_active
  refine ⟨?_, ?_, ?_⟩
  · rw [hsec, hslot, hend]
    refine hst.blank_on ha (by omega) ?_
    rw [hact]
    exact Config.blank_layout_gap hc hst.current
  · rw [hsec]
    refine hst.blank_on ha (by simp only [Config.closeOffset]; omega) ?_
    rw [hact]
    exact Config.blank_layout_close hc hst.current
  · rw [hsec]
    refine hst.blank_on (Nat.mod_lt _ (by omega)) (by omega) ?_
    rw [image_next hst.toFit hrest]
    exact fun _ _ => rfl

end Ring

/-- A refusal is of no class but its own three. -/
theorem StoreM.Refusal.is_eq_false {f : Fault} (h : StoreM.Refusal f) {k : FaultKind}
    (hk : k ∉ [.invalidKey, .valueTooLarge, .noSpace]) : f.is k = false := by
  simp only [List.mem_cons, List.not_mem_nil, or_false, not_or] at hk
  rcases h with h | h | h <;> simp [Fault.is, h, hk.1, hk.2.1, hk.2.2]

namespace Session

variable {c : Config} {s : Session} {R : Ring}

namespace Faithful

variable (hv : c.validate = .ok ()) (hpol : Flash.Polar c.eraseValue)
include hv hpol

/-- A write on a faithful session fails only by refusing its arguments or for lack of space. -/
theorem write_refusing (h : s.Faithful c R) (key data : ByteArray) {f : Fault}
    (hf : ((Call.write key data).run s.engine).1 = .error f) : StoreM.Refusal f := by
  obtain ⟨res, e', hrun, R', -, -, -, hw⟩ :=
    StoreM.run_write (Config.usable_of_validate hv) hpol h.stored h.atRest h.mounted key data
  simp only [Call.run, hrun] at hf
  cases res with
  | ok n => cases hf
  | error f' =>
    cases hf
    exact hw.1

/-- A call on a faithful session fails only by refusing its arguments or for lack of space:
clearing, formatting and remounting succeed. -/
theorem fails_refusing (h : s.Faithful c R) (call : Call) {f : Fault}
    (hf : (call.run s.engine).1 = .error f) : StoreM.Refusal f := by
  have hc := Config.usable_of_validate hv
  cases call with
  | write key data => exact h.write_refusing hv hpol key data hf
  | delete key =>
    rw [Call.run_delete] at hf
    exact h.write_refusing hv hpol key ByteArray.empty hf
  | clear =>
    obtain ⟨e', hrun, -⟩ := StoreM.run_clear hc hpol h.stored.config h.stored.placed h.mounted
    rw [show Call.clear.run s.engine = _ from hrun] at hf
    cases hf
  | format =>
    obtain ⟨e', hrun, -⟩ := StoreM.run_format hv hpol h.stored.config h.stored.placed
    rw [show Call.format.run s.engine = _ from hrun] at hf
    cases hf
  | remount log partition =>
    obtain ⟨e', hrun, -⟩ := StoreM.run_mount hv hpol
      (h.stored.toHosted.withStore (s := Store.create s.engine.store.config log partition)
        h.stored.config) h.atRest
    rw [show (Call.remount log partition).run s.engine = _ from hrun] at hf
    cases hf

end Faithful

/-- The store programs only bytes that read as erased. In every session a client reaches from a
new store on an erased region, by calls that run to their end, the bytes from the data cursor to
the end of the slot at the entry cursor, the close slot of their sector and the whole sector
after it read as erased on the part; and every call either succeeds or fails by refusing its
arguments or for lack of space, never because the part refused to program a byte that was not
erased. -/
theorem Reachable.programs_erased (hv : c.validate = .ok ()) (hpol : Flash.Polar c.eraseValue)
    (hs : s.Reachable c) :
    s.engine.Programmable c ∧
      ∀ (call : Call) (f : Fault), (call.run s.engine).1 = .error f →
        StoreM.Refusal f ∧ f.is .notErased = false := by
  obtain ⟨R, h⟩ := hs.faithful hv hpol
  refine ⟨h.stored.programmable (Config.usable_of_validate hv) h.atRest, fun call f hf => ?_⟩
  have href := h.fails_refusing hv hpol call hf
  exact ⟨href, href.is_eq_false (by decide)⟩

/-- After the calls the store programs erased bytes only, and whatever call comes next fails, if it
fails, without meeting a programmed byte. -/
theorem programs_erased_rotated :
    sampleConfig.validate = .ok () ∧ Flash.Polar sampleConfig.eraseValue ∧
      rotated.Reachable sampleConfig ∧ rotated.engine.Programmable sampleConfig ∧
      ∀ (call : Call) (f : Fault), (call.run rotated.engine).1 = .error f →
        StoreM.Refusal f ∧ f.is .notErased = false :=
  ⟨rfl, .inr rfl, reachable_rotated,
    Reachable.programs_erased (c := sampleConfig) rfl (.inr rfl) reachable_rotated⟩

end Session

end NorStore
