import NorStore.Proofs.Site

/-!
# Iterating between writes

An iterator is a value: it keeps its walk of the table and the keys it has met, and each
advance reads the store as it is at that moment. Between two advances its client may write,
delete and clear, and those calls rotate sectors and collect the one the walk is in, so the
walk can no longer be matched against one ring. What it keeps is where it is.

*Walking any table.* `Walks c act Q F` says that on every engine of `c` whose part holds the
region, `act` only reads and answers with `Q` or fails with `F`; it composes through `bind` and
`tryCatch`. A walk visits table slots only (`Config.TableSlot`): from one it steps one slot up,
through the close entry of the sector before, or to the newest entry a search of that sector
finds, and each of these is again a table slot, whatever the part holds
(`StoreM.walks_stepBack`). Reading a table slot never fails, so a step fails only when the walk
has used its steps (`StoreM.walks_next`).

*One advance* of a sound iterator always answers (`StoreM.walks_advance`): it stops at an
entry holding a value whose key the iterator had not met, after at least one more step, or it
ends the iterator with `notFound` or the walk-limit fault (`Iterator.Moves`).

*Every interleaving.* `Session.Iterating` records an iterator opened in a session a client
reached and advanced between any calls. `Session.Iterating.well_behaved` follows it: every
answer is a success, `notFound` or the walk-limit fault; successes are no more than the walk
limit, and after a failure every answer is `notFound`; no two successes stop at one key. The
walk-limit fault does happen: a walk paused in a sector that a rotation refills can meet more
slots than the limit allows.
-/

namespace NorStore

/-- Slot `i` of sector `j` of the allocation table, counted up from the one under the close
slot. -/
def Config.TableSlot (c : Config) (a : Address) : Prop :=
  ∃ j i, j < c.sectorCount.toNat ∧ (i + 2) * c.entrySize.toNat ≤ c.sectorSize.toNat ∧
    a = Address.at j (c.slot i)

/-- An engine a walk of the table can only read: its store runs with configuration `c` on a
part that holds the region, and its entry cursor is a table slot. -/
structure Engine.Walkable (c : Config) (e : Engine) : Prop where
  config : e.store.config = c
  placed : c.Placed e.rig.chip
  ate : c.TableSlot e.store.ateCursor

theorem Engine.Walkable.reads {c : Config} {e e' : Engine} (h : e.Walkable c) (hr : e.Reads e') :
    e'.Walkable c where
  config := by rw [hr.1]; exact h.config
  placed := hr.placed h.placed
  ate := by rw [hr.1]; exact h.ate

namespace StoreM

variable {c : Config} {α β : Type}

/-- Run on any engine that `c` walks, `act` only reads, and answers a value with `Q` or fails
with a fault with `F`. -/
def Walks (c : Config) (act : StoreM α) (Q : α → Prop) (F : Fault → Prop) : Prop :=
  ∀ e, e.Walkable c → ∃ r e', act.run.run e = (r, e') ∧ e.Reads e' ∧
    (∀ a, r = .ok a → Q a) ∧ ∀ f, r = .error f → F f

namespace Walks

variable {Q Q' : α → Prop} {F F' : Fault → Prop}

theorem pure {a : α} (h : Q a) : Walks c (pure a) Q F := fun e _ =>
  ⟨.ok a, e, rfl, .refl e, (fun _ ha => by cases ha; exact h), (fun _ hf => by cases hf)⟩

theorem throw {f : Fault} (h : F f) : Walks c (throw f : StoreM α) Q F := fun e _ =>
  ⟨.error f, e, rfl, .refl e, (fun _ ha => by cases ha), (fun _ hf => by cases hf; exact h)⟩

theorem mono {act : StoreM α} (h : Walks c act Q F) (hQ : ∀ a, Q a → Q' a)
    (hF : ∀ f, F f → F' f) : Walks c act Q' F' := fun e he => by
  obtain ⟨r, e', hrun, hr, hq, hf⟩ := h e he
  exact ⟨r, e', hrun, hr, fun a ha => hQ a (hq a ha), fun f hf' => hF f (hf f hf')⟩

theorem bind {x : StoreM α} {f : α → StoreM β} {P : β → Prop} (hx : Walks c x Q F)
    (hf : ∀ a, Q a → Walks c (f a) P F) : Walks c (x >>= f) P F := fun e he => by
  obtain ⟨r, e1, hrun, hr1, hq, hfl⟩ := hx e he
  cases r with
  | ok a =>
    obtain ⟨r2, e2, hrun2, hr2, hq2, hf2⟩ := hf a (hq a rfl) e1 (he.reads hr1)
    exact ⟨r2, e2, by rw [run_bind_ok hrun, hrun2], hr1.trans hr2, hq2, hf2⟩
  | error f =>
    refine ⟨.error f, e1, run_bind_error hrun, hr1, (fun _ ha => by cases ha), fun _ hf' => ?_⟩
    cases hf'
    exact hfl f rfl

theorem tryCatch {x : StoreM α} {h : Fault → StoreM α} (hx : Walks c x Q F)
    (hh : ∀ f, F f → Walks c (h f) Q F') : Walks c (tryCatch x h) Q F' := fun e he => by
  obtain ⟨r, e1, hrun, hr1, hq, hfl⟩ := hx e he
  cases r with
  | ok a => exact ⟨.ok a, e1, run_tryCatch_ok hrun, hr1, hq, (fun _ hf => by cases hf)⟩
  | error f =>
    obtain ⟨r2, e2, hrun2, hr2, hq2, hf2⟩ := hh f (hfl f rfl) e1 (he.reads hr1)
    exact ⟨r2, e2, by rw [run_tryCatch_error hrun, hrun2], hr1.trans hr2, hq2, hf2⟩

end Walks

variable {F : Fault → Prop}

theorem walks_store : Walks c store (fun s => s.config = c ∧ c.TableSlot s.ateCursor) F :=
  fun e he => ⟨.ok e.store, e, run_store e, .refl e,
    (fun _ ha => by cases ha; exact ⟨he.config, he.ate⟩), (fun _ hf => by cases hf)⟩

theorem walks_done (w : Walker) : Walks c w.done (fun _ => True) F := by
  unfold Walker.done
  exact walks_store.bind fun _ _ => Walks.pure trivial

section Table

variable (hc : c.Usable)
include hc

/-- Reading a slot of the region never fails, whatever the part holds. -/
theorem walks_readSlot {j o : Nat} (hj : j < c.sectorCount.toNat)
    (ho : o + c.entrySize.toNat ≤ c.sectorSize.toNat) :
    Walks c (readSlot (Address.at j o)) (fun _ => True) F := fun e he => by
  -- every part hosts its own bytes
  have hself : c.Hosts e.rig.chip fun j o =>
      e.rig.chip.cells.get! (c.offset.toNat + j * c.sectorSize.toNat + o) := fun _ _ _ _ => rfl
  obtain ⟨raw, e', hrun, hr, -⟩ := run_readSlot hc he.config he.placed hself hj ho
  exact ⟨_, e', hrun, hr, fun _ _ => trivial, fun _ hf => by cases hf⟩

/-- The slot below a table slot that is not the lowest of its sector is the next one down. -/
theorem minus_slot {s : Store} (hs : s.config = c) {j i : Nat} (hj : j < c.sectorCount.toNat)
    (hi : (i + 2) * c.entrySize.toNat ≤ c.sectorSize.toNat)
    (hlow : ¬(Address.at j (c.slot i)).offset < s.entrySize) :
    (i + 1 + 2) * c.entrySize.toNat ≤ c.sectorSize.toNat ∧
      (Address.at j (c.slot i)).minus s.entrySize = Address.at j (c.slot (i + 1)) := by
  have hS := hc.sector_le
  have hn := hc.count_le
  rw [UInt32.lt_iff_toNat_lt, Address.offset_at (by omega) (by simp only [Config.slot]; omega),
    Store.entrySize, hs] at hlow
  have hstep : (i + 1 + 2) * c.entrySize.toNat = (i + 2) * c.entrySize.toNat + c.entrySize.toNat := by
    rw [show i + 1 + 2 = (i + 2) + 1 by omega, Nat.succ_mul]
  simp only [Config.slot] at hlow
  refine ⟨by omega, ?_⟩
  rw [Store.entrySize, hs, Address.minus_at (by omega) (by simp only [Config.slot]; omega)
    (by simp only [Config.slot]; omega)]
  simp only [Config.slot]
  congr 1
  omega

/-- Searching sector `j` down from one of its table slots for its newest entry ends on a table
slot. -/
theorem walks_recoverNewest_go {s : Store} (hs : s.config = c) {j : Nat}
    (hj : j < c.sectorCount.toNat) :
    ∀ (fuel : Nat) (best dataEnd : Address) {i : Nat}, c.TableSlot best →
      (i + 2) * c.entrySize.toNat ≤ c.sectorSize.toNat →
      Walks c (recoverNewest.go s fuel best (Address.at j (c.slot i)) dataEnd) c.TableSlot F := by
  intro fuel
  induction fuel with
  | zero => intro best dataEnd i hbest _; exact Walks.pure hbest
  | succ fuel ih =>
    intro best dataEnd i hbest hi
    have htop : c.TableSlot (Address.at j (c.slot i)) := ⟨j, i, hj, hi, rfl⟩
    have hE : c.entrySize.toNat ≤ (i + 2) * c.entrySize.toNat := Nat.le_mul_of_pos_left _ (by omega)
    unfold recoverNewest.go
    split
    · exact Walks.pure hbest
    · -- whichever slot is the newest found so far, the scan stops or goes one slot down
      have hnext : ∀ best', c.TableSlot best' → ∀ dataEnd',
          Walks c (if (Address.at j (c.slot i)).offset < s.entrySize then pure best' else
            recoverNewest.go s fuel best' ((Address.at j (c.slot i)).minus s.entrySize) dataEnd')
            c.TableSlot F := by
        intro best' hb dataEnd'
        split
        · exact Walks.pure hb
        · rename_i hlow
          obtain ⟨hi', hminus⟩ := minus_slot hc hs hj hi hlow
          rw [hminus]
          exact ih _ _ hb hi'
      refine (walks_readSlot hc hj (by simp only [Config.slot]; omega)).bind fun slot _ => ?_
      cases slot with
      | valid en =>
        simp only [pure_bind]
        exact hnext _ htop _
      | erased =>
        simp only [pure_bind]
        exact hnext _ hbest _
      | invalid en =>
        simp only [pure_bind]
        exact hnext _ hbest _

/-- Searching the sector under the close slot of sector `j` for its newest entry ends on a
table slot. -/
theorem walks_recoverNewest {j : Nat} (hj : j < c.sectorCount.toNat) :
    Walks c (recoverNewest (Address.at j c.closeOffset)) c.TableSlot F := by
  have hS := hc.sector_le
  have hn := hc.count_le
  have h4 := hc.four_entries
  unfold recoverNewest
  refine walks_store.bind fun s hs => ?_
  -- the search starts at the lowest slot of the sector, just under its close slot
  have hstart : (Address.at j c.closeOffset).minus s.entrySize = Address.at j (c.slot 0) := by
    rw [Store.entrySize, hs.1, Address.minus_at (by omega) (by simp only [Config.closeOffset]; omega)
      (by simp only [Config.closeOffset]; omega)]
    simp only [Config.slot, Config.closeOffset]
    congr 1
    omega
  simp only [hstart]
  exact walks_recoverNewest_go hc hs.1 hj _ _ _ ⟨j, 0, hj, by omega, rfl⟩ (by omega)

/-- A close entry whose offset the walk follows names a table slot of its sector. -/
theorem tableSlot_of_closeOffsetValid {s : Store} (hs : s.config = c) {j : Nat}
    (hj : j < c.sectorCount.toNat) {off : UInt16} (h : s.closeOffsetValid off = true) :
    c.TableSlot ((Address.at j c.closeOffset).sectorStart.plus off.toUInt32) := by
  have hS := hc.sector_le
  have hn := hc.count_le
  have hE : 30 ≤ c.entrySize.toNat := hc.entry_ge
  simp only [Store.closeOffsetValid, Bool.and_eq_true, decide_eq_true_eq, beq_iff_eq] at h
  obtain ⟨hlt, hdvd⟩ := h
  rw [UInt32.lt_iff_toNat_lt, Store.closeSlot_toNat hs hc] at hlt
  have hoS : off.toUInt32.toNat ≤ c.sectorSize.toNat := by
    simp only [Config.closeOffset] at hlt; omega
  -- the offset lies a whole number `m` of entries under the sector's end, two of them at least
  have hmod : (c.sectorSize.toNat - off.toUInt32.toNat) % c.entrySize.toNat = 0 := by
    have := congrArg UInt32.toNat hdvd
    rwa [UInt32.toNat_mod, UInt32.toNat_sub_of_le _ _ (by rw [UInt32.le_iff_toNat_le, hs]; exact hoS),
      Store.entrySize, hs] at this
  obtain ⟨m, hm⟩ := Nat.dvd_of_mod_eq_zero hmod
  have htwo : 2 ≤ m := by
    by_contra hlt2
    interval_cases m <;> simp only [Config.closeOffset] at hlt <;> omega
  refine ⟨j, m - 2, hj, ?_, ?_⟩
  · rw [show m - 2 + 2 = m by omega, Nat.mul_comm]
    omega
  · rw [Address.sectorStart_at (by omega) (by simp only [Config.closeOffset]; omega),
      Address.plus_at (by omega) (by omega), Nat.zero_add]
    congr 1
    simp only [Config.slot]
    rw [show m - 2 + 2 = m by omega, Nat.mul_comm]
    omega

/-- From a table slot the walk steps to a table slot, whatever the part holds: one slot up, or
past the top of the sector to the newest entry of the sector before, or back at the entry
cursor. -/
theorem walks_stepBack {a : Address} (ha : c.TableSlot a) :
    Walks c (stepBack a) (fun p => c.TableSlot p.2) F := by
  have hS := hc.sector_le
  have hn := hc.count_le
  have h4 := hc.four_entries
  have hE30 : 30 ≤ c.entrySize.toNat := hc.entry_ge
  obtain ⟨j, i, hj, hi, rfl⟩ := ha
  have hE : c.entrySize.toNat ≤ (i + 2) * c.entrySize.toNat := Nat.le_mul_of_pos_left _ (by omega)
  unfold stepBack
  refine (walks_readSlot hc hj (by simp only [Config.slot]; omega)).bind fun slot _ => ?_
  refine walks_store.bind fun s hstore => ?_
  obtain ⟨hs, hate⟩ := hstore
  cases i with
  | succ i =>
    -- below the top slot the walk moves one slot up
    have hstep : (i + 1 + 2) * c.entrySize.toNat = (i + 2) * c.entrySize.toNat + c.entrySize.toNat := by
      rw [show i + 1 + 2 = (i + 2) + 1 by omega, Nat.succ_mul]
    have htwo : 2 * c.entrySize.toNat ≤ (i + 2) * c.entrySize.toNat :=
      Nat.mul_le_mul_right _ (by omega)
    have hup : (Address.at j (c.slot (i + 1))).plus s.entrySize = Address.at j (c.slot i) := by
      rw [Store.entrySize, hs, Address.plus_at (by omega) (by simp only [Config.slot]; omega)]
      congr 1
      simp only [Config.slot]
      omega
    have hoff : ((Address.at j (c.slot i)).offset != s.closeSlot) = true := by
      rw [bne_iff_ne, ne_eq, ← UInt32.toNat_inj, Address.offset_at (by omega)
        (by simp only [Config.slot]; omega), Store.closeSlot_toNat hs hc]
      simp only [Config.slot, Config.closeOffset]
      omega
    simp only [hup, hoff, if_true]
    exact Walks.pure ⟨j, i, hj, by omega, rfl⟩
  | zero =>
    -- past the top slot the walk reads the close slot of the sector before
    obtain ⟨hnext, hoff, hprev⟩ := Ring.bottom_next hc hs hj
    have hp : (j + c.sectorCount.toNat - 1) % c.sectorCount.toNat < c.sectorCount.toNat :=
      Nat.mod_lt _ (by omega)
    simp only [hnext, hoff, hprev, Bool.false_eq_true, if_false]
    refine (walks_readSlot hc hp (by simp only [Config.closeOffset]; omega)).bind
      fun close _ => ?_
    cases close with
    | erased => exact Walks.pure hate
    | valid en =>
      dsimp only
      split
      · exact Walks.pure (tableSlot_of_closeOffsetValid hc hs hp ‹_›)
      · exact (walks_recoverNewest hc hp).bind fun _ h => Walks.pure h
    | invalid en => exact (walks_recoverNewest hc hp).bind fun _ h => Walks.pure h

/-- One step of a walk from a table slot: the walk-limit fault once the walk has used its
steps, and otherwise the slot there, with the walk one step further on at a table slot. -/
theorem walks_next {w : Walker} (hw : c.TableSlot w.addr) :
    Walks c w.next
      (fun p => w.steps < w.limit ∧ p.2.1 = w.addr ∧ p.2.2.limit = w.limit ∧
        p.2.2.steps = w.steps + 1 ∧ c.TableSlot p.2.2.addr)
      (fun f => f = walkFault w.addr) := by
  unfold Walker.next
  split
  · exact Walks.throw rfl
  · refine (walks_stepBack hc hw).bind fun p hp => ?_
    obtain ⟨slot, addr⟩ := p
    exact Walks.pure ⟨by omega, rfl, rfl, rfl, hp⟩

end Table

end StoreM

/-! ## One advance -/

namespace Iterator

variable {c : Config}

/-- An iterator a walk can go on from: its walk is within its steps and at a table slot. -/
structure Sound (c : Config) (it : Iterator) : Prop where
  within : it.walker.steps ≤ it.walker.limit
  slot : c.TableSlot it.walker.addr

/-- What an advance keeps of `it` in the iterator `it'` it hands back: a sound iterator with the
same walk limit, at least as many steps, and every key `it` had met. -/
structure Follows (c : Config) (it it' : Iterator) : Prop where
  sound : it'.Sound c
  limit : it'.walker.limit = it.walker.limit
  steps : it.walker.steps ≤ it'.walker.steps
  seen : it.seen <:+ it'.seen

theorem Follows.refl {it : Iterator} (h : it.Sound c) : it.Follows c it :=
  ⟨h, rfl, Nat.le_refl _, List.suffix_refl _⟩

/-- Ending an iterator keeps its walk and the keys it met. -/
theorem Follows.finish {it it' : Iterator} (h : it.Follows c it') : it.Follows c it'.finish :=
  ⟨⟨h.sound.within, h.sound.slot⟩, h.limit, h.steps, h.seen⟩

theorem Follows.trans {it it' it'' : Iterator} (h : it.Follows c it') (h' : it'.Follows c it'') :
    it.Follows c it'' :=
  ⟨h'.sound, h'.limit.trans h.limit, Nat.le_trans h.steps h'.steps, h.seen.trans h'.seen⟩

/-- What one advance of `it` may hand back. On success the iterator follows `it`, has taken at
least one more step, and stops at an entry with a value whose key `it` had not met; otherwise
it follows `it` finished, and the answer is `notFound` or the walk-limit fault. -/
def Moves (c : Config) (it : Iterator) : Iterator × Except Fault Unit → Prop
  | (it', .ok ()) => it.Follows c it' ∧ it.walker.steps < it'.walker.steps ∧
      it'.finished = it.finished ∧ ∃ en x, en.key ∉ it.seen ∧ en.length ≠ 0 ∧
        it'.seen.head? = some en.key ∧ it'.current = some (EntryInfo.of en x)
  | (it', .error f) => it.Follows c it' ∧ it'.finished = true ∧
      (f = .kind .notFound ∨ ∃ x, f = walkFault x)

/-- An advance that goes on from an iterator following `it`, one step further and not finished
unless `it` was, moves `it` as it moves that iterator. -/
theorem Moves.of_follows {it it' : Iterator} (h : it.Follows c it')
    (hlt : it.walker.steps < it'.walker.steps) (hfin : it'.finished = it.finished) :
    ∀ {p : Iterator × Except Fault Unit}, it'.Moves c p → it.Moves c p
  | (it'', .ok ()), ⟨hf, hs, hfin', en, x, hnew, hlen, hhead, hcur⟩ =>
    ⟨h.trans hf, by omega, hfin'.trans hfin, en, x, fun hmem => hnew (h.seen.subset hmem), hlen,
      hhead, hcur⟩
  | (it'', .error f), ⟨hf, hfin', hfault⟩ => ⟨h.trans hf, hfin', hfault⟩

/-- Whatever an advance answers, the iterator it hands back follows the one it started from. -/
theorem Moves.follows {it it' : Iterator} {r : Except Fault Unit} (h : it.Moves c (it', r)) :
    it.Follows c it' := by
  cases r with
  | ok u => exact h.1
  | error f => exact h.1

end Iterator

namespace StoreM

variable {c : Config} (hc : c.Usable)
include hc

/-- The loop of an advance from a sound iterator only reads, moves the iterator as `Moves` says
or fails with the walk-limit fault, whatever the part holds. -/
theorem walks_advance_go : ∀ (fuel : Nat) (it : Iterator), it.Sound c →
    Walks c (advance.go fuel it) (it.Moves c) (fun f => ∃ x, f = walkFault x) := by
  intro fuel
  induction fuel with
  | zero =>
    intro it hs
    exact Walks.pure ⟨(Iterator.Follows.refl hs).finish, rfl, .inl rfl⟩
  | succ fuel ih =>
    intro it hs
    unfold advance.go
    refine ((walks_next hc hs.slot).mono (fun _ h => h) fun f hf => ⟨_, hf⟩).bind fun p hp => ?_
    obtain ⟨slot, here, w⟩ := p
    obtain ⟨hlt, hhere, hlim, hsteps, hslot⟩ := hp
    dsimp only at hhere hlim hsteps hslot ⊢
    subst hhere
    -- one step on, an iterator with the walk `w` and at least the keys `it` met follows it
    have hfol : ∀ it' : Iterator, it'.walker = w → it.seen <:+ it'.seen → it.Follows c it' :=
      fun it' hw hseen => ⟨⟨by rw [hw, hsteps, hlim]; exact hlt, by rw [hw]; exact hslot⟩,
        by rw [hw, hlim], by rw [hw, hsteps]; omega, hseen⟩
    -- wherever the advance does not stop, it asks whether the walk is over and goes on
    have hon : ∀ it' : Iterator, it'.walker = w → it.seen <:+ it'.seen →
        it'.finished = it.finished → Walks c (do
          let back ← w.done
          if back = true then pure (it'.finish, .error (.kind .notFound))
          else advance.go fuel it') (it.Moves c) (fun f => ∃ x, f = walkFault x) := by
      intro it' hw hseen hfin
      have hf := hfol it' hw hseen
      refine (walks_done w).bind fun _ _ => ?_
      split
      · exact Walks.pure ⟨hf.finish, rfl, .inl rfl⟩
      · exact (ih it' hf.sound).mono (fun _ hm => Iterator.Moves.of_follows hf
          (by rw [hw, hsteps]; omega) hfin hm) fun _ h => h
    split
    · rename_i en
      split
      · rename_i hnew
        split
        · rename_i hlen
          -- the newest entry of a key not met, holding a value: the advance stops here
          refine Walks.pure ⟨hfol _ rfl (List.suffix_cons _ _), by rw [hsteps]; omega, rfl, en,
            it.walker.addr, ?_, ?_, rfl, rfl⟩
          · simpa using hnew
          · simpa using hlen
        · exact hon _ rfl (List.suffix_cons _ _) rfl
      · exact hon _ rfl (List.suffix_refl _) rfl
    · exact hon _ rfl (List.suffix_refl _) rfl

/-- One advance of a sound iterator always answers, only reads, and moves the iterator as
`Moves` says, whatever the part holds. -/
theorem walks_advance {it : Iterator} (hs : it.Sound c) :
    Walks c (advance it) (it.Moves c) (fun _ => False) := by
  unfold advance
  split
  · exact Walks.pure ⟨.refl hs, ‹_›, .inl rfl⟩
  · refine (walks_advance_go hc _ it hs).tryCatch fun f hf => ?_
    exact Walks.pure ⟨(Iterator.Follows.refl hs).finish, rfl, .inr hf⟩

omit hc in
/-- An iterator that has ended answers `notFound` and stays as it is. -/
theorem run_advance_finished {it : Iterator} (h : it.finished = true) (e : Engine) :
    (advance it).run.run e = (.ok (it, .error (.kind .notFound)), e) := by
  simp only [advance, h, if_true]
  rfl

end StoreM

/-! ## Every interleaving -/

/-- The entry cursor of a ring is a table slot. -/
theorem Ring.tableSlot_ate {c : Config} {R : Ring} (hR : R.Fit c) : c.TableSlot (R.ate c) := by
  have hfit := hR.current
  unfold Config.Fits at hfit
  exact ⟨R.active, R.current.length, hR.active_lt, by omega, rfl⟩

/-- A list with one more element at its end, split around one of its elements: the element is
the new one, or it lies in the old list and the new one closes what follows it. -/
private theorem split_concat {α : Type} {l pre post : List α} {a b : α}
    (h : l ++ [a] = pre ++ b :: post) :
    (post = [] ∧ b = a) ∨ ∃ post', post = post' ++ [a] ∧ l = pre ++ b :: post' := by
  rcases List.eq_nil_or_concat post with rfl | ⟨post', x, rfl⟩
  · obtain ⟨-, hab⟩ := List.append_inj' h rfl
    exact .inl ⟨rfl, (List.cons.inj hab).1.symm⟩
  · rw [List.concat_eq_append, ← List.cons_append, ← List.append_assoc] at h
    obtain ⟨hl, hax⟩ := List.append_inj' h rfl
    obtain rfl := (List.cons.inj hax).1
    exact .inr ⟨post', List.concat_eq_append, hl⟩

namespace Session

variable {c : Config} {s : Session} {R : Ring}

/-- A walk of the table in a faithful session can only read. -/
theorem Faithful.walkable (h : s.Faithful c R) : s.engine.Walkable c :=
  ⟨h.stored.config, h.stored.placed, by rw [h.stored.ate]; exact Ring.tableSlot_ate h.stored.toFit⟩

/-- A session with an iterator open: the client opened it in a session it reached, and has since
advanced it and made calls in any order. `outs` lists what each advance answered, with the
iterator it handed back. -/
inductive Iterating (c : Config) : Session → Iterator → List (Except Fault Unit × Iterator) → Prop
  | start {s : Session} {it : Iterator} {e : Engine} : s.Reachable c →
      StoreM.iterator.run.run s.engine = (.ok it, e) → Iterating c ⟨e, s.expected⟩ it []
  | call {s : Session} {it : Iterator} {outs : List (Except Fault Unit × Iterator)} (call : Call) :
      Iterating c s it outs → Iterating c (s.step call) it outs
  | next {s : Session} {it it' : Iterator} {outs : List (Except Fault Unit × Iterator)}
      {r : Except Fault Unit} {e' : Engine} : Iterating c s it outs →
      (StoreM.advance it).run.run s.engine = (.ok (it', r), e') →
      Iterating c ⟨e', s.expected⟩ it' (outs ++ [(r, it')])

namespace Iterating

/-- Opening an iterator in a session a client reached, on a mounted store, leaves the session as
it was. -/
theorem opened (hs : s.Reachable c) (hm : s.engine.store.mounted = true) :
    s.Iterating c { walker := Walker.start s.engine.store } [] :=
  Iterating.start hs (StoreM.run_iterator hm)

/-- What holds of a session with an open iterator after any moves: the session is faithful, the
iterator sound with the store's walk limit, every answer a success, `notFound` or the walk-limit
fault, no more successes than steps taken, the iterator ended once an advance failed and
`notFound` ever after, and each success stopped at an entry with a value of a key the iterator
has met and no earlier success stopped at. -/
structure Inv (c : Config) (s : Session) (it : Iterator)
    (outs : List (Except Fault Unit × Iterator)) : Prop where
  faithful : ∃ R, s.Faithful c R
  sound : it.Sound c
  limit : it.walker.limit = s.engine.store.walkLimit
  answers : ∀ p ∈ outs, p.1 = .ok () ∨ p.1 = .error (.kind .notFound) ∨
    ∃ x, p.1 = .error (walkFault x)
  stops : (outs.filter (·.1.isOk)).length ≤ it.walker.steps
  ended : (∃ p ∈ outs, p.1.isOk = false) → it.finished = true
  after : ∀ pre p post, outs = pre ++ p :: post → p.1.isOk = false →
    ∀ q ∈ post, q.1 = .error (.kind .notFound)
  entries : ∀ p ∈ outs, p.1 = .ok () → ∃ en x, en.length ≠ 0 ∧ p.2.seen.head? = some en.key ∧
    p.2.info = .ok (EntryInfo.of en x)
  met : ∀ p ∈ outs.filter (·.1.isOk), ∃ k, p.2.seen.head? = some k ∧ k ∈ it.seen
  nodup : ((outs.filter (·.1.isOk)).map (·.2.seen.head?)).Nodup

variable {it : Iterator} {outs : List (Except Fault Unit × Iterator)}

/-- A new iterator of a session a client reached. -/
theorem Inv.start (hv : c.validate = .ok ()) (hpol : Flash.Polar c.eraseValue) (hs : s.Reachable c)
    {e : Engine} (hrun : StoreM.iterator.run.run s.engine = (.ok it, e)) :
    Inv c ⟨e, s.expected⟩ it [] := by
  obtain ⟨R, h⟩ := hs.faithful hv hpol
  rw [StoreM.run_iterator h.mounted] at hrun
  obtain ⟨rfl, rfl⟩ := Prod.mk.inj hrun |>.imp Except.ok.inj id
  refine ⟨⟨R, h⟩, ⟨Nat.zero_le _, h.walkable.ate⟩, rfl, ?_, ?_, ?_, ?_, ?_, ?_, List.nodup_nil⟩
  all_goals simp

/-- A call keeps what holds: it leaves the iterator as it is and keeps the session faithful. -/
theorem Inv.call (hv : c.validate = .ok ()) (hpol : Flash.Polar c.eraseValue)
    (h : Inv c s it outs) (call : Call) : Inv c (s.step call) it outs := by
  obtain ⟨R, hR⟩ := h.faithful
  obtain ⟨R', hR'⟩ := (hR.call hv hpol call).2
  have hlimit : s.engine.store.walkLimit = (s.step call).engine.store.walkLimit := by
    simp only [Store.walkLimit, Store.entrySize, hR.stored.config, hR'.stored.config]
  exact ⟨⟨R', hR'⟩, h.sound, h.limit.trans hlimit, h.answers, h.stops, h.ended, h.after,
    h.entries, h.met, h.nodup⟩

/-- A successful advance, after successes only, extends what holds: it answers a success, takes
a step, and stops at an entry with a value of a key not met before. -/
theorem Inv.push_ok (h : Inv c s it outs) {s' : Session} {it' : Iterator} {u : Unit}
    (hfaith : ∃ R, s'.Faithful c R) (hlimit : it'.walker.limit = s'.engine.store.walkLimit)
    (hm : it.Moves c (it', .ok u)) (hok : ∀ p ∈ outs, p.1.isOk = true)
    (hnotfin : it.finished = false) : Inv c s' it' (outs ++ [(.ok u, it')]) := by
  obtain ⟨hf, hlt, hfin, en, x, hnew, hlen, hhead, hcur⟩ := hm
  have hfilter : (outs ++ [(Except.ok u, it')]).filter (·.1.isOk) =
      outs.filter (·.1.isOk) ++ [(Except.ok u, it')] := by
    rw [List.filter_append]
    rfl
  refine ⟨hfaith, hf.sound, hlimit, ?_, ?_, ?_, ?_, ?_, ?_, ?_⟩
  · intro p hp
    rcases List.mem_append.1 hp with hp | hp
    · exact h.answers p hp
    · rw [List.mem_singleton.1 hp]
      exact .inl rfl
  · rw [hfilter, List.length_append, List.length_singleton]
    have := h.stops
    omega
  · rintro ⟨p, hp, hnok⟩
    rcases List.mem_append.1 hp with hp | hp
    · rw [hok p hp] at hnok
      cases hnok
    · rw [List.mem_singleton.1 hp] at hnok
      cases hnok
  · intro pre p post hsplit hnok
    rcases split_concat hsplit with ⟨-, rfl⟩ | ⟨post', -, hold⟩
    · cases hnok
    · rw [hok p (by rw [hold]; simp)] at hnok
      cases hnok
  · intro p hp hpok
    rcases List.mem_append.1 hp with hp | hp
    · exact h.entries p hp hpok
    · rw [List.mem_singleton.1 hp]
      refine ⟨en, x, hlen, hhead, ?_⟩
      simp only [Iterator.info, hcur, hfin, hnotfin, Bool.false_eq_true, if_false]
  · intro p hp
    rw [hfilter] at hp
    rcases List.mem_append.1 hp with hp | hp
    · obtain ⟨k, hk, hmem⟩ := h.met p hp
      exact ⟨k, hk, hf.seen.subset hmem⟩
    · rw [List.mem_singleton.1 hp]
      exact ⟨en.key, hhead, List.mem_of_mem_head? hhead⟩
  · rw [hfilter, List.map_append, List.nodup_append]
    refine ⟨h.nodup, List.nodup_singleton _, ?_⟩
    -- the key of the new stop was not met before, and every earlier stop's key was
    intro a ha b hb hab
    simp only [List.map_cons, List.map_nil, List.mem_singleton] at hb
    simp only [hb, hhead] at hab
    obtain ⟨p, hp, rfl⟩ := List.mem_map.1 ha
    obtain ⟨k, hk, hmem⟩ := h.met p hp
    rw [hab] at hk
    cases hk
    exact hnew hmem

/-- A failed advance extends what holds: it ends the iterator, and it answers `notFound` when an
earlier advance had failed. -/
theorem Inv.push_error (h : Inv c s it outs) {s' : Session} {it' : Iterator} {f : Fault}
    (hfaith : ∃ R, s'.Faithful c R) (hlimit : it'.walker.limit = s'.engine.store.walkLimit)
    (hm : it.Moves c (it', .error f))
    (hended : ∀ pre p post, outs = pre ++ p :: post → p.1.isOk = false → f = .kind .notFound) :
    Inv c s' it' (outs ++ [(.error f, it')]) := by
  obtain ⟨hf, hfin, hfault⟩ := hm
  have hfilter : (outs ++ [(Except.error f, it')]).filter (·.1.isOk) =
      outs.filter (·.1.isOk) := by
    rw [List.filter_append]
    exact List.append_nil _
  refine ⟨hfaith, hf.sound, hlimit, ?_, ?_, fun _ => hfin, ?_, ?_, ?_, ?_⟩
  · intro p hp
    rcases List.mem_append.1 hp with hp | hp
    · exact h.answers p hp
    · rw [List.mem_singleton.1 hp]
      rcases hfault with rfl | ⟨x, rfl⟩
      · exact .inr (.inl rfl)
      · exact .inr (.inr ⟨x, rfl⟩)
  · rw [hfilter]
    exact Nat.le_trans h.stops hf.steps
  · intro pre p post hsplit hnok q hq
    rcases split_concat hsplit with ⟨rfl, -⟩ | ⟨post', rfl, hold⟩
    · cases hq
    · rcases List.mem_append.1 hq with hq | hq
      · exact h.after pre p post' hold hnok q hq
      · rw [List.mem_singleton.1 hq, hended pre p post' hold hnok]
  · intro p hp hpok
    rcases List.mem_append.1 hp with hp | hp
    · exact h.entries p hp hpok
    · rw [List.mem_singleton.1 hp] at hpok
      cases hpok
  · intro p hp
    rw [hfilter] at hp
    obtain ⟨k, hk, hmem⟩ := h.met p hp
    exact ⟨k, hk, hf.seen.subset hmem⟩
  · rw [hfilter]
    exact h.nodup

/-- An advance keeps what holds, with its answer and the iterator it hands back recorded. -/
theorem Inv.next (hc : c.Usable) (h : Inv c s it outs) {it' : Iterator} {r : Except Fault Unit}
    {e' : Engine} (hrun : (StoreM.advance it).run.run s.engine = (.ok (it', r), e')) :
    Inv c ⟨e', s.expected⟩ it' (outs ++ [(r, it')]) := by
  obtain ⟨R, hR⟩ := h.faithful
  obtain ⟨res, e1, hrun1, hreads, hq, -⟩ := StoreM.walks_advance hc h.sound s.engine hR.walkable
  rw [hrun] at hrun1
  obtain ⟨rfl, rfl⟩ := Prod.mk.inj hrun1
  have hm : it.Moves c (it', r) := hq _ rfl
  have hlimit : it'.walker.limit = e'.store.walkLimit := by
    rw [hm.follows.limit, h.limit, hreads.1]
  -- an ended iterator answers `notFound` and stays as it is
  have hfinished : it.finished = true → r = .error (.kind .notFound) := fun hfin => by
    rw [StoreM.run_advance_finished hfin] at hrun
    exact ((Prod.mk.inj (Except.ok.inj (Prod.mk.inj hrun).1)).2).symm
  -- once an advance has failed the iterator has ended
  have hended : ∀ pre p post, outs = pre ++ p :: post → p.1.isOk = false →
      r = .error (.kind .notFound) := fun pre p post hsplit hnok =>
    hfinished (h.ended ⟨p, by rw [hsplit]; simp, hnok⟩)
  cases r with
  | ok u =>
    -- an advance that succeeds came after successes only, from an iterator not ended
    have hok : ∀ p ∈ outs, p.1.isOk = true := by
      intro p hp
      by_contra hnok
      obtain ⟨pre, post, hsplit⟩ := List.append_of_mem hp
      cases hended pre p post hsplit (by simpa using hnok)
    have hnotfin : it.finished = false := Bool.eq_false_iff.2 fun hfin => by cases hfinished hfin
    exact h.push_ok ⟨R, hR.reads hreads⟩ hlimit hm hok hnotfin
  | error f =>
    exact h.push_error ⟨R, hR.reads hreads⟩ hlimit hm fun pre p post hsplit hnok =>
      Except.error.inj (hended pre p post hsplit hnok)

/-- What holds after any moves of a client with an open iterator. -/
theorem inv (hv : c.validate = .ok ()) (hpol : Flash.Polar c.eraseValue)
    (h : s.Iterating c it outs) : Inv c s it outs := by
  induction h with
  | start hs hrun => exact Inv.start hv hpol hs hrun
  | call call _ ih => exact ih.call hv hpol call
  | next _ hrun ih => exact ih.next (Config.usable_of_validate hv) hrun

/-- An iterator advanced between any calls its client makes, writes that rotate sectors and
collect the one its walk is in included. The next advance always answers, and every answer is a
success, `notFound` or the walk-limit fault, never another fault. No more advances succeed than
the walk limit, and once one has not, every later one answers `notFound`: the iteration ends.
Each success stops at an entry holding a value and reports it, and no two successes stop at
entries of one key. Calls are answered as in every session a client reaches. -/
theorem well_behaved (hv : c.validate = .ok ()) (hpol : Flash.Polar c.eraseValue)
    (h : s.Iterating c it outs) :
    (∃ it' r e', (StoreM.advance it).run.run s.engine = (.ok (it', r), e')) ∧
    (∀ p ∈ outs, p.1 = .ok () ∨ p.1 = .error (.kind .notFound) ∨
      ∃ x, p.1 = .error (walkFault x)) ∧
    (outs.filter (·.1.isOk)).length ≤ s.engine.store.walkLimit ∧
    (∀ pre p post, outs = pre ++ p :: post → p.1.isOk = false →
      ∀ q ∈ post, q.1 = .error (.kind .notFound)) ∧
    (∀ p ∈ outs, p.1 = .ok () → ∃ en x, en.length ≠ 0 ∧ p.2.seen.head? = some en.key ∧
      p.2.info = .ok (EntryInfo.of en x)) ∧
    ((outs.filter (·.1.isOk)).map (·.2.seen.head?)).Nodup ∧
    ∀ call : Call, Answered (call.run s.engine).1 := by
  have hi := inv hv hpol h
  obtain ⟨R, hR⟩ := hi.faithful
  obtain ⟨res, e', hrun, -, hq, hfault⟩ :=
    StoreM.walks_advance (Config.usable_of_validate hv) hi.sound s.engine hR.walkable
  have hanswer : ∃ it' r e', (StoreM.advance it).run.run s.engine = (.ok (it', r), e') := by
    cases res with
    | ok p => exact ⟨p.1, p.2, e', hrun⟩
    | error f => exact absurd (hfault f rfl) id
  have hstops : (outs.filter (·.1.isOk)).length ≤ s.engine.store.walkLimit :=
    calc (outs.filter (·.1.isOk)).length ≤ it.walker.steps := hi.stops
      _ ≤ it.walker.limit := hi.sound.within
      _ = s.engine.store.walkLimit := hi.limit
  exact ⟨hanswer, hi.answers, hstops, hi.after, hi.entries, hi.nodup,
    fun call => (hR.call hv hpol call).1⟩

end Iterating

/-- An iterator opened after the calls can be advanced. -/
theorem well_behaved_rotated :
    ∃ it : Iterator, Iterating sampleConfig rotated it [] ∧
      ∃ it' r e', (StoreM.advance it).run.run rotated.engine = (.ok (it', r), e') := by
  obtain ⟨R, h⟩ := reachable_rotated.faithful rfl (.inr rfl)
  have hopen := Iterating.opened reachable_rotated h.mounted
  exact ⟨_, hopen, (Iterating.well_behaved rfl (.inr rfl) hopen).1⟩

end Session

end NorStore
