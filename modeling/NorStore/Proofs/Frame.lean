import NorStore.Proofs.Iterate

/-!
# Reading leaves the store as it is

An action *keeps* a relation between states (`Keeps`) when the state after it is related to the
state before, whatever it answers. Pure steps and faults keep every reflexive relation, and
binding and catching keep every transitive one, so a relation kept by the primitives an action
calls is kept by the action; a recursion keeps it by induction on its fuel.

For the store the relation is `Engine.Reads`: the store is the same and the part differs at
most in its count of reads. Reading the part keeps it, and so walking the table, advancing an
iterator and listing the live keys only read, on every engine and whatever the part holds
(`StoreM.keys_onlyReads`); for a faithful session, listing the keys gives each live key once
(`Session.Faithful.keys`).
-/

namespace NorStore

section Keeps

variable {ε σ α β : Type} {r : σ → σ → Prop}

/-- Whatever `act` answers, the state after it is related by `r` to the state before. -/
def Keeps (r : σ → σ → Prop) (act : ExceptT ε (StateM σ) α) : Prop :=
  ∀ s, r s (act.run.run s).2

theorem Keeps.pure (hr : ∀ s, r s s) (v : α) : Keeps (ε := ε) r (pure v) :=
  fun s => hr s

theorem Keeps.throw (hr : ∀ s, r s s) (f : ε) : Keeps r (throw f : ExceptT ε (StateM σ) α) :=
  fun s => hr s

theorem Keeps.bind (ht : ∀ s t u, r s t → r t u → r s u) {x : ExceptT ε (StateM σ) α}
    {f : α → ExceptT ε (StateM σ) β} (hx : Keeps r x) (hf : ∀ a, Keeps r (f a)) :
    Keeps r (x >>= f) := by
  intro s
  rw [run_bind]
  cases hrun : (x.run.run s).1 with
  | ok a => exact ht _ _ _ (hx s) (hf a _)
  | error f => exact hx s

theorem Keeps.tryCatch (ht : ∀ s t u, r s t → r t u → r s u) {x : ExceptT ε (StateM σ) α}
    {h : ε → ExceptT ε (StateM σ) α} (hx : Keeps r x) (hh : ∀ f, Keeps r (h f)) :
    Keeps r (tryCatch x h) := by
  intro s
  rcases hrun : x.run.run s with ⟨res, t⟩
  have hst : r s t := by simpa [hrun] using hx s
  cases res with
  | ok v => rw [run_tryCatch_ok hrun]; exact hst
  | error f => rw [run_tryCatch_error hrun]; exact ht _ _ _ hst (hh f t)

end Keeps

/-! ## Reading the part -/

namespace Flash.Chip

/-- A read changes a part at most in its count of reads. -/
theorem read_chip (start length : Nat) (c : Chip) :
    ∃ n, ((read start length).run.run c).2 = { c with reads := n } := by
  by_cases hp : c.powerLost = true
  · have hc : ((read start length).run.run c).2 = c := by
      simp only [read, run_bind, run_monadGet, hp, if_true, fail, run_throw]
    exact ⟨c.reads, hc⟩
  · cases hchk : c.geometry.check start length 1 with
    | error f =>
      have hc : ((read start length).run.run c).2 = c := by
        simp only [read, run_bind, run_monadGet, hp, Bool.false_eq_true, if_false, checked, hchk,
          run_throw]
      exact ⟨c.reads, hc⟩
    | ok u =>
      exact ⟨c.reads + 1, by simp only [read, run_bind, run_monadGet, hp, Bool.false_eq_true,
        if_false, checked, hchk, run_set, run_pure]⟩

end Flash.Chip

namespace StoreM

/-- Only reading: the store stays and the part changes at most in its count of reads. -/
abbrev OnlyReads (act : StoreM α) : Prop := Keeps Engine.Reads act

variable {α β : Type}

theorem OnlyReads.pure (v : α) : OnlyReads (pure v) := Keeps.pure Engine.Reads.refl v

theorem OnlyReads.throw (f : Fault) : OnlyReads (throw f : StoreM α) :=
  Keeps.throw Engine.Reads.refl f

theorem OnlyReads.bind {x : StoreM α} {f : α → StoreM β} (hx : OnlyReads x)
    (hf : ∀ a, OnlyReads (f a)) : OnlyReads (x >>= f) :=
  Keeps.bind (r := Engine.Reads) (fun _ _ _ => Engine.Reads.trans) hx hf

theorem OnlyReads.tryCatch {x : StoreM α} {h : Fault → StoreM α} (hx : OnlyReads x)
    (hh : ∀ f, OnlyReads (h f)) : OnlyReads (tryCatch x h) :=
  Keeps.tryCatch (r := Engine.Reads) (fun _ _ _ => Engine.Reads.trans) hx hh

theorem store_onlyReads : OnlyReads store := fun e => by
  rw [run_store]
  exact Engine.Reads.refl e

theorem read_onlyReads (a : Address) (n : Nat) : OnlyReads (read a n) := by
  unfold read
  refine store_onlyReads.bind fun s => OnlyReads.tryCatch ?_ fun f => OnlyReads.throw _
  intro e
  obtain ⟨m, hm⟩ := Flash.Chip.read_chip (s.physical a).toNat n e.rig.chip
  rw [run_onChip, hm]
  exact ⟨rfl, rfl⟩

theorem readSlot_onlyReads (a : Address) : OnlyReads (readSlot a) := by
  unfold readSlot
  exact store_onlyReads.bind fun s => (read_onlyReads _ _).bind fun raw => OnlyReads.pure _

theorem recoverNewest_go_onlyReads (s : Store) :
    ∀ (fuel : Nat) (best top dataEnd : Address),
      OnlyReads (recoverNewest.go s fuel best top dataEnd) := by
  intro fuel
  induction fuel with
  | zero => intro best top dataEnd; exact OnlyReads.pure _
  | succ fuel ih =>
    intro best top dataEnd
    unfold recoverNewest.go
    -- each round reads one slot and either stops or goes on one slot down
    split
    · exact OnlyReads.pure _
    · refine (readSlot_onlyReads top).bind fun slot => ?_
      dsimp only
      -- whatever the slot holds, the scan stops or goes on one slot down
      split <;>
      · refine (OnlyReads.pure _).bind fun p => ?_
        obtain ⟨best', dataEnd'⟩ := p
        dsimp only
        split
        · exact OnlyReads.pure _
        · exact ih _ _ _

theorem recoverNewest_onlyReads (addr : Address) : OnlyReads (recoverNewest addr) := by
  unfold recoverNewest
  exact store_onlyReads.bind fun s => recoverNewest_go_onlyReads s _ _ _ _

theorem stepBack_onlyReads (addr : Address) : OnlyReads (stepBack addr) := by
  unfold stepBack
  refine (readSlot_onlyReads addr).bind fun slot => store_onlyReads.bind fun s => ?_
  dsimp only
  split
  · exact OnlyReads.pure _
  -- past a sector's last slot, the walk reads the close slot of the sector before
  refine (readSlot_onlyReads _).bind fun close => ?_
  split
  · exact OnlyReads.pure _
  · split
    · exact OnlyReads.pure _
    · exact (recoverNewest_onlyReads _).bind fun _ => OnlyReads.pure _
  · exact (recoverNewest_onlyReads _).bind fun _ => OnlyReads.pure _

theorem Walker.next_onlyReads (w : Walker) : OnlyReads w.next := by
  unfold Walker.next
  split
  · exact OnlyReads.throw _
  · refine (stepBack_onlyReads _).bind fun p => ?_
    obtain ⟨slot, addr⟩ := p
    exact OnlyReads.pure _

theorem Walker.done_onlyReads (w : Walker) : OnlyReads w.done := by
  unfold Walker.done
  exact store_onlyReads.bind fun _ => OnlyReads.pure _

theorem advance_go_onlyReads : ∀ (fuel : Nat) (it : Iterator), OnlyReads (advance.go fuel it) := by
  intro fuel
  induction fuel with
  | zero => intro it; exact OnlyReads.pure _
  | succ fuel ih =>
    intro it
    unfold advance.go
    refine (Walker.next_onlyReads _).bind fun p => ?_
    obtain ⟨slot, here, w⟩ := p
    dsimp only
    -- wherever the advance does not stop, it asks whether the walk is over and goes on
    have hon : ∀ it' : Iterator, OnlyReads (do
        let back ← w.done
        if back = true then pure (it'.finish, .error (.kind .notFound)) else advance.go fuel it') :=
      fun it' => (Walker.done_onlyReads w).bind fun back => by
        split
        · exact OnlyReads.pure _
        · exact ih _
    split
    · split
      · split
        · exact OnlyReads.pure _
        · exact hon _
      · exact hon _
    · exact hon _

theorem advance_onlyReads (it : Iterator) : OnlyReads (advance it) := by
  unfold advance
  split
  · exact OnlyReads.pure _
  · exact (advance_go_onlyReads _ _).tryCatch fun _ => OnlyReads.pure _

theorem keys_go_onlyReads :
    ∀ (fuel : Nat) (it : Iterator) (acc : List ByteArray), OnlyReads (keys.go fuel it acc) := by
  intro fuel
  induction fuel with
  | zero => intro it acc; exact OnlyReads.pure _
  | succ fuel ih =>
    intro it acc
    unfold keys.go
    refine (advance_onlyReads it).bind fun p => ?_
    obtain ⟨it', r⟩ := p
    dsimp only
    -- the advance ends the listing, or gives the next key and the listing goes on
    split
    · split
      · exact OnlyReads.pure _
      · exact OnlyReads.throw _
    · split
      · exact ih _ _
      · exact OnlyReads.throw _

/-- Listing the live keys only reads, whatever the part holds. -/
theorem keys_onlyReads : OnlyReads keys := by
  unfold keys
  refine OnlyReads.bind ?_ fun it => keys_go_onlyReads _ _ _
  unfold iterator
  refine store_onlyReads.bind fun s => ?_
  split
  · exact OnlyReads.throw _
  · exact OnlyReads.pure _

end StoreM

/-! ## Listing the keys of a faithful session -/

namespace Session

variable {c : Config} {s : Session} {R : Ring}

/-- Listing the keys of a faithful session only reads, and gives each key the client expects to
hold a value once and no other; only when the walk limit is short of two rounds of the table may
it fail instead, as corrupt. -/
theorem Faithful.keys (hc : c.Usable) (hpol : Flash.Polar c.eraseValue) (h : s.Faithful c R) :
    ∃ (ks : List ByteArray) (f : Fault) (e' : Engine),
      StoreM.keys.run.run s.engine = (if f.is .notFound then .ok ks else .error f, e') ∧
      s.engine.Reads e' ∧ ks.Nodup ∧ (∀ key, key ∈ ks ↔ s.expected key ≠ none) ∧
      (f = .kind .notFound ∨
        s.engine.store.walkLimit < 2 * (R.records.length + 1) ∧ f.is .corrupt) := by
  obtain ⟨-, infos, f, -, hnodup, hmem, -, hf, e', hkeys⟩ := h.iterator_drains hc hpol
  have hreads := StoreM.keys_onlyReads s.engine
  rw [hkeys] at hreads
  exact ⟨infos.map (·.key), f, e', hkeys, hreads, hnodup, hmem, hf⟩

end Session

end NorStore
