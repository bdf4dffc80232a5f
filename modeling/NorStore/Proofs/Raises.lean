import NorStore.Proofs.Run

/-!
# Which faults an operation can raise

An action *raises only* faults of a kind (`Raises`) when every fault it can end with, started
from any state, has that kind. Pure steps raise nothing, a thrown fault raises itself, a bind
raises what either side does, and a handler sees only the faults of the action it guards; so
the faults of an action are read off the actions it calls, and a recursion's by induction on its
fuel. Kinds are given as the classes a fault belongs to (`RaisesOnly`, through `Fault.kinds`).

*The part.* A flash part fails only as a part does: out of range, unaligned, write protected,
without power, or programming bits that are not erased (`FaultKind.device`). Reading, writing
and erasing raise nothing else, and neither does the store's own access to the part, which
wraps the part's fault without changing its classes (`Fault.kinds_deviceFault`).

*The table.* Walking the allocation table adds one class, a corrupt table, for a walk that does
not end or an entry that overlaps its data (`FaultKind.table`). Collecting a sector, recovering
the cursors, skipping orphaned data and redoing a cut collection raise nothing more
(`collect_raises`, `recoverTable_raises`, `finishCollection_raises`), and so neither does
starting up once the active sector is found (`startup_raises_of_located`). In particular no
step after locating the active sector says that every sector is closed.
-/

namespace NorStore

section Raises

variable {ε σ α β : Type} {P Q : ε → Prop}

/-- Every fault `act` can end with, started from any state, satisfies `P`. -/
def Raises (P : ε → Prop) (act : ExceptT ε (StateM σ) α) : Prop :=
  ∀ s f, (act.run.run s).1 = .error f → P f

theorem Raises.mono {act : ExceptT ε (StateM σ) α} (h : Raises P act) (hPQ : ∀ f, P f → Q f) :
    Raises Q act :=
  fun s f hf => hPQ f (h s f hf)

theorem Raises.pure (v : α) : Raises (σ := σ) P (pure v) :=
  fun _ _ h => nomatch h

theorem Raises.throw {f : ε} (hf : P f) : Raises P (throw f : ExceptT ε (StateM σ) α) := by
  intro s g h
  cases h
  exact hf

theorem Raises.get : Raises P (MonadState.get : ExceptT ε (StateM σ) σ) :=
  fun _ _ h => nomatch h

theorem Raises.set (t : σ) : Raises P (set t : ExceptT ε (StateM σ) PUnit) :=
  fun _ _ h => nomatch h

theorem Raises.bind {x : ExceptT ε (StateM σ) α} {f : α → ExceptT ε (StateM σ) β}
    (hx : Raises P x) (hf : ∀ a, Raises P (f a)) : Raises P (x >>= f) := by
  intro s g h
  rw [run_bind] at h
  rcases hrun : x.run.run s with ⟨r, t⟩
  rw [hrun] at h
  cases r with
  | ok a => exact hf a t g h
  | error g' =>
    cases h
    exact hx s g (by rw [hrun])

/-- A fault ends the action: what would follow it is never run. -/
theorem Raises.throw_bind {f : ε} {k : α → ExceptT ε (StateM σ) β} (hf : P f) :
    Raises P (MonadExcept.throw f >>= k) := by
  intro s g h
  rw [run_bind, run_throw] at h
  cases h
  exact hf

/-- A handler sees only the faults of the action it guards. -/
theorem Raises.tryCatch {x : ExceptT ε (StateM σ) α} {h : ε → ExceptT ε (StateM σ) α}
    (hx : Raises Q x) (hh : ∀ f, Q f → Raises P (h f)) : Raises P (tryCatch x h) := by
  intro s g hg
  rcases hrun : x.run.run s with ⟨r, t⟩
  cases r with
  | ok v => rw [run_tryCatch_ok hrun] at hg; cases hg
  | error f =>
    rw [run_tryCatch_error hrun] at hg
    exact hh f (hx s f (by rw [hrun])) t g hg

end Raises

/-- Every fault `act` can end with belongs only to classes of `K`. -/
abbrev RaisesOnly {σ α : Type} (K : List FaultKind) (act : ExceptT Fault (StateM σ) α) : Prop :=
  Raises (fun f => f.kinds ⊆ K) act

namespace FaultKind

/-- The classes of fault a flash part raises by itself. -/
def device : List FaultKind :=
  [.outOfRange, .unaligned, .writeProtected, .powerLoss, .notErased]

/-- The classes of fault reading and repairing the allocation table raise: the part's own, and
a corrupt table. -/
def table : List FaultKind :=
  .corrupt :: device

theorem device_subset_table : device ⊆ table :=
  List.subset_cons_self _ _

/-- A fault of a single class the part raises. -/
theorem kind_device {k : FaultKind} (hk : k ∈ device) : (Fault.kind k).kinds ⊆ device := by
  simpa [Fault.kinds] using hk

end FaultKind

/-- What raises only the part's own faults raises only those of the table. -/
theorem Raises.toTable {σ α : Type} {act : ExceptT Fault (StateM σ) α}
    (h : RaisesOnly FaultKind.device act) : RaisesOnly FaultKind.table act :=
  h.mono fun _ hf => List.Subset.trans hf FaultKind.device_subset_table

namespace Flash

open Chip

theorem Geometry.check_raises {g : Geometry} {start length unit : Nat} {f : Fault}
    (h : g.check start length unit = .error f) : f.kinds ⊆ FaultKind.device := by
  unfold Geometry.check at h
  split at h
  · cases h; simp [Fault.kinds, FaultKind.device]
  · split at h
    · cases h; simp [Fault.kinds, FaultKind.device]
    · cases h

theorem Chip.checked_raises {g : Geometry} {start length unit : Nat} :
    RaisesOnly FaultKind.device (checked (g.check start length unit)) := by
  unfold checked
  split
  · exact Raises.pure _
  · rename_i f hf
    exact Raises.throw (Geometry.check_raises hf)

theorem Chip.read_raises (start length : Nat) :
    RaisesOnly FaultKind.device (read start length) := by
  unfold read fail
  refine Raises.get.bind fun c => ?_
  dsimp only
  split
  · exact Raises.throw_bind (FaultKind.kind_device (by decide))
  · exact checked_raises.bind fun _ => (Raises.set _).bind fun _ => Raises.pure _

theorem Chip.write_raises (start : Nat) (data : ByteArray) :
    RaisesOnly FaultKind.device (write start data) := by
  unfold write fail
  refine Raises.get.bind fun c => ?_
  dsimp only
  split
  · exact Raises.throw_bind (FaultKind.kind_device (by decide))
  split
  · exact Raises.throw_bind (FaultKind.kind_device (by decide))
  refine checked_raises.bind fun _ => ?_
  -- programming ends alike on every path: the part is updated and a cut reports lost power
  have hlast : ∀ (t : Chip) (b : Bool), RaisesOnly FaultKind.device
      ((set t : ChipM PUnit) >>= fun _ =>
        if b = true then throw (.kind .powerLoss) else pure ()) := by
    intro t b
    refine (Raises.set t).bind fun _ => ?_
    split
    · exact Raises.throw (FaultKind.kind_device (by decide))
    · exact Raises.pure _
  split
  · split
    · -- a strict part refuses to program over bits that are not erased
      exact Raises.throw_bind (by simp [Fault.kinds, FaultKind.device])
    · exact hlast _ _
  · exact hlast _ _

theorem Chip.erase_raises (start length : Nat) :
    RaisesOnly FaultKind.device (erase start length) := by
  unfold erase fail
  refine Raises.get.bind fun c => ?_
  dsimp only
  split
  · exact Raises.throw_bind (FaultKind.kind_device (by decide))
  split
  · exact Raises.throw_bind (FaultKind.kind_device (by decide))
  refine checked_raises.bind fun _ => ?_
  split
  · -- a cut armed at zero takes the power before the sector is blank
    exact (Raises.set _).bind fun _ => Raises.throw_bind (FaultKind.kind_device (by decide))
  · exact Raises.set _

theorem Chip.setProtection_raises (on : Bool) : RaisesOnly FaultKind.device (setProtection on) := by
  unfold setProtection fail
  refine Raises.get.bind fun c => ?_
  dsimp only
  split
  · exact Raises.throw_bind (FaultKind.kind_device (by decide))
  · exact Raises.set _

end Flash

/-- A failed device access belongs to the classes of the device's fault. -/
@[simp] theorem Fault.kinds_deviceFault (op : String) (a : Address) (f : Fault) :
    (StoreM.deviceFault op a f).kinds = f.kinds := by
  simp only [StoreM.deviceFault, Fault.kinds]

namespace StoreM

/-- Lifting write protection around a device change adds no class of fault. -/
theorem unprotected_raises {act : Flash.ChipM Unit} (h : RaisesOnly FaultKind.device act) :
    RaisesOnly FaultKind.device (unprotected act) := by
  unfold unprotected
  refine (Flash.Chip.setProtection_raises false).bind fun _ => ?_
  refine Raises.bind (Raises.tryCatch h fun f hf => ?_) fun _ =>
    Flash.Chip.setProtection_raises true
  exact (Raises.tryCatch (Flash.Chip.setProtection_raises true) fun _ _ => Raises.pure _).bind
    fun _ => Raises.throw hf

variable {α : Type} {P : Fault → Prop}

/-! ## Steps that never fail -/

theorem store_raises : Raises P store :=
  fun _ _ h => nomatch h

theorem modifyStore_raises (g : Store → Store) : Raises P (modifyStore g) :=
  fun _ _ h => nomatch h

theorem logAt_raises (l : Log.Level) (msg : String) (fs : List Log.Field) :
    Raises P (logAt l msg fs) :=
  fun _ _ h => nomatch h

theorem meter_raises (g : Metrics.Registry → String → Metrics.Registry) : Raises P (meter g) :=
  fun _ _ h => nomatch h

theorem onChip_raises {act : Flash.ChipM α} (h : Raises P act) : Raises P (onChip act) := by
  intro e f hf
  rw [run_onChip] at hf
  exact h _ f hf

/-! ## The part's own faults -/

theorem read_raises (a : Address) (n : Nat) : RaisesOnly FaultKind.device (read a n) := by
  unfold read
  exact store_raises.bind fun s => Raises.tryCatch (onChip_raises (Flash.Chip.read_raises _ _))
    fun _ hf => Raises.throw (by rwa [Fault.kinds_deviceFault])

theorem program_raises (a : Address) (p : ByteArray) :
    RaisesOnly FaultKind.device (program a p) := by
  unfold program
  split
  · exact Raises.pure _
  refine store_raises.bind fun s => Raises.tryCatch (onChip_raises (unprotected_raises ?_))
    fun _ hf => (logAt_raises _ _ _).bind fun _ => Raises.throw (by rwa [Fault.kinds_deviceFault])
  -- the whole write blocks, then the padded rest
  dsimp only
  split
  · exact (Flash.Chip.write_raises _ _).bind fun _ => by
      split
      · exact Flash.Chip.write_raises _ _
      · exact Raises.pure _
  · split
    · exact Flash.Chip.write_raises _ _
    · exact Raises.pure _

theorem writeData_raises (p : ByteArray) : RaisesOnly FaultKind.device (writeData p) := by
  unfold writeData
  exact store_raises.bind fun _ => (modifyStore_raises _).bind fun _ => program_raises _ _

theorem writeEntry_raises (en : Entry) : RaisesOnly FaultKind.device (writeEntry en) := by
  unfold writeEntry
  exact store_raises.bind fun _ => (modifyStore_raises _).bind fun _ => program_raises _ _

theorem readSlot_raises (a : Address) : RaisesOnly FaultKind.device (readSlot a) := by
  unfold readSlot
  exact store_raises.bind fun _ => (read_raises _ _).bind fun _ => Raises.pure _

theorem isErased_go_raises (ev : UInt8) :
    ∀ (fuel : Nat) (a : Address) (left : UInt32),
      RaisesOnly FaultKind.device (isErased.go ev fuel a left) := by
  intro fuel
  induction fuel with
  | zero => intro a left; exact Raises.pure _
  | succ fuel ih =>
    intro a left
    unfold isErased.go
    split
    · exact Raises.pure _
    · refine (read_raises _ _).bind fun got => ?_
      split
      · exact Raises.pure _
      · exact ih _ _

theorem isErased_raises (a : Address) (n : UInt32) :
    RaisesOnly FaultKind.device (isErased a n) := by
  unfold isErased
  exact store_raises.bind fun _ => isErased_go_raises _ _ _ _

theorem copyData_go_raises :
    ∀ (fuel : Nat) (a : Address) (left : UInt32),
      RaisesOnly FaultKind.device (copyData.go fuel a left) := by
  intro fuel
  induction fuel with
  | zero => intro a left; exact Raises.pure _
  | succ fuel ih =>
    intro a left
    unfold copyData.go
    split
    · exact Raises.pure _
    · exact (read_raises _ _).bind fun _ => (writeData_raises _).bind fun _ => ih _ _

theorem copyData_raises (a : Address) (n : UInt32) : RaisesOnly FaultKind.device (copyData a n) :=
  copyData_go_raises _ _ _

theorem eraseSector_raises (a : Address) : RaisesOnly FaultKind.device (eraseSector a) := by
  unfold eraseSector
  refine store_raises.bind fun s => (isErased_raises _ _).bind fun b => ?_
  dsimp only
  split
  · exact Raises.pure _
  · refine (logAt_raises _ _ _).bind fun _ => Raises.bind ?_ fun _ => meter_raises _
    exact Raises.tryCatch (onChip_raises (unprotected_raises (Flash.Chip.erase_raises _ _)))
      fun _ hf => (logAt_raises _ _ _).bind fun _ => Raises.throw (by rwa [Fault.kinds_deviceFault])

/-! ## Walking and repairing the table -/

/-- A fault that says the table is corrupt. -/
theorem corrupt_raises {op : String} {key : ByteArray} {a : Option Address} {ctx : String} :
    (Fault.store op key a ctx (some (.kind .corrupt))).kinds ⊆ FaultKind.table := by
  simp [Fault.kinds, FaultKind.table]

theorem recoverNewest_go_raises (s : Store) :
    ∀ (fuel : Nat) (best top dataEnd : Address),
      RaisesOnly FaultKind.device (recoverNewest.go s fuel best top dataEnd) := by
  intro fuel
  induction fuel with
  | zero => intro best top dataEnd; exact Raises.pure _
  | succ fuel ih =>
    intro best top dataEnd
    unfold recoverNewest.go
    split
    · exact Raises.pure _
    · refine (readSlot_raises top).bind fun slot => ?_
      dsimp only
      split <;>
      · refine (Raises.pure _).bind fun p => ?_
        obtain ⟨best', dataEnd'⟩ := p
        dsimp only
        split
        · exact Raises.pure _
        · exact ih _ _ _

theorem recoverNewest_raises (addr : Address) :
    RaisesOnly FaultKind.device (recoverNewest addr) := by
  unfold recoverNewest
  exact store_raises.bind fun s => recoverNewest_go_raises s _ _ _ _

theorem stepBack_raises (addr : Address) : RaisesOnly FaultKind.device (stepBack addr) := by
  unfold stepBack
  refine (readSlot_raises addr).bind fun slot => store_raises.bind fun s => ?_
  dsimp only
  split
  · exact Raises.pure _
  refine (readSlot_raises _).bind fun close => ?_
  split
  · exact Raises.pure _
  · split
    · exact Raises.pure _
    · exact (recoverNewest_raises _).bind fun _ => Raises.pure _
  · exact (recoverNewest_raises _).bind fun _ => Raises.pure _

theorem Walker.next_raises (w : Walker) : RaisesOnly FaultKind.table w.next := by
  unfold Walker.next
  split
  · exact Raises.throw corrupt_raises
  · exact (stepBack_raises _).toTable.bind fun _ => Raises.pure _

theorem Walker.done_raises (w : Walker) : Raises P w.done := by
  unfold Walker.done
  exact store_raises.bind fun _ => Raises.pure _

theorem findNewest_go_raises (k : Vector UInt8 24) :
    ∀ (fuel : Nat) (w : Walker), RaisesOnly FaultKind.table (findNewest.go k fuel w) := by
  intro fuel
  induction fuel with
  | zero => intro w; exact Raises.pure _
  | succ fuel ih =>
    intro w
    unfold findNewest.go
    refine (Walker.next_raises w).bind fun p => ?_
    obtain ⟨slot, here, w'⟩ := p
    dsimp only
    -- past the entry of the key, the walk asks whether it is over and goes on
    have hon : RaisesOnly FaultKind.table (do
        if (← w'.done) = true then pure none else findNewest.go k fuel w') :=
      (Walker.done_raises w').bind fun back => by
        split
        · exact Raises.pure _
        · exact ih _
    split
    · split
      · exact Raises.pure _
      · exact hon
    · exact hon

theorem findNewest_raises (k : Vector UInt8 24) : RaisesOnly FaultKind.table (findNewest k) := by
  unfold findNewest
  exact store_raises.bind fun _ => findNewest_go_raises _ _ _

theorem relocate_raises (here : Address) (slot : Slot) :
    RaisesOnly FaultKind.table (relocate here slot) := by
  unfold relocate
  split
  · split
    · exact Raises.pure _
    refine (findNewest_raises _).bind fun found => ?_
    split
    · split
      · exact Raises.pure _
      · exact store_raises.bind fun _ => (copyData_raises _ _).toTable.bind fun _ =>
          (writeEntry_raises _).toTable.bind fun _ => Raises.pure _
    · exact Raises.pure _
  · exact Raises.pure _

theorem collect_go_raises (stop : Address) :
    ∀ (fuel : Nat) (here : Address) (n : Nat),
      RaisesOnly FaultKind.table (collect.go stop fuel here n) := by
  intro fuel
  induction fuel with
  | zero => intro here n; exact Raises.pure _
  | succ fuel ih =>
    intro here n
    unfold collect.go
    refine (stepBack_raises here).toTable.bind fun p => ?_
    obtain ⟨slot, next⟩ := p
    dsimp only
    refine (relocate_raises here slot).bind fun moved => ?_
    split
    · exact Raises.pure _
    · exact ih _ _

theorem collect_raises : RaisesOnly FaultKind.table collect := by
  unfold collect
  refine store_raises.bind fun s => (readSlot_raises _).toTable.bind fun close => ?_
  dsimp only
  split
  · exact (eraseSector_raises _).toTable.bind fun _ => Raises.pure _
  -- a closed sector is visited from the entry its close slot names, or from the newest entry
  -- searched for, and then erased
  split
  split
  all_goals refine Raises.bind ?_ fun _ => (collect_go_raises _ _ _ _).bind fun _ =>
    (logAt_raises _ _ _).bind fun _ => (meter_raises _).bind fun _ => (eraseSector_raises _).toTable
  exacts [Raises.pure _, (recoverNewest_raises _).toTable, (recoverNewest_raises _).toTable]

theorem recoverTable_go_raises (base : Address) :
    ∀ (fuel torn : Nat), RaisesOnly FaultKind.table (recoverTable.go base fuel torn) := by
  intro fuel
  induction fuel with
  | zero => intro torn; exact Raises.pure _
  | succ fuel ih =>
    intro torn
    unfold recoverTable.go
    refine store_raises.bind fun s => ?_
    split
    · exact Raises.pure _
    refine (readSlot_raises _).toTable.bind fun slot => ?_
    dsimp only
    -- past each slot the walk stops at the sector's lowest slot or goes on one slot down
    have hon : ∀ t, RaisesOnly FaultKind.table (do
        let s ← store
        if s.ateCursor.offset < s.entrySize then pure t
        else do
          modifyStore fun s => { s with ateCursor := s.ateCursor.minus s.entrySize }
          recoverTable.go base fuel t) := fun t =>
      store_raises.bind fun s => by
        split
        · exact Raises.pure _
        · exact (modifyStore_raises _).bind fun _ => ih t
    split
    · exact Raises.pure _
    split
    · refine (modifyStore_raises _).bind fun _ => ?_
      split
      · exact Raises.throw_bind corrupt_raises
      · exact hon _
    · exact hon _

theorem recoverTable_raises (top : Address) : RaisesOnly FaultKind.table (recoverTable top) := by
  unfold recoverTable
  exact store_raises.bind fun _ => recoverTable_go_raises _ _ _

theorem skipOrphans_go_raises : ∀ fuel, RaisesOnly FaultKind.device (skipOrphans.go fuel) := by
  intro fuel
  induction fuel with
  | zero => exact Raises.pure _
  | succ fuel ih =>
    unfold skipOrphans.go
    refine store_raises.bind fun s => ?_
    split
    · exact Raises.pure _
    · refine (isErased_raises _ _).bind fun b => ?_
      split
      · exact Raises.pure _
      · exact (modifyStore_raises _).bind fun _ => ih

theorem skipOrphans_raises : RaisesOnly FaultKind.device skipOrphans := by
  unfold skipOrphans
  exact store_raises.bind fun _ => skipOrphans_go_raises _

theorem finishCollection_raises : RaisesOnly FaultKind.table finishCollection := by
  unfold finishCollection
  refine store_raises.bind fun s => (isErased_raises _ _).toTable.bind fun b => ?_
  split
  · exact (logAt_raises _ _ _).bind fun _ => (meter_raises _).bind fun _ =>
      (eraseSector_raises _).toTable.bind fun _ => (modifyStore_raises _).bind fun _ =>
        collect_raises
  · exact Raises.pure _

/-- Once the active sector is found, starting up fails only because the part failed or the
table is corrupt. -/
theorem startup_raises_of_located {e e' : Engine} {addr : Address}
    (h : locateActive.run.run e = (.ok addr, e')) :
    ∀ f, (startup.run.run e).1 = .error f → f.kinds ⊆ FaultKind.table := by
  intro f hf
  unfold startup at hf
  rw [run_bind, h] at hf
  refine (?_ : RaisesOnly FaultKind.table _) e' f hf
  refine (modifyStore_raises _).bind fun _ => (recoverTable_raises addr).bind fun torn => ?_
  dsimp only
  -- torn slots are only logged; the orphaned data is skipped and a cut collection redone
  split
  on_goal 1 => refine (logAt_raises _ _ _).bind fun _ => (meter_raises _).bind fun _ => ?_
  all_goals
    refine store_raises.bind fun _ => skipOrphans_raises.toTable.bind fun _ =>
      store_raises.bind fun s => ?_
    split
    · exact (logAt_raises _ _ _).bind fun _ => (meter_raises _).bind fun _ =>
        finishCollection_raises
    · exact finishCollection_raises

end StoreM

end NorStore
