import NorStore.Proofs.Cells
import NorStore.Bench.Device

/-!
# Programming a flash part and reading it back

A bench drives a part with device steps (`Bench.DeviceStep`). This module says what each
operation of the part does in each of its cases, and from that what a run of steps keeps.

*Operations.* An operation checks power first, then write protection, then range and blocks,
and a strict write then the bytes in its way; a failed check leaves the part as it was
(`write_state`, `erase_state`). A write that passes every check (`Admits`) programs as much of
its data as an armed power budget lets through (`write_admitted`, `programLength`).

*Runs.* Every step keeps the geometry and one cell per byte of it (`Sized`), which a new part
has (`create_sized`). A step changes no byte it does not touch (`DeviceStep.Touches`): the range
it writes, the range it erases together with the erase's first block (a torn erase blanks the
first half of that block whatever the length), or the byte it flips
(`DeviceStep.get!_runAll_of_not_touches`); reading a range no step of a run touches gives what
it held before the run (`DeviceStep.read_runAll_of_not_touches`).

*Reading back.* On a part with power and no cut armed, a write in range and on write blocks
onto erased bytes succeeds. Until a step touches those bytes, reading them back gives each byte
written programmed over the erase value while power is on, which for the erase values `0x00` and
`0xFF` is the byte written; with power lost the read fails. A strict write fails as not erased,
changing nothing, exactly when some byte in its way is neither erased nor already the byte to
write (`program_readBack`).
-/

namespace ByteArray

/-- Two arrays of one size that agree byte by byte are equal. -/
theorem ext_get! {a b : ByteArray} (hs : a.size = b.size)
    (h : ∀ j < a.size, a.get! j = b.get! j) : a = b := by
  apply ext_toList
  apply List.ext_getElem (by rw [length_toList, length_toList, hs])
  intro j h1 h2
  rw [getElem_toList, getElem_toList, h j (by rwa [length_toList] at h1)]

end ByteArray

namespace NorStore

section Steps

variable {ε σ α β : Type}

theorem run_map (f : α → β) (x : ExceptT ε (StateM σ) α) (s : σ) :
    (f <$> x).run.run s = ((x.run.run s).1.map f, (x.run.run s).2) := by
  rw [ExceptT.run_map, StateT.run_map]
  rfl

theorem run_seqRight_pure (x : ExceptT ε (StateM σ) α) (v : β) (s : σ) :
    (x *> pure v).run.run s = ((x.run.run s).1.map fun _ => v, (x.run.run s).2) := by
  show (x >>= fun _ => pure v).run.run s = _
  rw [run_bind]
  rcases x.run.run s with ⟨r, t⟩
  cases r <;> rfl

end Steps

namespace Flash

/-- Programming a byte over itself leaves it, whatever the erase value. -/
@[simp] theorem program_self (erased b : UInt8) : program erased b b = b := by
  unfold program
  split
  · exact UInt8.and_self
  · exact UInt8.or_self

namespace Geometry

variable {g : Geometry} {start length unit : Nat}

theorem le_of_check (h : g.check start length unit = .ok ()) : start + length ≤ g.size := by
  unfold check at h
  split at h
  · cases h
  · omega

theorem check_ok_of_isOk (h : (g.check start length unit).isOk = true) :
    g.check start length unit = .ok () := by
  revert h
  cases g.check start length unit with
  | ok u => intro _; rfl
  | error f => intro h; cases h

/-- An access in range that covers whole units passes the check. -/
theorem check_eq_ok (hs : start + length ≤ g.size)
    (ha : unit ≤ 1 ∨ (start % unit = 0 ∧ length % unit = 0)) : g.check start length unit = .ok () := by
  unfold check
  rw [if_neg (by omega)]
  rcases ha with ha | ha
  · rw [if_neg (by simp; omega)]
  · rw [if_neg (by simp [ha.1, ha.2])]

end Geometry

namespace Chip

variable {c : Chip}

/-! ## One cell per byte -/

/-- The part holds one cell for each byte of its geometry. -/
def Sized (c : Chip) : Prop :=
  c.cells.size = c.geometry.size

theorem create_sized {g : Geometry} (h : create g = .ok c) : c.Sized := by
  unfold create at h
  cases hv : g.validate with
  | error f => rw [hv] at h; cases h
  | ok u =>
    rw [hv] at h
    cases h
    show (Array.replicate g.size g.eraseValue).size = g.size
    exact Array.size_replicate

/-! ## Operations, case by case -/

/-- Whether a program of `data` at `start` passes every check of `write`: power, write
protection, range and write blocks, and in strict mode no byte in the way. -/
def Admits (c : Chip) (start : Nat) (data : ByteArray) : Prop :=
  c.powerLost = false ∧ c.isProtected = false ∧
    (c.geometry.check start data.size c.geometry.writeBlock).isOk = true ∧
    (c.strict = true → c.firstConflict start data = none)

instance (c : Chip) (start : Nat) (data : ByteArray) : Decidable (c.Admits start data) :=
  inferInstanceAs (Decidable (_ ∧ _ ∧ _ ∧ _))

/-- Whether a program of `data` runs into an armed power cut. -/
def cutsOff (c : Chip) (data : ByteArray) : Bool :=
  decide (0 ≤ c.budget) && decide (c.budget < data.size)

/-- The bytes of `data` that a program gets through: all of them, or what is left of an armed
budget. -/
def programLength (c : Chip) (data : ByteArray) : Nat :=
  if c.cutsOff data then c.budget.toNat else data.size

theorem programLength_le (data : ByteArray) : c.programLength data ≤ data.size := by
  unfold programLength cutsOff
  split
  · rename_i h
    simp only [Bool.and_eq_true, decide_eq_true_eq] at h
    omega
  · exact Nat.le_refl _

theorem read_lost (start length : Nat) (hp : c.powerLost = true) :
    (read start length).run.run c = (.error (.kind .powerLoss), c) := by
  simp only [read, run_bind, run_monadGet, hp]
  rfl

theorem read_unchecked {start length : Nat} (hp : c.powerLost = false) {f : Fault}
    (hchk : c.geometry.check start length 1 = .error f) :
    (read start length).run.run c = (.error f, c) := by
  simp only [read, run_bind, run_monadGet, hp, hchk]
  rfl

theorem read_powered {start length : Nat} (hp : c.powerLost = false)
    (hs : start + length ≤ c.geometry.size) :
    (read start length).run.run c =
      (.ok (c.cells.extract start (start + length)), { c with reads := c.reads + 1 }) := by
  have hchk : c.geometry.check start length 1 = .ok () := by
    simp only [Geometry.check]
    rw [if_neg (by omega), if_neg (by simp)]
  simp only [read, run_bind, run_monadGet, hp, hchk]
  rfl

theorem write_lost (start : Nat) (data : ByteArray) (hp : c.powerLost = true) :
    (write start data).run.run c = (.error (.kind .powerLoss), c) := by
  simp only [write, run_bind, run_monadGet, hp]
  rfl

theorem write_protected (start : Nat) (data : ByteArray) (hp : c.powerLost = false)
    (hl : c.isProtected = true) :
    (write start data).run.run c = (.error (.kind .writeProtected), c) := by
  simp only [write, run_bind, run_monadGet, hp, hl]
  rfl

theorem write_unchecked {start : Nat} {data : ByteArray} (hp : c.powerLost = false)
    (hl : c.isProtected = false) {f : Fault}
    (hchk : c.geometry.check start data.size c.geometry.writeBlock = .error f) :
    (write start data).run.run c = (.error f, c) := by
  simp only [write, run_bind, run_monadGet, hp, hl, hchk]
  rfl

theorem write_conflict {start : Nat} {data : ByteArray} (hp : c.powerLost = false)
    (hl : c.isProtected = false)
    (hchk : c.geometry.check start data.size c.geometry.writeBlock = .ok ())
    (hs : c.strict = true) {i : Nat} (hi : c.firstConflict start data = some i) :
    (write start data).run.run c = (.error (.notErased (start + i)), c) := by
  simp only [write, run_bind, run_monadGet, hp, hl, hchk, hs, hi]
  rfl

/-- A write that passes its checks programs `programLength` bytes, takes them off an armed
budget and counts as a write; it loses power and fails when the budget cuts it off. -/
theorem write_admitted {start : Nat} {data : ByteArray} (h : c.Admits start data) :
    (write start data).run.run c =
      (if c.cutsOff data then .error (.kind .powerLoss) else .ok (),
        { c with cells := c.programmed start data (c.programLength data),
                 budget := if 0 ≤ c.budget then c.budget - c.programLength data else c.budget,
                 writes := c.writes + 1, powerLost := c.cutsOff data }) := by
  obtain ⟨hp, hl, hchk, hs⟩ := h
  simp only [write, run_bind, run_monadGet, hp, hl, Geometry.check_ok_of_isOk hchk, cutsOff,
    programLength, Bool.false_eq_true, if_false, Bool.false_or]
  -- in strict mode nothing is in the way, so both modes program alike
  cases hst : c.strict with
  | false =>
    by_cases hcut : (decide (0 ≤ c.budget) && decide (c.budget < data.size)) = true <;>
      simp only [hcut, Bool.false_eq_true, if_true, if_false] <;> rfl
  | true =>
    by_cases hcut : (decide (0 ≤ c.budget) && decide (c.budget < data.size)) = true <;>
      simp only [hcut, hs hst, Bool.false_eq_true, if_true, if_false] <;> rfl

/-- A write that fails a check fails and leaves the part as it was. -/
theorem write_refused {start : Nat} {data : ByteArray} (h : ¬ c.Admits start data) :
    ∃ f, (write start data).run.run c = (.error f, c) := by
  cases hp : c.powerLost
  · cases hl : c.isProtected
    · cases hchk : c.geometry.check start data.size c.geometry.writeBlock with
      | error f => exact ⟨f, write_unchecked hp hl hchk⟩
      | ok u =>
        cases hi : c.firstConflict start data with
        | none =>
          exact absurd ⟨hp, hl, by rw [hchk]; rfl, fun _ => hi⟩ h
        | some i =>
          cases hst : c.strict
          · exact absurd ⟨hp, hl, by rw [hchk]; rfl, fun hs => absurd hs (by rw [hst]; decide)⟩ h
          · exact ⟨_, write_conflict hp hl hchk hst hi⟩
    · exact ⟨_, write_protected start data hp hl⟩
  · exact ⟨_, write_lost start data hp⟩

theorem erase_lost (start length : Nat) (hp : c.powerLost = true) :
    (erase start length).run.run c = (.error (.kind .powerLoss), c) := by
  simp only [erase, run_bind, run_monadGet, hp]
  rfl

theorem erase_protected (start length : Nat) (hp : c.powerLost = false)
    (hl : c.isProtected = true) :
    (erase start length).run.run c = (.error (.kind .writeProtected), c) := by
  simp only [erase, run_bind, run_monadGet, hp, hl]
  rfl

theorem erase_unchecked {start length : Nat} (hp : c.powerLost = false)
    (hl : c.isProtected = false) {f : Fault}
    (hchk : c.geometry.check start length c.geometry.eraseBlock = .error f) :
    (erase start length).run.run c = (.error f, c) := by
  simp only [erase, run_bind, run_monadGet, hp, hl, hchk]
  rfl

/-- An erase started with an empty budget loses power; a torn one blanks the first half of its
first block before. -/
theorem erase_cut {start length : Nat} (hp : c.powerLost = false) (hl : c.isProtected = false)
    (hchk : c.geometry.check start length c.geometry.eraseBlock = .ok ()) (hb : c.budget = 0) :
    (erase start length).run.run c =
      (.error (.kind .powerLoss),
        { c with cells := if c.tornErase then c.blanked start (start + c.geometry.eraseBlock / 2)
                   else c.cells,
                 powerLost := true }) := by
  simp only [erase, run_bind, run_monadGet, hp, hl, hchk, hb]
  rfl

theorem erase_done {start length : Nat} (hp : c.powerLost = false) (hl : c.isProtected = false)
    (hchk : c.geometry.check start length c.geometry.eraseBlock = .ok ()) (hb : c.budget ≠ 0) :
    (erase start length).run.run c =
      (.ok (), { c with cells := c.blanked start (start + length)
                        wear := erasedWear c.wear c.geometry.eraseBlock start length }) := by
  have hz : (c.budget == 0) = false := by simpa using hb
  simp only [erase, run_bind, run_monadGet, hp, hl, hchk, hz]
  rfl

theorem setProtection_lost (on : Bool) (hp : c.powerLost = true) :
    (setProtection on).run.run c = (.error (.kind .powerLoss), c) := by
  simp only [setProtection, run_bind, run_monadGet, hp]
  rfl

/-! ## The part an operation leaves -/

theorem read_state (start length : Nat) :
    ((read start length).run.run c).2 = c ∨
      ((read start length).run.run c).2 = { c with reads := c.reads + 1 } := by
  rcases Bool.eq_false_or_eq_true c.powerLost with hp | hp
  · exact .inl (by rw [read_lost start length hp])
  · cases hchk : c.geometry.check start length 1 with
    | error f => exact .inl (by rw [read_unchecked hp hchk])
    | ok u => exact .inr (by rw [read_powered hp (Geometry.le_of_check hchk)])

theorem write_state (start : Nat) (data : ByteArray) :
    ((write start data).run.run c).2 = c ∨
      c.Admits start data ∧ ((write start data).run.run c).2 =
        { c with cells := c.programmed start data (c.programLength data),
                 budget := if 0 ≤ c.budget then c.budget - c.programLength data else c.budget,
                 writes := c.writes + 1, powerLost := c.cutsOff data } := by
  by_cases h : c.Admits start data
  · exact .inr ⟨h, by rw [write_admitted h]⟩
  · obtain ⟨f, hf⟩ := write_refused h
    exact .inl (by rw [hf])

theorem erase_state (start length : Nat) :
    ((erase start length).run.run c).2 = c ∨
      c.powerLost = false ∧ c.geometry.check start length c.geometry.eraseBlock = .ok () ∧
        c.budget = 0 ∧ ((erase start length).run.run c).2 =
          { c with cells := if c.tornErase then
                      c.blanked start (start + c.geometry.eraseBlock / 2) else c.cells,
                   powerLost := true } ∨
      c.powerLost = false ∧ c.geometry.check start length c.geometry.eraseBlock = .ok () ∧
        c.budget ≠ 0 ∧ ((erase start length).run.run c).2 =
          { c with cells := c.blanked start (start + length)
                   wear := erasedWear c.wear c.geometry.eraseBlock start length } := by
  rcases Bool.eq_false_or_eq_true c.powerLost with hp | hp
  · exact .inl (by rw [erase_lost start length hp])
  · cases hl : c.isProtected
    · cases hchk : c.geometry.check start length c.geometry.eraseBlock with
      | error f => exact .inl (by rw [erase_unchecked hp hl hchk])
      | ok u =>
        by_cases hb : c.budget = 0
        · exact .inr (.inl ⟨hp, rfl, hb, by rw [erase_cut hp hl hchk hb]⟩)
        · exact .inr (.inr ⟨hp, rfl, hb, by rw [erase_done hp hl hchk hb]⟩)
    · exact .inl (by rw [erase_protected start length hp hl])

theorem setProtection_state (on : Bool) :
    ((setProtection on).run.run c).2 = c ∨
      ((setProtection on).run.run c).2 = { c with locked := on } := by
  rcases Bool.eq_false_or_eq_true c.powerLost with hp | hp
  · exact .inl (by rw [setProtection_lost on hp])
  · exact .inr (by rw [setProtection_ok on hp])

end Chip

end Flash

/-! ## Runs of device steps -/

namespace Bench.DeviceStep

open Flash Chip

variable {c : Chip}

/-- The part a run of steps leaves. -/
def runAll (c : Chip) (steps : List DeviceStep) : Chip :=
  steps.foldl (fun c s => (s.run c).1) c

/-- Whether a step may change a byte of `[lo, hi)` on a part with erase blocks of `eb` bytes: a
write of bytes there, an erase of bytes there or of its first block, a bit flip there. -/
def Touches (eb lo hi : Nat) : DeviceStep → Prop
  | .write start data => start < hi ∧ lo < start + data.size
  | .erase start length => start < hi ∧ lo < start + max length eb
  | .corrupt position _ => lo ≤ position ∧ position < hi
  | _ => False

instance (eb lo hi : Nat) : (s : DeviceStep) → Decidable (s.Touches eb lo hi)
  | .write .. | .erase .. | .corrupt .. => inferInstanceAs (Decidable (_ ∧ _))
  | .read .. | .cut _ | .restore | .protect _ | .setStrict _ | .eraseCounts | .stats
    | .snapshot => isFalse id

theorem run_read_fst (start : Nat) (length : Option Nat) :
    ((DeviceStep.read start length).run c).1 =
      ((Chip.read start (length.getD (c.geometry.size - start))).run.run c).2 := by
  show ((DeviceReply.bytes <$> Chip.read start (length.getD (c.geometry.size - start)) :
    ChipM DeviceReply).run.run c).2 = _
  rw [run_map]

theorem run_write_fst (start : Nat) (data : ByteArray) :
    ((DeviceStep.write start data).run c).1 = ((Chip.write start data).run.run c).2 := by
  show ((Chip.write start data *> pure DeviceReply.unit).run.run c).2 = _
  rw [run_seqRight_pure]

theorem run_erase_fst (start length : Nat) :
    ((DeviceStep.erase start length).run c).1 = ((Chip.erase start length).run.run c).2 := by
  show ((Chip.erase start length *> pure DeviceReply.unit).run.run c).2 = _
  rw [run_seqRight_pure]

theorem run_protect_fst (on : Bool) :
    ((DeviceStep.protect on).run c).1 = ((setProtection on).run.run c).2 := by
  show ((setProtection on *> pure DeviceReply.unit).run.run c).2 = _
  rw [run_seqRight_pure]

theorem run_corrupt_fst (position : Nat) (mask : UInt8) :
    ((DeviceStep.corrupt position mask).run c).1 =
      if position < c.geometry.size then c.corrupt position mask else c := by
  by_cases h : position < c.geometry.size
  · simp only [DeviceStep.run, if_pos h]
  · simp only [DeviceStep.run, if_neg h]

/-- Every step keeps the geometry of the part. -/
theorem geometry_run (s : DeviceStep) : (s.run c).1.geometry = c.geometry := by
  cases s with
  | read start length =>
    rw [run_read_fst]
    rcases read_state (c := c) start _ with h | h <;> rw [h]
  | write start data =>
    rw [run_write_fst]
    rcases write_state (c := c) start data with h | ⟨-, h⟩ <;> rw [h]
  | erase start length =>
    rw [run_erase_fst]
    rcases erase_state (c := c) start length with h | ⟨-, -, -, h⟩ | ⟨-, -, -, h⟩ <;> rw [h]
  | protect on =>
    rw [run_protect_fst]
    rcases setProtection_state (c := c) on with h | h <;> rw [h]
  | corrupt position mask =>
    rw [run_corrupt_fst]
    split <;> rfl
  | _ => rfl

/-- What a step does to the cells: nothing; or what an admitted write programs; or, for an erase
that passed its checks, the blanking of the first half of its first block (cut off when erases
tear) or of its range; or a bit flip in the part. -/
theorem cells_run (s : DeviceStep) :
    (s.run c).1.cells = c.cells ∨
      (∃ start data, s = .write start data ∧ c.Admits start data ∧
        (s.run c).1.cells = c.programmed start data (c.programLength data)) ∨
      (∃ start length, s = .erase start length ∧
        c.geometry.check start length c.geometry.eraseBlock = .ok () ∧
        ((s.run c).1.cells = c.blanked start (start + c.geometry.eraseBlock / 2) ∨
          (s.run c).1.cells = c.blanked start (start + length))) ∨
      (∃ position mask, s = .corrupt position mask ∧ position < c.geometry.size ∧
        (s.run c).1.cells = c.cells.set! position (c.cells.get! position ^^^ mask)) := by
  cases s with
  | read start length =>
    rw [run_read_fst]
    rcases read_state (c := c) start _ with h | h <;> exact .inl (by rw [h])
  | write start data =>
    rw [run_write_fst]
    rcases write_state (c := c) start data with h | ⟨hadm, h⟩
    · exact .inl (by rw [h])
    · exact .inr (.inl ⟨start, data, rfl, hadm, by rw [h]⟩)
  | erase start length =>
    rw [run_erase_fst]
    rcases erase_state (c := c) start length with h | ⟨-, hchk, -, h⟩ | ⟨-, hchk, -, h⟩
    · exact .inl (by rw [h])
    · rw [h]
      cases c.tornErase with
      | true => exact .inr (.inr (.inl ⟨start, length, rfl, hchk, .inl rfl⟩))
      | false => exact .inl rfl
    · exact .inr (.inr (.inl ⟨start, length, rfl, hchk, .inr (by rw [h])⟩))
  | protect on =>
    rw [run_protect_fst]
    rcases setProtection_state (c := c) on with h | h <;> exact .inl (by rw [h])
  | corrupt position mask =>
    rw [run_corrupt_fst]
    split
    · exact .inr (.inr (.inr ⟨position, mask, rfl, ‹_›, rfl⟩))
    · exact .inl rfl
  | _ => exact .inl rfl

/-- Every step keeps one cell per byte of the part. -/
theorem sized_run (hc : c.Sized) (s : DeviceStep) : (s.run c).1.Sized := by
  unfold Sized
  rw [geometry_run, ← hc]
  rcases cells_run (c := c) s with
    h | ⟨start, data, -, -, h⟩ | ⟨start, length, -, -, h | h⟩ | ⟨position, mask, -, -, h⟩ <;> rw [h]
  · exact size_programmed c start data _
  · exact size_blanked c _ _
  · exact size_blanked c _ _
  · exact ByteArray.size_set!' _ _ _

/-- A step changes no byte of `[lo, hi)` that it does not touch. -/
theorem get!_run_of_not_touches (hc : c.Sized) {lo hi : Nat} (hhi : hi ≤ c.geometry.size)
    {s : DeviceStep} (hs : ¬ s.Touches c.geometry.eraseBlock lo hi) {j : Nat}
    (hj : lo ≤ j ∧ j < hi) : (s.run c).1.cells.get! j = c.cells.get! j := by
  have hjs : j < c.cells.size := by unfold Sized at hc; omega
  rcases cells_run (c := c) s with
    h | ⟨start, data, rfl, hadm, h⟩ | ⟨start, length, rfl, -, h | h⟩ | ⟨position, mask, rfl, -, h⟩ <;>
    rw [h] <;> simp only [Touches] at hs
  · -- the bytes programmed lie in the range written, which misses `[lo, hi)`
    have hrange := Geometry.le_of_check (Geometry.check_ok_of_isOk hadm.2.2.1)
    have hlen := programLength_le (c := c) data
    rw [get!_programmed c start data _ j (by unfold Sized at hc; omega), if_neg (by omega)]
  · -- a cut erase blanks half of its first block, inside what the erase touches
    rw [get!_blanked_of_lt _ _ _ hjs, if_neg (by omega)]
  · rw [get!_blanked_of_lt _ _ _ hjs, if_neg (by omega)]
  · rw [ByteArray.get!_set!_of_lt _ _ _ hjs, if_neg (by omega)]

theorem geometry_runAll (steps : List DeviceStep) : (runAll c steps).geometry = c.geometry := by
  induction steps generalizing c with
  | nil => rfl
  | cons s steps ih => exact ih.trans (geometry_run s)

theorem sized_runAll (hc : c.Sized) (steps : List DeviceStep) : (runAll c steps).Sized := by
  induction steps generalizing c with
  | nil => exact hc
  | cons s steps ih => exact ih (sized_run hc s)

/-- A run of steps none of which touches `[lo, hi)` leaves those bytes as they were. -/
theorem get!_runAll_of_not_touches (hc : c.Sized) {lo hi : Nat} (hhi : hi ≤ c.geometry.size)
    {steps : List DeviceStep} (hs : ∀ s ∈ steps, ¬ s.Touches c.geometry.eraseBlock lo hi)
    {j : Nat} (hj : lo ≤ j ∧ j < hi) : (runAll c steps).cells.get! j = c.cells.get! j := by
  induction steps generalizing c with
  | nil => rfl
  | cons s steps ih =>
    have hgeo := geometry_run (c := c) s
    show (runAll (s.run c).1 steps).cells.get! j = _
    rw [ih (sized_run hc s) (by rw [hgeo]; exact hhi)
      (fun s' hs' => by rw [hgeo]; exact hs s' (List.mem_cons_of_mem _ hs')),
      get!_run_of_not_touches hc hhi (hs s List.mem_cons_self) hj]

/-- Reading a range that no step of a run touches, with power on, gives the bytes the range
held before the run. -/
theorem read_runAll_of_not_touches (hc : c.Sized) {start length : Nat}
    (hs : start + length ≤ c.geometry.size) {steps : List DeviceStep}
    (hsteps : ∀ s ∈ steps, ¬ s.Touches c.geometry.eraseBlock start (start + length))
    (hpow : (runAll c steps).powerLost = false) :
    (Chip.read start length).run.run (runAll c steps) =
      (.ok (c.cells.extract start (start + length)),
        { runAll c steps with reads := (runAll c steps).reads + 1 }) := by
  have hgeo := geometry_runAll (c := c) steps
  have hsized := sized_runAll hc steps
  have hcsize : c.cells.size = c.geometry.size := hc
  rw [read_powered hpow (by rw [hgeo]; exact hs)]
  -- the run keeps every byte of the range, so the two reads agree byte by byte
  congr 2
  apply ByteArray.ext_get!
    (by rw [ByteArray.size_extract', ByteArray.size_extract', hsized, hgeo, hcsize])
  intro j hj
  rw [ByteArray.size_extract', hsized, hgeo] at hj
  rw [ByteArray.get!_extract _ _ _ _ (by rw [hsized, hgeo]; omega),
    ByteArray.get!_extract _ _ _ _ (by rw [hcsize]; omega),
    get!_runAll_of_not_touches hc hs hsteps (by omega)]

end Bench.DeviceStep

/-! ## Reading back what was programmed -/

namespace Flash.Chip

open Bench

variable {c : Chip}

theorem firstConflict_isSome_iff {start : Nat} {data : ByteArray} :
    (c.firstConflict start data).isSome = true ↔ ∃ j < data.size,
      c.cells.get! (start + j) ≠ c.geometry.eraseValue ∧ c.cells.get! (start + j) ≠ data.get! j := by
  unfold firstConflict
  rw [List.find?_isSome]
  simp [List.mem_range]

/-- Byte `j` of `data`, programmed from `start`, is programmed over the byte that was there. -/
theorem get!_programmed_at {start : Nat} {data : ByteArray} (hs : start + data.size ≤ c.cells.size)
    {j : Nat} (hj : j < data.size) :
    (c.programmed start data data.size).get! (start + j) =
      program c.geometry.eraseValue (c.cells.get! (start + j)) (data.get! j) := by
  rw [get!_programmed c start data data.size _ hs, if_pos (by omega), Nat.add_sub_cancel_left]

/-- NOR programming on a part with power and no cut armed, for a write in range and on write
blocks. Onto erased bytes the write succeeds; after it, as long as no step touches those bytes,
reading them while power is on gives each byte written programmed over the erase value, the
byte itself for the erase values `0x00` and `0xFF`, and reading them with power lost fails. In
strict mode the write fails as not erased and changes nothing exactly when some byte in its way
is neither erased nor already the byte to write; otherwise it succeeds and programs every byte
over the one that was there, which leaves the new byte for those two erase values. -/
theorem program_readBack (hc : c.Sized) (hp : c.powerLost = false) (harm : c.budget < 0)
    (hunlocked : c.isProtected = false) (start : Nat) (data : ByteArray)
    (hs : start + data.size ≤ c.geometry.size)
    (ha : c.geometry.writeBlock ≤ 1 ∨
      (start % c.geometry.writeBlock = 0 ∧ data.size % c.geometry.writeBlock = 0)) :
    ((∀ j < data.size, c.cells.get! (start + j) = c.geometry.eraseValue) →
      ∃ c₁, (write start data).run.run c = (.ok (), c₁) ∧
        ∀ steps : List DeviceStep,
          (∀ s ∈ steps, ¬ s.Touches c.geometry.eraseBlock start (start + data.size)) →
          ((DeviceStep.runAll c₁ steps).powerLost = true →
            (read start data.size).run.run (DeviceStep.runAll c₁ steps) =
              (.error (.kind .powerLoss), DeviceStep.runAll c₁ steps)) ∧
          ((DeviceStep.runAll c₁ steps).powerLost = false → ∃ r,
            (read start data.size).run.run (DeviceStep.runAll c₁ steps) =
              (.ok r, { DeviceStep.runAll c₁ steps with
                        reads := (DeviceStep.runAll c₁ steps).reads + 1 }) ∧
            r.size = data.size ∧
            (∀ j < data.size,
              r.get! j = program c.geometry.eraseValue c.geometry.eraseValue (data.get! j)) ∧
            (Polar c.geometry.eraseValue → r = data))) ∧
    (c.strict = true →
      ((∃ q, (write start data).run.run c = (.error (.notErased q), c)) ↔
        ∃ j < data.size, c.cells.get! (start + j) ≠ c.geometry.eraseValue ∧
          c.cells.get! (start + j) ≠ data.get! j) ∧
      ((∀ j < data.size, c.cells.get! (start + j) = c.geometry.eraseValue ∨
          c.cells.get! (start + j) = data.get! j) →
        ∃ c₁, (write start data).run.run c = (.ok (), c₁) ∧ ∀ j < data.size,
          c₁.cells.get! (start + j) =
            program c.geometry.eraseValue (c.cells.get! (start + j)) (data.get! j) ∧
          (Polar c.geometry.eraseValue → c₁.cells.get! (start + j) = data.get! j))) := by
  have hchk := Geometry.check_eq_ok hs ha
  have hcells : start + data.size ≤ c.cells.size := by unfold Sized at hc; omega
  -- with no cut armed an admitted write programs all of its data and succeeds
  have hcut : c.cutsOff data = false := by simp [cutsOff]; omega
  have hlen : c.programLength data = data.size := by simp [programLength, hcut]
  have hadmits : (c.strict = true → c.firstConflict start data = none) → c.Admits start data :=
    fun hs' => ⟨hp, hunlocked, by rw [hchk]; rfl, hs'⟩
  have hok : c.Admits start data → ∃ c₁, (write start data).run.run c = (.ok (), c₁) ∧
      c₁.geometry = c.geometry ∧ c₁.cells = c.programmed start data data.size := by
    intro hadm
    have h := write_admitted hadm
    rw [hcut] at h
    exact ⟨_, h.trans rfl, rfl, congrArg (c.programmed start data) hlen⟩
  refine ⟨fun free => ?_, fun hst => ⟨⟨?_, ?_⟩, fun hfit => ?_⟩⟩
  · -- reading back: the run keeps the programmed bytes, and the read returns them
    obtain ⟨c₁, hw, hgeo₁, hcells₁⟩ := hok (hadmits fun _ => firstConflict_eq_none free)
    refine ⟨c₁, hw, fun steps hsteps => ⟨read_lost _ _, fun hpow => ?_⟩⟩
    have hsized₁ : c₁.Sized := by
      unfold Sized
      rw [hcells₁, size_programmed, hgeo₁]
      exact hc
    have hcsize : c₁.cells.size = c.geometry.size := hgeo₁ ▸ hsized₁
    have hsize : (c₁.cells.extract start (start + data.size)).size = data.size := by
      rw [ByteArray.size_extract', hcsize]
      omega
    have hbyte : ∀ j < data.size, (c₁.cells.extract start (start + data.size)).get! j =
        program c.geometry.eraseValue c.geometry.eraseValue (data.get! j) := by
      intro j hj
      rw [ByteArray.get!_extract _ _ _ _ (by rw [hcsize]; omega), hcells₁,
        get!_programmed_at hcells hj, free j hj]
    refine ⟨_, DeviceStep.read_runAll_of_not_touches hsized₁ (by rw [hgeo₁]; exact hs)
      (by rw [hgeo₁]; exact hsteps) hpow, hsize, hbyte, fun hpol => ?_⟩
    refine ByteArray.ext_get! hsize fun j hj => ?_
    rw [hbyte j (by rwa [hsize] at hj), program_of_erased hpol]
  · -- a refused strict write found a byte in its way
    rintro ⟨q, hq⟩
    apply firstConflict_isSome_iff.1
    cases hi : c.firstConflict start data with
    | some i => rfl
    | none =>
      obtain ⟨c₁, hw, -⟩ := hok (hadmits fun _ => hi)
      rw [hw] at hq
      cases hq
  · rintro hconf
    obtain ⟨i, hi⟩ := Option.isSome_iff_exists.1 (firstConflict_isSome_iff.2 hconf)
    exact ⟨_, write_conflict hp hunlocked hchk hst hi⟩
  · -- nothing in the way: every byte is programmed over the one that was there
    have hnone : c.firstConflict start data = none := by
      cases hi : c.firstConflict start data with
      | none => rfl
      | some i =>
        obtain ⟨j, hj, h1, h2⟩ := firstConflict_isSome_iff.1 (by rw [hi]; rfl)
        exact absurd (hfit j hj) (by simp [h1, h2])
    obtain ⟨c₁, hw, -, hcells₁⟩ := hok (hadmits fun _ => hnone)
    refine ⟨c₁, hw, fun j hj => ?_⟩
    rw [hcells₁, get!_programmed_at hcells hj]
    refine ⟨rfl, fun hpol => ?_⟩
    rcases hfit j hj with h | h <;> rw [h]
    · exact program_of_erased hpol _
    · exact program_self _ _

/-- A blank part of four bytes with erase value `0xFF` takes one byte and reads it back. -/
theorem program_readBack_blank_part :
    ∃ c₁, (write 0 ⟨#[0xA5]⟩).run.run
        ({ geometry := ⟨4, 4, 1, 0xFF⟩, cells := ⟨Array.replicate 4 0xFF⟩, wear := #[0] } : Chip) =
        (.ok (), c₁) ∧
      ∃ r, (read 0 1).run.run c₁ = (.ok r, { c₁ with reads := c₁.reads + 1 }) ∧ r = ⟨#[0xA5]⟩ := by
  have hsized : Sized ({ geometry := ⟨4, 4, 1, 0xFF⟩, cells := ⟨Array.replicate 4 0xFF⟩,
                         wear := #[0] } : Chip) := Array.size_replicate
  obtain ⟨c₁, hw, hback⟩ := (program_readBack hsized rfl (by decide) rfl 0 ⟨#[0xA5]⟩ (by decide)
    (.inl (by decide))).1 (by decide)
  have hpow : c₁.powerLost = false := by
    have h := congrArg (fun p => p.2.powerLost) hw
    exact h.symm.trans (by decide)
  obtain ⟨r, hread, -, -, hr⟩ := (hback [] (fun _ h => absurd h List.not_mem_nil)).2 hpow
  exact ⟨c₁, hw, r, hread, hr (.inr rfl)⟩

/-- With erase value `0x0F`, a new part programmed with `0xF0` on an erased byte reads back
`0xFF`: programming ORs the byte into the erased one. -/
theorem readBack_nonpolar :
    ∃ c, create ⟨4, 4, 1, 0x0F⟩ = .ok c ∧ ∃ c₁, (write 0 ⟨#[0xF0]⟩).run.run c = (.ok (), c₁) ∧
      (read 0 1).run.run c₁ = (.ok ⟨#[0xFF]⟩, { c₁ with reads := c₁.reads + 1 }) ∧
      (⟨#[0xFF]⟩ : ByteArray) ≠ ⟨#[0xF0]⟩ :=
  ⟨_, rfl, _, rfl, rfl, by decide⟩

end Flash.Chip

end NorStore
