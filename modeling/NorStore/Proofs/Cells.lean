import Mathlib
import NorStore.Flash.Chip

/-!
# The cells of a flash part

A part keeps its bytes in a `ByteArray`. The store reads ranges of it (`ByteArray.extract`),
programs ranges byte by byte (`Chip.programmed`) and blanks ranges (`Chip.blanked`). This module
describes all three pointwise, through `ByteArray.get!`: after an operation, the byte at each
position is a function of the byte that was there and of the operation.

*Programming erased bytes.* Programming can only move bits away from the erased state. On a
byte that is still erased, programming with the erase value `0xFF` or `0x00` leaves exactly the
new byte (`program_of_erased`): those are the two polarities for which a program writes what
it is given.

*Operations that go through.* On a part with power and no armed cut, a read, a program of
erased bytes and an erase that stay in range and on block boundaries succeed, and the lemmas at
the end give the part they leave.

*Running a program.* The device and the store are both exception monads over a state,
`ExceptT ε (StateM σ)`. `act.run.run s` is the outcome of `act` started in state `s` together
with the state it leaves, also when it fails; the lemmas of the first section compute it for
binds, so that a proof steps through a program one bind at a time.
-/

namespace NorStore

/-! ## Running a program -/

section Steps

variable {ε σ α β : Type}

theorem run_bind (x : ExceptT ε (StateM σ) α) (f : α → ExceptT ε (StateM σ) β) (s : σ) :
    (x >>= f).run.run s = (match (x.run.run s).1 with
      | .ok a => (f a).run.run (x.run.run s).2
      | .error e => (.error e, (x.run.run s).2)) := by
  simp only [ExceptT.run_bind, StateT.run_bind]
  rcases x.run.run s with ⟨r, t⟩
  cases r <;> rfl

theorem run_bind_ok {x : ExceptT ε (StateM σ) α} {f : α → ExceptT ε (StateM σ) β} {s s' : σ}
    {v : α} (h : x.run.run s = (.ok v, s')) : (x >>= f).run.run s = (f v).run.run s' := by
  rw [run_bind, h]

theorem run_bind_error {x : ExceptT ε (StateM σ) α} {f : α → ExceptT ε (StateM σ) β} {s s' : σ}
    {e : ε} (h : x.run.run s = (.error e, s')) : (x >>= f).run.run s = (.error e, s') := by
  rw [run_bind, h]

theorem run_seq_ok {x : ExceptT ε (StateM σ) PUnit} {y : ExceptT ε (StateM σ) β} {s s' : σ}
    (h : x.run.run s = (.ok ⟨⟩, s')) : (x *> y).run.run s = y.run.run s' := by
  show (x >>= fun _ => y).run.run s = _
  rw [run_bind_ok h]

@[simp] theorem run_pure (v : α) (s : σ) :
    (pure v : ExceptT ε (StateM σ) α).run.run s = (.ok v, s) := rfl

@[simp] theorem run_throw (e : ε) (s : σ) :
    (throw e : ExceptT ε (StateM σ) α).run.run s = (.error e, s) := rfl

@[simp] theorem run_monadGet (s : σ) :
    (MonadState.get : ExceptT ε (StateM σ) σ).run.run s = (.ok s, s) := rfl

@[simp] theorem run_set (s t : σ) :
    (set t : ExceptT ε (StateM σ) PUnit).run.run s = (.ok ⟨⟩, t) := rfl

theorem run_tryCatch_ok {x : ExceptT ε (StateM σ) α} {h : ε → ExceptT ε (StateM σ) α} {s s' : σ}
    {v : α} (hx : x.run.run s = (.ok v, s')) : (tryCatch x h).run.run s = (.ok v, s') := by
  show (ExceptT.tryCatch x h).run.run s = _
  simp only [ExceptT.tryCatch, ExceptT.run_mk, StateT.run_bind]
  erw [hx]
  rfl

theorem run_tryCatch_error {x : ExceptT ε (StateM σ) α} {h : ε → ExceptT ε (StateM σ) α}
    {s s' : σ} {e : ε} (hx : x.run.run s = (.error e, s')) :
    (tryCatch x h).run.run s = (h e).run.run s' := by
  show (ExceptT.tryCatch x h).run.run s = _
  simp only [ExceptT.tryCatch, ExceptT.run_mk, StateT.run_bind]
  erw [hx]
  rfl

end Steps

end NorStore

namespace ByteArray

/-- A byte of an array, or zero past its end. -/
theorem get!_eq (b : ByteArray) (i : Nat) : b.get! i = (b.data[i]?).getD 0 := by
  rcases b with ⟨a⟩
  show a[i]! = _
  rw [Array.getElem!_eq_getD, Array.getD_eq_getD_getElem?]
  rfl

theorem get!_set! (b : ByteArray) (i j : Nat) (v : UInt8) (h : i < b.size) :
    (b.set! i v).get! j = if i = j then v else b.get! j := by
  rw [get!_eq, get!_eq]
  show ((b.data.set! i v)[j]?).getD 0 = _
  have h' : i < b.data.size := h
  rw [Array.set!_eq_setIfInBounds, Array.getElem?_setIfInBounds]
  by_cases hij : i = j
  · subst hij
    simp [h]
  · simp [hij]

/-- Setting a byte past the end changes nothing, so below the end a set reads back as usual. -/
theorem get!_set!_of_lt (b : ByteArray) (i : Nat) {j : Nat} (v : UInt8) (hj : j < b.size) :
    (b.set! i v).get! j = if i = j then v else b.get! j := by
  by_cases hi : i < b.size
  · exact get!_set! b i j v hi
  · have hdata : b.data.size ≤ i := Nat.le_of_not_lt hi
    have hset : b.set! i v = b := by
      show (⟨b.data.set! i v⟩ : ByteArray) = b
      rw [Array.set!_eq_setIfInBounds, Array.setIfInBounds_eq_of_size_le hdata]
    rw [hset, if_neg (by omega)]

@[simp] theorem size_set!' (b : ByteArray) (i : Nat) (v : UInt8) : (b.set! i v).size = b.size := by
  rcases b with ⟨a⟩
  show (a.set! i v).size = a.size
  simp

theorem size_extract' (b : ByteArray) (s e : Nat) : (b.extract s e).size = min e b.size - s := by
  rw [size, data_extract, Array.size_extract]
  rfl

theorem get!_extract (b : ByteArray) (s e j : Nat) (h : s + j < min e b.size) :
    (b.extract s e).get! j = b.get! (s + j) := by
  rw [get!_eq, get!_eq, data_extract, Array.getElem?_extract]
  have : j < min e b.data.size - s := by
    show j < min e b.size - s
    omega
  rw [if_pos this]

/-- The list of a byte array is the list of its data. -/
theorem toList_eq (b : ByteArray) : b.toList = b.data.toList := by
  have loop : ∀ i r, toList.loop b i r = r.reverse ++ b.data.toList.drop i := by
    intro i r
    fun_induction toList.loop b i r with
    | case1 i r hi ih =>
      have hi' : i < b.data.toList.length := by
        rw [Array.length_toList]
        exact hi
      rw [ih, List.reverse_cons, List.append_assoc, List.singleton_append,
        List.drop_eq_getElem_cons hi', get!_eq, Array.getElem?_eq_getElem hi, Option.getD_some,
        Array.getElem_toList]
    | case2 i r hi =>
      have hi' : b.data.toList.length ≤ i := by
        rw [Array.length_toList]
        exact Nat.le_of_not_lt hi
      rw [List.drop_eq_nil_of_le hi', List.append_nil]
  rw [toList, loop, List.reverse_nil, List.nil_append, List.drop_zero]

/-- A byte of an array whose bytes are `l`. -/
theorem get!_of_toList {b : ByteArray} {l : List UInt8} (h : b.toList = l) (i : Nat) :
    b.get! i = l.getD i 0 := by
  rw [get!_eq, ← h, toList_eq, List.getD_eq_getElem?_getD, Array.getElem?_toList]

theorem get!_append (a b : ByteArray) (i : Nat) :
    (a ++ b).get! i = if i < a.size then a.get! i else b.get! (i - a.size) := by
  rw [get!_eq, get!_eq, get!_eq, data_append]
  by_cases h : i < a.size
  · rw [if_pos h, Array.getElem?_append_left h]
  · have h' : a.data.size ≤ i := by
      show a.size ≤ i
      omega
    rw [if_neg h, Array.getElem?_append_right h']
    rfl

theorem length_toList (b : ByteArray) : b.toList.length = b.size := by
  rw [toList_eq]
  rfl

theorem getElem_toList (b : ByteArray) (j : Nat) (h : j < b.toList.length) :
    b.toList[j] = b.get! j := by
  rw [get!_eq]
  simp only [toList_eq] at h ⊢
  rw [Array.getElem_toList, Array.getElem?_eq_getElem (by simpa using h)]
  rfl

/-- The bytes of a range, read one by one. -/
theorem toList_extract (b : ByteArray) (s n : Nat) (h : s + n ≤ b.size) :
    (b.extract s (s + n)).toList = (List.range n).map fun j => b.get! (s + j) := by
  apply List.ext_getElem
  · rw [length_toList, size_extract', List.length_map, List.length_range]
    omega
  · intro j h1 h2
    rw [getElem_toList, List.getElem_map, List.getElem_range, get!_extract]
    rw [length_toList, size_extract'] at h1
    omega

@[simp] theorem toList_mk_toArray (l : List UInt8) : (ByteArray.mk l.toArray).toList = l := by
  rw [toList_eq, List.toList_toArray]

/-- A byte array is determined by its list of bytes. -/
theorem eq_mk_of_toList {b : ByteArray} {l : List UInt8} (h : b.toList = l) : b = ⟨l.toArray⟩ := by
  rcases b with ⟨a⟩
  rw [toList_eq] at h
  congr
  rw [← h, Array.toArray_toList]

theorem ext_toList {a b : ByteArray} (h : a.toList = b.toList) : a = b := by
  have hb := eq_mk_of_toList (b := b) rfl
  rw [eq_mk_of_toList h, ← hb]

theorem getElem?_toList (b : ByteArray) (j : Nat) : b.toList[j]? = b[j]? := by
  rw [toList_eq, Array.getElem?_toList]
  rfl

theorem extract_zero_zero (b : ByteArray) : b.extract 0 0 = ByteArray.empty := by
  apply ext_toList
  rw [← Nat.zero_add 0, toList_extract _ _ _ (by omega), toList_eq]
  rfl

end ByteArray

namespace NorStore.Flash

/-! ## Programming erased bytes -/

/-- The two erase values for which programming an erased byte writes the new byte. -/
def Polar (v : UInt8) : Prop := v = 0 ∨ v = 0xFF

theorem program_of_erased {ev : UInt8} (h : Polar ev) (b : UInt8) : program ev ev b = b := by
  unfold program
  rcases h with rfl | rfl
  · rw [if_neg (by decide)]
    apply UInt8.toNat_inj.1
    rw [UInt8.toNat_or, show (0 : UInt8).toNat = 0 from rfl, Nat.zero_or]
  · rw [if_pos (by decide)]
    apply UInt8.toNat_inj.1
    rw [UInt8.toNat_and, Nat.and_comm, show (0xFF : UInt8).toNat = 2 ^ 8 - 1 from rfl,
      Nat.and_two_pow_sub_one_of_lt_two_pow b.toNat_lt]

/-! ## Ranges of cells -/

namespace Chip

variable (c : Chip)

theorem size_programmed (start : Nat) (data : ByteArray) (n : Nat) :
    (c.programmed start data n).size = c.cells.size := by
  unfold programmed
  induction n with
  | zero => rfl
  | succ n ih =>
    rw [List.range_succ, List.foldl_append, List.foldl_cons, List.foldl_nil, ByteArray.size_set!', ih]

/-- After programming `n` bytes from `start`, each of them is the old byte programmed with
the new one, and every other byte is as it was. -/
theorem get!_programmed (start : Nat) (data : ByteArray) (n j : Nat)
    (h : start + n ≤ c.cells.size) :
    (c.programmed start data n).get! j =
      if start ≤ j ∧ j < start + n then
        program c.geometry.eraseValue (c.cells.get! j) (data.get! (j - start))
      else c.cells.get! j := by
  induction n generalizing j with
  | zero =>
    simp only [Nat.add_zero]
    rw [if_neg (by omega)]
    rfl
  | succ n ih =>
    have step : c.programmed start data (n + 1) =
        (c.programmed start data n).set! (start + n)
          (program c.geometry.eraseValue ((c.programmed start data n).get! (start + n))
            (data.get! n)) := by
      unfold programmed
      rw [List.range_succ, List.foldl_append, List.foldl_cons, List.foldl_nil]
    rw [step, ByteArray.get!_set! _ _ _ _ (by rw [size_programmed]; omega)]
    by_cases hj : start + n = j
    · subst hj
      rw [if_pos rfl, ih _ (by omega), if_neg (by omega), if_pos (by omega), Nat.add_sub_cancel_left]
    · rw [if_neg hj, ih _ (by omega)]
      by_cases hin : start ≤ j ∧ j < start + n
      · rw [if_pos hin, if_pos (by omega)]
      · rw [if_neg hin, if_neg (by omega)]

/-- Programming erased bytes, for the two polarities, writes them. -/
theorem get!_programmed_blank (hp : Polar c.geometry.eraseValue) {start : Nat} {data : ByteArray}
    (hs : start + data.size ≤ c.cells.size)
    (free : ∀ j < data.size, c.cells.get! (start + j) = c.geometry.eraseValue) (q : Nat) :
    (c.programmed start data data.size).get! q =
      if start ≤ q ∧ q < start + data.size then data.get! (q - start) else c.cells.get! q := by
  rw [get!_programmed c start data data.size q hs]
  by_cases hq : start ≤ q ∧ q < start + data.size
  · have := free (q - start) (by omega)
    rw [Nat.add_sub_cancel' hq.1] at this
    rw [if_pos hq, if_pos hq, this, program_of_erased hp]
  · rw [if_neg hq, if_neg hq]

theorem size_blanked (start stop : Nat) : (c.blanked start stop).size = c.cells.size := by
  unfold blanked
  induction stop - start with
  | zero => rfl
  | succ n ih =>
    rw [List.range_succ, List.foldl_append, List.foldl_cons, List.foldl_nil, ByteArray.size_set!', ih]

/-- After blanking `[start, stop)`, each byte of the part in that range is erased and every
other byte is as it was, also when the range runs past the end of the part. -/
theorem get!_blanked_of_lt (start stop : Nat) {j : Nat} (hj : j < c.cells.size) :
    (c.blanked start stop).get! j =
      if start ≤ j ∧ j < stop then c.geometry.eraseValue else c.cells.get! j := by
  -- the loop blanks `start + i` for `i < n`; a set past the end changes nothing
  have gen : ∀ n, ((List.range n).foldl
      (fun cells i => cells.set! (start + i) c.geometry.eraseValue) c.cells).size = c.cells.size ∧
      ((List.range n).foldl (fun cells i => cells.set! (start + i) c.geometry.eraseValue)
        c.cells).get! j = if start ≤ j ∧ j < start + n then c.geometry.eraseValue
          else c.cells.get! j := by
    intro n
    induction n with
    | zero =>
      rw [if_neg (by omega)]
      exact ⟨rfl, rfl⟩
    | succ n ih =>
      rw [List.range_succ, List.foldl_append, List.foldl_cons, List.foldl_nil,
        ByteArray.size_set!', ByteArray.get!_set!_of_lt _ _ _ (by rw [ih.1]; exact hj)]
      refine ⟨ih.1, ?_⟩
      by_cases hn : start + n = j
      · rw [if_pos hn, if_pos (by omega)]
      · rw [if_neg hn, ih.2]
        by_cases hin : start ≤ j ∧ j < start + n
        · rw [if_pos hin, if_pos (by omega)]
        · rw [if_neg hin, if_neg (by omega)]
  unfold blanked
  rw [(gen _).2]
  by_cases hle : start ≤ stop
  · rw [Nat.add_sub_cancel' hle]
  · rw [if_neg (by omega), if_neg (by omega)]

/-- After blanking `[start, stop)`, those bytes are erased and the others as they were. -/
theorem get!_blanked (start stop j : Nat) (h : stop ≤ c.cells.size) :
    (c.blanked start stop).get! j =
      if start ≤ j ∧ j < stop then c.geometry.eraseValue else c.cells.get! j := by
  by_cases hj : j < c.cells.size
  · exact get!_blanked_of_lt c start stop hj
  · -- past the end both arrays read as zero
    have hsize : (c.blanked start stop).data.size ≤ j := by
      show (c.blanked start stop).size ≤ j
      rw [size_blanked]
      omega
    rw [if_neg (by omega), ByteArray.get!_eq, ByteArray.get!_eq, Array.getElem?_eq_none hsize,
      Array.getElem?_eq_none (by show c.cells.size ≤ j; omega)]

/-! ## Operations that go through -/

variable {c}

/-- What the store asks of a part for its accesses to go through: power, and no cut armed. -/
structure Ready (c : Chip) : Prop where
  powered : c.powerLost = false
  unarmed : c.budget < 0

theorem read_ok (start length : Nat) (hr : c.Ready) (hs : start + length ≤ c.geometry.size) :
    (read start length).run.run c =
      (.ok (c.cells.extract start (start + length)), { c with reads := c.reads + 1 }) := by
  have hp := hr.powered
  simp only [read, run_bind, run_monadGet, hp]
  simp [checked, Geometry.check, show ¬ start + length > c.geometry.size by omega]
  rfl

theorem setProtection_ok (on : Bool) (hp : c.powerLost = false) :
    (setProtection on).run.run c = (.ok (), { c with locked := on }) := by
  simp only [setProtection, run_bind, run_monadGet, hp]
  simp

/-- No byte of `data`'s range is in the way of programming it. -/
theorem firstConflict_eq_none {start : Nat} {data : ByteArray}
    (free : ∀ j < data.size, c.cells.get! (start + j) = c.geometry.eraseValue) :
    c.firstConflict start data = none := by
  unfold firstConflict
  rw [List.find?_eq_none]
  intro j hj
  rw [List.mem_range] at hj
  simp [free j hj]

/-- A program of erased bytes, in range and on write blocks, goes through. -/
theorem write_ok {start : Nat} {data : ByteArray} (hr : c.Ready) (hunlocked : c.isProtected = false)
    (hs : start + data.size ≤ c.geometry.size)
    (ha : c.geometry.writeBlock ≤ 1 ∨
      (start % c.geometry.writeBlock = 0 ∧ data.size % c.geometry.writeBlock = 0))
    (free : ∀ j < data.size, c.cells.get! (start + j) = c.geometry.eraseValue) :
    (write start data).run.run c =
      (.ok (), { c with cells := c.programmed start data data.size, writes := c.writes + 1 }) := by
  have hp := hr.powered
  have hb := hr.unarmed
  have hcut : (decide (0 ≤ c.budget) && decide (c.budget < data.size)) = false := by
    simp only [Bool.and_eq_false_iff, decide_eq_false_iff_not]
    omega
  have hchk : c.geometry.check start data.size c.geometry.writeBlock = .ok () := by
    simp only [Geometry.check]
    rw [if_neg (by omega)]
    rcases ha with ha | ha
    · rw [if_neg (by simp; omega)]
    · rw [if_neg (by simp [ha.1, ha.2])]
  simp only [write, run_bind, run_monadGet, hp, hunlocked, hchk, firstConflict_eq_none free, hcut]
  simp [checked, show ¬ 0 ≤ c.budget by omega]

/-- The erase counts after erasing `length` bytes from `start` on erase blocks of `eb` bytes:
one more for each block of the range. -/
def erasedWear (wear : Array Nat) (eb start length : Nat) : Array Nat :=
  (List.range (length / eb)).foldl (fun w i => w.modify (start / eb + i) (· + 1)) wear

/-- An erase in range and on erase blocks goes through, and counts one erase of each of its
blocks. -/
theorem erase_ok (start length : Nat) (hr : c.Ready) (hunlocked : c.isProtected = false)
    (hs : start + length ≤ c.geometry.size)
    (ha : c.geometry.eraseBlock ≤ 1 ∨
      (start % c.geometry.eraseBlock = 0 ∧ length % c.geometry.eraseBlock = 0)) :
    (erase start length).run.run c =
      (.ok (), { c with cells := c.blanked start (start + length)
                        wear := erasedWear c.wear c.geometry.eraseBlock start length }) := by
  have hp := hr.powered
  have hb := hr.unarmed
  have hchk : c.geometry.check start length c.geometry.eraseBlock = .ok () := by
    simp only [Geometry.check]
    rw [if_neg (by omega)]
    rcases ha with ha | ha
    · rw [if_neg (by simp; omega)]
    · rw [if_neg (by simp [ha.1, ha.2])]
  have hz : (c.budget == 0) = false := by
    simp only [beq_eq_false_iff_ne, ne_eq]
    omega
  simp only [erase, run_bind, run_monadGet, hp, hunlocked, hchk, hz]
  simp [checked, erasedWear]

end Chip

end NorStore.Flash
