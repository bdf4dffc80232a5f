import NorStore.Proofs.Scan

/-!
# The ring a store keeps

A store's region is a ring of sectors. At any time one sector is *active*: values grow up from
its start and entries down from just under its close slot. Going back from it round the ring
come the *closed* sectors, newest first, each with its close entry written; every other sector
is blank. A `Ring` records exactly that: which sector is active, and the records of the active
sector and of each closed one, newest first. Everything the store has on flash is a function
of it, `Ring.image`.

* `Config.distance a j` is how far sector `j` lies back from sector `a`, and `Config.behind a b`
  the sector `b` back from `a`; they undo each other.
* `Ring.Fit` is the shape a ring keeps: every sector's records fit, closed sectors are not
  empty, no record uses the close key, and the closed sectors do not come round to the active
  one.
* `Ring.Hosted` says that an engine's part holds the image of the ring; `Ring.Stored` adds the
  cursors, at the free slot and just past the values of the active sector.
* `Ring.AtRest` is what holds between operations: a blank sector always follows the active
  one, and a ring with nothing closed is one that mounting finds again.
* `Ring.view` is what the ring holds for a key: the newest record's value, unless that record
  is a deletion.
-/

namespace NorStore

/-- The records a store keeps in its ring of sectors: the active sector, its records, and the
records of the closed sectors going back from it. Records are listed newest first. -/
structure Ring where
  /-- The sector being filled. -/
  active : Nat
  /-- The records of the active sector. -/
  current : List Record
  /-- The records of the closed sectors, the one just before the active sector first. -/
  closed : List (List Record)

namespace Ring

/-- Every record of the ring, newest first. -/
def records (R : Ring) : List Record :=
  R.current ++ R.closed.flatten

/-- What the ring holds for key `k`: the value of the newest record of `k`, unless that record
is a deletion. -/
def view (R : Ring) (k : Vector UInt8 24) : Option ByteArray :=
  match R.records.find? (·.key = k) with
  | some r => if r.value.size = 0 then none else some r.value
  | none => none

end Ring

/-! ## Positions round the ring -/

namespace Config

variable (c : Config)

/-- How many sectors back from sector `a` sector `j` lies. -/
def distance (a j : Nat) : Nat :=
  (a + c.sectorCount.toNat - j) % c.sectorCount.toNat

/-- The sector `b` sectors back from sector `a`. -/
def behind (a b : Nat) : Nat :=
  (a + c.sectorCount.toNat - b) % c.sectorCount.toNat

variable {c}

/-- A number from the modulus up to twice it reduces by one subtraction. -/
private theorem mod_of_le_of_lt {x n : Nat} (h1 : n ≤ x) (h2 : x < 2 * n) : x % n = x - n := by
  rw [Nat.mod_eq_sub_mod h1, Nat.mod_eq_of_lt (by omega)]

section Positions

variable {a b j : Nat} (ha : a < c.sectorCount.toNat)
include ha

theorem distance_lt : c.distance a j < c.sectorCount.toNat :=
  Nat.mod_lt _ (by omega)

theorem behind_lt : c.behind a b < c.sectorCount.toNat :=
  Nat.mod_lt _ (by omega)

theorem distance_behind (hb : b < c.sectorCount.toNat) : c.distance a (c.behind a b) = b := by
  unfold distance behind
  by_cases h : b ≤ a
  · have back : (a + c.sectorCount.toNat - b) % c.sectorCount.toNat = a - b := by
      rw [mod_of_le_of_lt (by omega) (by omega)]
      omega
    rw [back, mod_of_le_of_lt (by omega) (by omega)]
    omega
  · have back : (a + c.sectorCount.toNat - b) % c.sectorCount.toNat =
        a + c.sectorCount.toNat - b := Nat.mod_eq_of_lt (by omega)
    rw [back, Nat.mod_eq_of_lt (by omega)]
    omega

theorem behind_distance (hj : j < c.sectorCount.toNat) : c.behind a (c.distance a j) = j := by
  unfold distance behind
  by_cases h : j ≤ a
  · have dist : (a + c.sectorCount.toNat - j) % c.sectorCount.toNat = a - j := by
      rw [mod_of_le_of_lt (by omega) (by omega)]
      omega
    rw [dist, mod_of_le_of_lt (by omega) (by omega)]
    omega
  · have dist : (a + c.sectorCount.toNat - j) % c.sectorCount.toNat =
        a + c.sectorCount.toNat - j := Nat.mod_eq_of_lt (by omega)
    rw [dist, Nat.mod_eq_of_lt (by omega)]
    omega

omit ha in
theorem distance_self : c.distance a a = 0 := by
  simp [distance]

theorem distance_eq_zero (hj : j < c.sectorCount.toNat) : c.distance a j = 0 ↔ j = a := by
  constructor
  · intro h
    rw [← behind_distance ha hj, h]
    unfold behind
    simp [Nat.mod_eq_of_lt ha]
  · rintro rfl
    exact distance_self

omit ha in
theorem behind_zero (ha : a < c.sectorCount.toNat) : c.behind a 0 = a := by
  simp [behind, Nat.mod_eq_of_lt ha]

/-- The sector after the active one lies all the way round the ring from it. -/
theorem distance_succ : c.distance a ((a + 1) % c.sectorCount.toNat) =
    c.sectorCount.toNat - 1 := by
  unfold distance
  by_cases h : a + 1 < c.sectorCount.toNat
  · rw [Nat.mod_eq_of_lt h, Nat.mod_eq_of_lt (by omega)]
    omega
  · rw [show a + 1 = c.sectorCount.toNat by omega, Nat.mod_self, Nat.sub_zero,
      mod_of_le_of_lt (by omega) (by omega)]
    omega

/-- Moving the active sector on by one moves every other sector one further back. -/
theorem distance_next (hj : j < c.sectorCount.toNat) :
    c.distance ((a + 1) % c.sectorCount.toNat) j =
      (c.distance a j + 1) % c.sectorCount.toNat := by
  unfold distance
  rw [Nat.mod_add_mod]
  by_cases h : a + 1 < c.sectorCount.toNat
  · rw [Nat.mod_eq_of_lt h]
    congr 1
    omega
  · rw [show a + 1 = c.sectorCount.toNat by omega, Nat.mod_self, Nat.zero_add,
      show a + c.sectorCount.toNat - j + 1 = c.sectorCount.toNat - j + c.sectorCount.toNat by
        omega, Nat.add_mod_right]

/-- One sector further back is the sector before, round the ring. -/
theorem behind_succ (hb : b < c.sectorCount.toNat) :
    c.behind a (b + 1) = (c.behind a b + c.sectorCount.toNat - 1) % c.sectorCount.toNat := by
  unfold behind
  by_cases h : b ≤ a
  · rw [mod_of_le_of_lt (by omega : c.sectorCount.toNat ≤ a + c.sectorCount.toNat - b)
      (by omega)]
    congr 1
    omega
  · rw [Nat.mod_eq_of_lt (by omega : a + c.sectorCount.toNat - b < c.sectorCount.toNat),
      show a + c.sectorCount.toNat - b + c.sectorCount.toNat - 1 =
        a + c.sectorCount.toNat - (b + 1) + c.sectorCount.toNat by omega, Nat.add_mod_right]

end Positions

end Config

/-! ## The image of a ring -/

namespace Ring

variable (c : Config) (R : Ring)

/-- The bytes of the sector `b` back from the active one. -/
def sectorAt : Nat → Nat → UInt8
  | 0 => c.layout R.current
  | b + 1 =>
    match R.closed[b]? with
    | some rs => c.closedLayout rs
    | none => fun _ => c.eraseValue

/-- The bytes of every sector of the ring. -/
def image (j : Nat) : Nat → UInt8 :=
  R.sectorAt c (c.distance R.active j)

/-- Where the entry cursor of the ring is: the free slot of the active sector. -/
def ate : Address :=
  Address.at R.active (c.slot R.current.length)

/-- Where the data cursor of the ring is: just past the values of the active sector. -/
def dataEnd : Address :=
  Address.at R.active (c.dataEnd R.current)

/-- The shape every ring the store builds keeps. -/
structure Fit : Prop where
  active_lt : R.active < c.sectorCount.toNat
  /-- The closed sectors never come round to the active one. -/
  span : R.closed.length < c.sectorCount.toNat
  current : c.Fits R.current
  closed : ∀ rs ∈ R.closed, c.Fits rs ∧ rs ≠ []
  keys : ∀ r ∈ R.records, r.key ≠ Entry.closeKey

/-- The part of engine `e` holds the image of the ring. -/
structure Hosted (e : Engine) : Prop extends R.Fit c where
  config : e.store.config = c
  placed : c.Placed e.rig.chip
  hosts : c.Hosts e.rig.chip (R.image c)

/-- The part holds the ring and the cursors are where the ring puts them. -/
structure Stored (e : Engine) : Prop extends R.Hosted c e where
  ate : e.store.ateCursor = R.ate c
  data : e.store.dataCursor = R.dataEnd c

/-- What holds between operations: a blank sector follows the active one, and a ring with no
closed sector has its active sector where mounting looks for it. -/
structure AtRest : Prop where
  settled : R.closed.length + 2 ≤ c.sectorCount.toNat
  found : R.closed = [] →
    R.active = 0 ∨ (R.active + 1 = c.sectorCount.toNat ∧ R.current ≠ [])

variable {c R}

theorem image_active : R.image c R.active = c.layout R.current := by
  simp [image, Config.distance_self, sectorAt]

theorem image_closed (h : R.Fit c) {b : Nat} {rs : List Record} (hb : R.closed[b]? = some rs) :
    R.image c (c.behind R.active (b + 1)) = c.closedLayout rs := by
  have hlen := (List.getElem?_eq_some_iff.1 hb).1
  rw [image, Config.distance_behind h.active_lt (by have := h.span; omega), sectorAt, hb]

theorem image_blank (h : R.Fit c) {b : Nat} (hb : R.closed.length ≤ b)
    (hn : b + 1 < c.sectorCount.toNat) :
    R.image c (c.behind R.active (b + 1)) = fun _ => c.eraseValue := by
  rw [image, Config.distance_behind h.active_lt hn, sectorAt, List.getElem?_eq_none hb]

theorem Stored.reads {e e' : Engine} (h : R.Stored c e) (hr : e.Reads e') : R.Stored c e' where
  toFit := h.toFit
  config := by rw [hr.1]; exact h.config
  placed := hr.placed h.placed
  hosts := hr.hosts h.hosts
  ate := by rw [hr.1]; exact h.ate
  data := by rw [hr.1]; exact h.data

end Ring

end NorStore
