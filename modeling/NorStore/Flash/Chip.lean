import NorStore.Fault

/-!
# A NOR flash part in memory

`Chip` holds the bytes of a NOR flash part together with the switches a test bench needs: a
strict mode that refuses to program bits back, write protection, a power budget that cuts power
part-way through a program operation, torn erases, and counters of erases per block and of reads
and writes that went through.

*Programming.* A program operation can only move bits away from the erased state: with erase
value `0xFF` each target byte becomes `old &&& new`, with any other erase value `old ||| new`.
Only an erase brings bytes back to the erase value, a whole erase block at a time.

*Order of checks.* Every access first fails on lost power; writes and erases then on write
protection; then on range (`[start, stop) beyond size`) and on alignment to the write block
(writes) or erase block (erases); a strict write then on the first byte that is neither erased
nor already equal to its new value. Only after all checks does anything change.

*Power cuts.* With a budget of `n` bytes armed, program operations together program at most `n`
bytes: the one that would pass the budget programs only what is left of it, counts as a write,
loses power and fails. An erase started with an empty budget loses power before erasing
anything, unless erases tear, in which case the first half of its first block is erased. From a
power loss on, every access fails until power is restored.
-/

namespace NorStore.Flash

/-- A NOR flash part held in memory, with its test switches and counters. -/
structure Chip where
  /-- The dimensions of the part. -/
  geometry : Geometry
  /-- The bytes of the part, `geometry.size` of them. -/
  cells : ByteArray
  /-- How many times each erase block has been erased. -/
  wear : Array Nat
  /-- Whether a program operation that would set bits back fails instead. -/
  strict : Bool := false
  /-- Whether an erase cut by power loss erases half of its first block first. -/
  tornErase : Bool := false
  /-- Whether the part has a write-protect switch at all. -/
  protectable : Bool := false
  /-- The position of the write-protect switch. -/
  locked : Bool := false
  /-- Bytes that may still be programmed before power is cut; negative means no limit. -/
  budget : Int := -1
  /-- Whether power has been lost. -/
  powerLost : Bool := false
  /-- Reads that went through. -/
  reads : Nat := 0
  /-- Writes that went through, a write cut by power loss included. -/
  writes : Nat := 0
  deriving Inhabited

/-- Operations on a chip: they may fail, and they change the chip whether or not they do. -/
abbrev ChipM := ExceptT Fault (StateM Chip)

/-- A byte after programming `new` over `old` on a part whose erase value is `erased`. -/
def program (erased old new : UInt8) : UInt8 :=
  if erased == 0xFF then old &&& new else old ||| new

namespace Geometry

/-- Accepts a geometry with no zero dimension whose units nest. -/
def validate (g : Geometry) : Except Fault Unit :=
  if g.hasZero then .error (.zeroGeometry g)
  else if !g.nests then .error (.unnested g)
  else .ok ()

/-- Accepts an access to `[start, start + length)` that lies inside the part and, for a unit of
more than one byte, covers whole units. -/
def check (g : Geometry) (start length unit : Nat) : Except Fault Unit :=
  if start + length > g.size then .error (.outOfRange start (start + length) g.size)
  else if unit > 1 && (start % unit != 0 || length % unit != 0) then
    .error (.unaligned start length unit)
  else .ok ()

end Geometry

namespace Chip

/-- A new part with every byte erased, or the reason its geometry is unusable. -/
def create (g : Geometry) : Except Fault Chip := do
  g.validate
  pure { geometry := g, cells := ByteArray.mk (Array.replicate g.size g.eraseValue),
         wear := Array.replicate g.blockCount 0 }

/-- Fails with `f`. -/
def fail (f : Fault) : ChipM α :=
  throw f

/-- Runs a check of the geometry. -/
def checked (r : Except Fault Unit) : ChipM Unit :=
  match r with
  | .ok () => pure ()
  | .error f => throw f

/-- The `length` bytes from `start`. -/
def read (start length : Nat) : ChipM ByteArray := do
  let c ← get
  if c.powerLost then fail (.kind .powerLoss)
  checked (c.geometry.check start length 1)
  set { c with reads := c.reads + 1 }
  pure (c.cells.extract start (start + length))

/-- Whether write protection is on. -/
def isProtected (c : Chip) : Bool :=
  c.protectable && c.locked

/-- The first position in `[start, start + data.size)` whose byte is neither erased nor equal
to the byte `data` would program there. -/
def firstConflict (c : Chip) (start : Nat) (data : ByteArray) : Option Nat :=
  (List.range data.size).find? fun i =>
    let cur := c.cells.get! (start + i)
    cur != c.geometry.eraseValue && cur != data.get! i

/-- The cells after programming the first `n` bytes of `data` from `start`. -/
def programmed (c : Chip) (start : Nat) (data : ByteArray) (n : Nat) : ByteArray :=
  (List.range n).foldl (fun cells i =>
    cells.set! (start + i) (program c.geometry.eraseValue (cells.get! (start + i)) (data.get! i)))
    c.cells

/-- Programs `data` from `start`, which must cover whole write blocks. -/
def write (start : Nat) (data : ByteArray) : ChipM Unit := do
  let c ← get
  if c.powerLost then fail (.kind .powerLoss)
  if c.isProtected then fail (.kind .writeProtected)
  checked (c.geometry.check start data.size c.geometry.writeBlock)
  if c.strict then
    if let some i := c.firstConflict start data then fail (.notErased (start + i))
  let cut := decide (0 ≤ c.budget) && decide (c.budget < data.size)
  let n := if cut then c.budget.toNat else data.size
  let budget := if 0 ≤ c.budget then c.budget - n else c.budget
  set { c with cells := c.programmed start data n, budget := budget, writes := c.writes + 1,
               powerLost := c.powerLost || cut }
  if cut then fail (.kind .powerLoss)

/-- The cells with `[start, stop)` set to the erase value. -/
def blanked (c : Chip) (start stop : Nat) : ByteArray :=
  (List.range (stop - start)).foldl (fun cells i => cells.set! (start + i) c.geometry.eraseValue)
    c.cells

/-- Erases `[start, start + length)`, which must cover whole erase blocks. -/
def erase (start length : Nat) : ChipM Unit := do
  let c ← get
  if c.powerLost then fail (.kind .powerLoss)
  if c.isProtected then fail (.kind .writeProtected)
  checked (c.geometry.check start length c.geometry.eraseBlock)
  if c.budget == 0 then
    let cells := if c.tornErase then c.blanked start (start + c.geometry.eraseBlock / 2)
      else c.cells
    set { c with cells := cells, powerLost := true }
    fail (.kind .powerLoss)
  let eb := c.geometry.eraseBlock
  let wear := (List.range (length / eb)).foldl
    (fun w i => w.modify (start / eb + i) (· + 1)) c.wear
  set { c with cells := c.blanked start (start + length), wear := wear }

/-- Turns on write protection and makes it switchable. -/
def enableProtection (c : Chip) : Chip :=
  { c with protectable := true, locked := true }

/-- Sets the write-protect switch; fails only on lost power. -/
def setProtection (on : Bool) : ChipM Unit := do
  let c ← get
  if c.powerLost then fail (.kind .powerLoss)
  set { c with locked := on }

/-- Arms a power cut after `n` more programmed bytes; a negative `n` disarms it. -/
def cutPowerAfter (c : Chip) (n : Int) : Chip :=
  { c with budget := n }

/-- Restores power and disarms any cut. -/
def restore (c : Chip) : Chip :=
  { c with powerLost := false, budget := -1 }

/-- Flips the bits of `mask` in the byte at `at`. -/
def corrupt (c : Chip) (position : Nat) (mask : UInt8) : Chip :=
  { c with cells := c.cells.set! position (c.cells.get! position ^^^ mask) }

end Chip

end NorStore.Flash
