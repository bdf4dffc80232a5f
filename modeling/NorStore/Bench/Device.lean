import NorStore.Flash.Chip
import NorStore.Bench.Outcome

/-!
# Driving a flash part

The steps a bench can apply to a flash part directly, beside any store on it: reading, writing
and erasing ranges, arming and clearing power cuts, switching write protection and strict mode,
flipping bits, and reading its erase counters, access counters and whole content.
-/

namespace NorStore.Bench

/-- One step applied to a flash part. -/
inductive DeviceStep where
  /-- Reads `length` bytes at `start`, or up to the end when no length is given. -/
  | read (start : Nat) (length : Option Nat)
  /-- Programs bytes at `start`. -/
  | write (start : Nat) (data : ByteArray)
  /-- Erases `length` bytes at `start`. -/
  | erase (start length : Nat)
  /-- Arms a power cut after `n` more programmed bytes. -/
  | cut (n : Int)
  /-- Restores power. -/
  | restore
  /-- Sets the write-protect switch. -/
  | protect (on : Bool)
  /-- Flips the bits of `mask` in the byte at `position`. -/
  | corrupt (position : Nat) (mask : UInt8)
  /-- Turns strict mode on or off. -/
  | setStrict (on : Bool)
  /-- Reads the erase counters. -/
  | eraseCounts
  /-- Reads the access counters. -/
  | stats
  /-- Reads the whole content. -/
  | snapshot
  deriving Inhabited

/-- What a device step answers. -/
inductive DeviceReply where
  /-- Nothing to report. -/
  | unit
  /-- Bytes read. -/
  | bytes (b : ByteArray)
  /-- Erase counts per block. -/
  | counts (c : List Nat)
  /-- Reads and writes that went through. -/
  | stats (reads writes : Nat)
  deriving Inhabited

/-- Applies a step to a chip. -/
def DeviceStep.run (s : DeviceStep) (c : Flash.Chip) : Flash.Chip × Outcome DeviceReply :=
  let onChip (act : Flash.ChipM DeviceReply) : Flash.Chip × Outcome DeviceReply :=
    let (r, c) := (act.run).run c
    (c, Outcome.ofExcept r)
  match s with
  | .read start length =>
    onChip (.bytes <$> Flash.Chip.read start (length.getD (c.geometry.size - start)))
  | .write start data => onChip (Flash.Chip.write start data *> pure .unit)
  | .erase start length => onChip (Flash.Chip.erase start length *> pure .unit)
  | .cut n => (c.cutPowerAfter n, .done .unit)
  | .restore => (c.restore, .done .unit)
  | .protect on => onChip (Flash.Chip.setProtection on *> pure .unit)
  | .corrupt position mask =>
    if position < c.geometry.size then (c.corrupt position mask, .done .unit)
    else (c, .refused "corrupt offset beyond the device")
  | .setStrict on => ({ c with strict := on }, .done .unit)
  | .eraseCounts => (c, .done (.counts c.wear.toList))
  | .stats => (c, .done (.stats c.reads c.writes))
  | .snapshot => (c, .done (.bytes c.cells))

end NorStore.Bench
