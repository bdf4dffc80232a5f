import NorStore.Fault

/-!
# Outcomes of bench steps

A bench drives devices, stores and their clients with a list of steps, and records what each
step answered. A step either completes with a reply, fails with a `Fault` of the library, or is
refused by the bench itself before anything runs (a request for an iterator that was never
opened, a store operation before the store exists); refusals carry the bench's reason.
-/

namespace NorStore.Bench

/-- What one step answered. -/
inductive Outcome (α : Type) where
  /-- The step completed. -/
  | done (reply : α)
  /-- The step ran and failed. -/
  | failed (f : Fault)
  /-- The bench could not run the step. -/
  | refused (why : String)
  deriving Inhabited

/-- The outcome of a computation that may fail. -/
def Outcome.ofExcept : Except Fault α → Outcome α
  | .ok v => .done v
  | .error f => .failed f

/-- Applies `f` to a reply. -/
def Outcome.map (f : α → β) : Outcome α → Outcome β
  | .done v => .done (f v)
  | .failed e => .failed e
  | .refused w => .refused w

end NorStore.Bench
