import NorStore.Store.Read

/-!
# Iterating over keys

An iterator walks the table from the newest entry back and stops at the first valid entry of
each key it has not met before; a key whose newest entry is a deletion is passed over. It yields
each live key once, newest first, with the length of its value and the address of its entry.
An iterator that has run out, failed or been closed answers `notFound` from then on.

An iterator is a value: it keeps its walk and the keys it has met, and each step reads the
store as it is at that moment.
-/

namespace NorStore

/-- What an iterator yields for a key. -/
structure EntryInfo where
  /-- The key, up to its first NUL. -/
  key : ByteArray
  /-- The length of its newest value. -/
  length : Nat
  /-- Where its newest entry is. -/
  addr : Address
  deriving Inhabited

/-- A walk over the live keys of a store. -/
structure Iterator where
  /-- The walk of the table. -/
  walker : Walker
  /-- Keys met so far. -/
  seen : List (Vector UInt8 24) := []
  /-- The key last yielded, while it is current. -/
  current : Option EntryInfo := none
  /-- Whether the iterator has ended. -/
  finished : Bool := false
  deriving Inhabited

namespace Iterator

/-- The iterator once it has ended. -/
def finish (it : Iterator) : Iterator :=
  { it with finished := true, current := none }

/-- The key last yielded, or `notFound` when there is none. -/
def info (it : Iterator) : Except Fault EntryInfo :=
  match it.current with
  | some c => if it.finished then .error (.kind .notFound) else .ok c
  | none => .error (.kind .notFound)

end Iterator

namespace StoreM

/-- A new iterator over the store's live keys. -/
def iterator : StoreM Iterator := do
  let s ← store
  if !s.mounted then throw (.store "iterate" ByteArray.empty none "" (some (.kind .notMounted)))
  pure { walker := Walker.start s }

/-- Moves an iterator to its next key; the iterator comes back with the outcome, ended when
the outcome is a fault. -/
def advance (it : Iterator) : StoreM (Iterator × Except Fault Unit) := do
  if it.finished then return (it, .error (.kind .notFound))
  tryCatch (go (it.walker.limit + 1) it) fun f => pure (it.finish, .error f)
where
  /-- Walks on until a new live key or the end. -/
  go : Nat → Iterator → StoreM (Iterator × Except Fault Unit)
    | 0, it => pure (it.finish, .error (.kind .notFound))
    | fuel + 1, it => do
      let (slot, here, w) ← it.walker.next
      let it := { it with walker := w }
      let mut it := it
      if let .valid e := slot then
        if !it.seen.contains e.key then
          it := { it with seen := e.key :: it.seen }
          if e.length != 0 then
            return ({ it with current := some ⟨e.keyBytes, e.length.toNat, here⟩ }, .ok ())
      if ← w.done then return (it.finish, .error (.kind .notFound))
      go fuel it

/-- The live keys, newest first. -/
def keys : StoreM (List ByteArray) := do
  let it ← iterator
  go (it.walker.limit + 1) it []
where
  /-- Collects keys until the iterator ends. -/
  go : Nat → Iterator → List ByteArray → StoreM (List ByteArray)
    | 0, _, acc => pure acc.reverse
    | fuel + 1, it, acc => do
      let (it, r) ← advance it
      match r with
      | .error f => if f.is .notFound then pure acc.reverse else throw f
      | .ok () =>
        match it.info with
        | .ok i => go fuel it (i.key :: acc)
        | .error f => throw f

end StoreM

end NorStore
