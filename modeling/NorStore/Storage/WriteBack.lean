import NorStore.Storage.Cache

/-!
# The write-back cache as it is kept

The cache keeps three pieces of state that have to agree. A key map takes each cached key to
the node of the recency list that holds its entry. The recency list orders the nodes from most
to least recently used. A running count of the dirty entries goes up and down as `setDirty`
changes a mark, on every path that changes one, eviction and removal included. Nodes are
places in a heap: a node is a number, the heap says what each one holds, and a new entry takes
a node never used before.

The operations below follow the cache step by step: a hit moves its node to the front of the
list, a put of a new key into a full cache evicts the node at the back only when its entry is
clean, and a removal clears the mark before it unlinks the node and drops the key.

`toCache` reads the list of entries off the recency list; `Cache` is that view, and the proofs
show each operation acts on it as the corresponding operation of `Cache`.
-/

namespace NorStore.Storage

/-- A least-recently-used cache of small values, as a key map, a recency list of nodes, a heap
of entries and a count of the dirty ones. -/
structure WriteBack where
  /-- How many entries it holds at most. -/
  capacity : Int
  /-- The longest value it takes. -/
  maxValue : Int
  /-- The key map: each cached key with its node. -/
  index : List (ByteArray × Nat) := []
  /-- The recency list: the nodes, most recently used first. -/
  lru : List Nat := []
  /-- The entry each node holds. -/
  heap : Nat → CacheEntry := fun _ => default
  /-- The next node never used. -/
  fresh : Nat := 0
  /-- How many entries are dirty, counted as marks change. -/
  dirty : Int := 0
  /-- Lookups that found their key. -/
  hits : Nat := 0
  /-- Lookups that did not. -/
  misses : Nat := 0
  deriving Inhabited

namespace WriteBack

/-- The heap after node `n` is made to hold `e`. -/
def write (h : Nat → CacheEntry) (n : Nat) (e : CacheEntry) : Nat → CacheEntry :=
  fun m => if m = n then e else h m

/-- An empty cache. -/
def create (capacity maxValue : Int) : WriteBack :=
  { capacity, maxValue }

/-- Whether a value of `n` bytes can be cached. -/
def fits (w : WriteBack) (n : Int) : Bool :=
  w.capacity > 0 && n > 0 && n ≤ w.maxValue

/-- The node of a key, from the key map. -/
def node? (w : WriteBack) (key : ByteArray) : Option Nat :=
  (w.index.find? (·.1 == key)).map (·.2)

/-- The key map without a key. -/
def unmap (w : WriteBack) (key : ByteArray) : List (ByteArray × Nat) :=
  w.index.filter (·.1 != key)

/-- The entries of the recency list, most recently used first. -/
def toCache (w : WriteBack) : Cache :=
  { capacity := w.capacity, maxValue := w.maxValue, entries := w.lru.map w.heap,
    hits := w.hits, misses := w.misses }

/-- Sets the dirty mark of a node's entry, counting the change. -/
def setDirty (w : WriteBack) (n : Nat) (d : Bool) : WriteBack :=
  if (w.heap n).dirty == d then w
  else
    { w with heap := write w.heap n { w.heap n with dirty := d },
             dirty := if d then w.dirty + 1 else w.dirty - 1 }

/-- Moves a node to the front of the recency list. -/
def moveToFront (w : WriteBack) (n : Nat) : WriteBack :=
  { w with lru := n :: w.lru.erase n }

/-- The value of a key, moving its node to the front and counting the lookup. -/
def get (w : WriteBack) (key : ByteArray) : WriteBack × Option ByteArray :=
  match w.node? key with
  | some n => ({ w.moveToFront n with hits := w.hits + 1 }, some (w.heap n).value)
  | none => ({ w with misses := w.misses + 1 }, none)

/-- The entry of a key, touching nothing. -/
def peek (w : WriteBack) (key : ByteArray) : Option CacheEntry :=
  (w.node? key).map w.heap

/-- Whether a key is cached with exactly this value. -/
def holds (w : WriteBack) (key value : ByteArray) : Bool :=
  match w.node? key with
  | some n => (w.heap n).value == value
  | none => false

/-- The entry that putting `key` would push out. -/
def victim (w : WriteBack) (key : ByteArray) : Option CacheEntry :=
  if (w.node? key).isSome || (w.lru.length : Int) < w.capacity then none
  else w.lru.getLast?.map w.heap

/-- Unlinks the node at the back, clears its mark and drops its key. -/
def evict (w : WriteBack) : WriteBack :=
  match w.lru.getLast? with
  | some n =>
    let w' := { w with lru := w.lru.dropLast }.setDirty n false
    { w' with index := w'.unmap (w'.heap n).key }
  | none => w

/-- Links a fresh node holding a new entry at the front, setting its mark and mapping its key. -/
def link (w : WriteBack) (key value : ByteArray) (d : Bool) : WriteBack :=
  let n := w.fresh
  let w' := { w with heap := write w.heap n ⟨key, value, false⟩, fresh := n + 1 }.setDirty n d
  { w' with index := (key, n) :: w'.unmap key, lru := n :: w'.lru }

/-- Stores a value; false, with nothing changed, when making room would evict a dirty entry. -/
def put (w : WriteBack) (key value : ByteArray) (d : Bool) : WriteBack × Bool :=
  match w.node? key with
  | some n =>
    let w' := w.moveToFront n
    let e := w'.heap n
    ({ w' with heap := write w'.heap n { e with value := value } }.setDirty n
      (e.dirty || d), true)
  | none =>
    let room : Option WriteBack :=
      if (w.lru.length : Int) ≥ w.capacity then
        match w.lru.getLast? with
        | some b => if (w.heap b).dirty then none else some w.evict
        | none => none
      else some w
    match room with
    | some w' => (w'.link key value d, true)
    | none => (w, false)

/-- Clears the dirty mark of a key that still holds `value`. -/
def markClean (w : WriteBack) (key value : ByteArray) : WriteBack :=
  match w.node? key with
  | some n => if (w.heap n).value == value then w.setDirty n false else w
  | none => w

/-- The dirty entries, least recently used first. -/
def dirtyEntries (w : WriteBack) : List CacheEntry :=
  (w.lru.reverse.map w.heap).filter (·.dirty)

/-- Drops the entry of a key, dirty or not. -/
def remove (w : WriteBack) (key : ByteArray) : WriteBack :=
  match w.node? key with
  | some n =>
    let w' := w.setDirty n false
    { w' with lru := w'.lru.erase n, index := w'.unmap key }
  | none => w

/-- Drops every entry, the dirty count and the hit counts. -/
def clear (w : WriteBack) : WriteBack :=
  { w with index := [], lru := [], dirty := 0, hits := 0, misses := 0 }

/-- How many entries there are. -/
def size (w : WriteBack) : Nat :=
  w.lru.length

/-- The share of lookups that hit, zero before any lookup. -/
def hitRate (w : WriteBack) : Float :=
  if w.hits + w.misses > 0 then Float.ofNat w.hits / Float.ofNat (w.hits + w.misses) else 0

end WriteBack

end NorStore.Storage
