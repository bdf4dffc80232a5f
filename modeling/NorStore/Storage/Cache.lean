/-!
# The write-back cache

The user partition is fronted by a small cache of recently used values. Entries are kept from
most to least recently used. An entry is *dirty* when it holds a value not yet written to
flash; the cache never drops a dirty entry on its own, so a caller makes room by writing the
least recently used entry back first (`victim` names it).

* `fits n`: a value of `n` bytes can be cached when the cache has room for any entry at all,
  `n` is positive and at most the value bound.
* `get` answers a copy and moves the entry to the front, counting a hit or a miss; `peek`
  answers a copy and changes nothing.
* `put` replaces an entry's value and moves it to the front, keeping it dirty if it was. A new
  key takes the least recently used entry's place when the cache is full, unless that entry is
  dirty: then nothing changes and `put` answers false.
* `markClean` clears the dirty mark only while the entry still holds the value that was
  written back.
* `clear` drops every entry and the hit counts.

This is the cache as a list of entries. The cache as it is kept, with its key map, its linked
recency list and its running count of dirty entries, is `WriteBack`; its `toCache` is this list,
and each of its operations acts on the list as the operation of the same name here.
-/

namespace NorStore.Storage

/-- One cached value. -/
structure CacheEntry where
  /-- The key. -/
  key : ByteArray
  /-- The value. -/
  value : ByteArray
  /-- Whether the value still has to be written to flash. -/
  dirty : Bool
  deriving Inhabited

/-- A least-recently-used cache of small values. -/
structure Cache where
  /-- How many entries it holds at most. -/
  capacity : Int
  /-- The longest value it takes. -/
  maxValue : Int
  /-- The entries, most recently used first. -/
  entries : List CacheEntry := []
  /-- Lookups that found their key. -/
  hits : Nat := 0
  /-- Lookups that did not. -/
  misses : Nat := 0
  deriving Inhabited

namespace Cache

/-- An empty cache. -/
def create (capacity maxValue : Int) : Cache :=
  { capacity, maxValue }

/-- Whether a value of `n` bytes can be cached. -/
def fits (c : Cache) (n : Int) : Bool :=
  c.capacity > 0 && n > 0 && n ≤ c.maxValue

/-- The entry of a key, if cached. -/
def find? (c : Cache) (key : ByteArray) : Option CacheEntry :=
  c.entries.find? (·.key == key)

/-- The entries without the one of `key`. -/
def without (c : Cache) (key : ByteArray) : List CacheEntry :=
  c.entries.filter (·.key != key)

/-- How many entries there are. -/
def size (c : Cache) : Nat :=
  c.entries.length

/-- How many entries are dirty. -/
def dirtyCount (c : Cache) : Nat :=
  (c.entries.filter (·.dirty)).length

/-- The value of a key, moving it to the front and counting the lookup. -/
def get (c : Cache) (key : ByteArray) : Cache × Option ByteArray :=
  match c.find? key with
  | some e => ({ c with entries := e :: c.without key, hits := c.hits + 1 }, some e.value)
  | none => ({ c with misses := c.misses + 1 }, none)

/-- Whether a key is cached with exactly this value. -/
def holds (c : Cache) (key value : ByteArray) : Bool :=
  match c.find? key with
  | some e => e.value == value
  | none => false

/-- The least recently used entry. -/
def last? (c : Cache) : Option CacheEntry :=
  c.entries.getLast?

/-- The entry that putting `key` would push out. -/
def victim (c : Cache) (key : ByteArray) : Option CacheEntry :=
  if (c.find? key).isSome || (c.size : Int) < c.capacity then none else c.last?

/-- Stores a value; false, with nothing changed, when making room would drop a dirty entry. -/
def put (c : Cache) (key value : ByteArray) (dirty : Bool) : Cache × Bool :=
  match c.find? key with
  | some e => ({ c with entries := ⟨key, value, e.dirty || dirty⟩ :: c.without key }, true)
  | none =>
    let room : Option (List CacheEntry) :=
      if (c.size : Int) ≥ c.capacity then
        match c.last? with
        | some e => if e.dirty then none else some c.entries.dropLast
        | none => none
      else some c.entries
    match room with
    | some kept => ({ c with entries := ⟨key, value, dirty⟩ :: kept }, true)
    | none => (c, false)

/-- Clears the dirty mark of a key that still holds `value`. -/
def markClean (c : Cache) (key value : ByteArray) : Cache :=
  { c with entries := c.entries.map fun e =>
      if e.key == key && e.value == value then { e with dirty := false } else e }

/-- The dirty entries, least recently used first. -/
def dirtyEntries (c : Cache) : List CacheEntry :=
  (c.entries.filter (·.dirty)).reverse

/-- Drops the entry of a key. -/
def remove (c : Cache) (key : ByteArray) : Cache :=
  { c with entries := c.without key }

/-- Drops every entry and the hit counts. -/
def clear (c : Cache) : Cache :=
  { c with entries := [], hits := 0, misses := 0 }

/-- The share of lookups that hit, zero before any lookup. -/
def hitRate (c : Cache) : Float :=
  if c.hits + c.misses > 0 then Float.ofNat c.hits / Float.ofNat (c.hits + c.misses) else 0

end Cache

end NorStore.Storage
