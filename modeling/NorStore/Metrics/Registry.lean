import NorStore.Decimal.Notation

/-!
# Meters

A registry of named series. A series is a metric name with a set of labels and a value:
counters only grow, gauges are set, and timed operations count their observations (the time
they took is not kept, since the library has no clock). A series exists from the first time it
is touched, even when touched by adding zero.

A series is identified by `name{label="value",…}` with the labels sorted by name, or by the bare
name when it has no labels. Label values are written as they are, so the text does not always
tell two label sets apart.
-/

namespace NorStore.Metrics

/-- One labelled series. -/
structure Series where
  /-- The metric's name. -/
  name : String
  /-- Label names and values. -/
  labels : List (String × String)
  /-- The counter or gauge value, or how many observations a timing has. -/
  value : Int
  deriving Inhabited, Repr

/-- The text that identifies a series. -/
def sampleId (name : String) (labels : List (String × String)) : String :=
  if labels.isEmpty then name
  else
    let sorted := labels.mergeSort fun a b => a.1 ≤ b.1
    name ++ "\x7b" ++ ",".intercalate (sorted.map fun (k, v) => k ++ "=\"" ++ v ++ "\"") ++ "\x7d"

/-- Whether a series has this name and label set. -/
def Series.named (s : Series) (name : String) (labels : List (String × String)) : Bool :=
  s.name == name && sampleId s.name s.labels == sampleId name labels

/-- All series in the order they were first touched. -/
structure Registry where
  /-- The series. -/
  series : List Series := []
  deriving Inhabited

namespace Registry

/-- The registry with the value of a series changed by `f`, the series starting at zero. -/
def update (r : Registry) (name : String) (labels : List (String × String)) (f : Int → Int) :
    Registry :=
  if r.series.any (Series.named · name labels) then
    { series := r.series.map fun s => if s.named name labels then { s with value := f s.value } else s }
  else
    { series := r.series ++ [⟨name, labels, f 0⟩] }

/-- Adds to a counter or counts one more observation. -/
def add (r : Registry) (name : String) (labels : List (String × String)) (n : Int) : Registry :=
  r.update name labels (· + n)

/-- Sets a gauge. -/
def setTo (r : Registry) (name : String) (labels : List (String × String)) (v : Int) : Registry :=
  r.update name labels fun _ => v

/-- The samples, identifier and value of every series, ordered by identifier. -/
def samples (r : Registry) : List (String × Int) :=
  (r.series.map fun s => (sampleId s.name s.labels, s.value)).mergeSort fun a b => a.1 ≤ b.1

/-- The value of the series a name and labels identify, zero when there is none. -/
def valueOf (r : Registry) (name : String) (labels : List (String × String)) : Int :=
  match r.samples.find? (·.1 == sampleId name labels) with
  | some (_, v) => v
  | none => 0

/-- One operation of a store on a partition, with its outcome `ok`, `not_found` or `error`. -/
def recordOperation (r : Registry) (partition op status : String) : Registry :=
  (r.add "nvs_operations_total" [("partition", partition), ("operation", op), ("status", status)] 1
    ).add "nvs_operation_duration_seconds" [("partition", partition), ("operation", op)] 1

/-- One closing of an active sector. -/
def recordRotation (r : Registry) (partition : String) : Registry :=
  r.add "nvs_sector_rotations_total" [("partition", partition)] 1

/-- One collection of a closed sector that copied `relocated` entries. -/
def recordCollection (r : Registry) (partition : String) (relocated : Nat) : Registry :=
  (r.add "nvs_gc_runs_total" [("partition", partition)] 1).add
    "nvs_gc_relocated_entries_total" [("partition", partition)] relocated

/-- One physical sector erase. -/
def recordErase (r : Registry) (partition : String) : Registry :=
  r.add "nvs_sector_erases_total" [("partition", partition)] 1

/-- One repair at mount, of kind `torn_entry`, `orphaned_data` or `gc_restart`. -/
def recordRecovery (r : Registry) (partition kind : String) : Registry :=
  r.add "nvs_recoveries_total" [("partition", partition), ("kind", kind)] 1

/-- The free space last reported. -/
def setFreeSpace (r : Registry) (partition : String) (bytes : Int) : Registry :=
  r.setTo "nvs_free_space_bytes" [("partition", partition)] bytes

/-- One cache lookup, a hit or a miss. -/
def recordLookup (r : Registry) (partition : String) (hit : Bool) : Registry :=
  if hit then r.add "nvs_cache_hits_total" [("partition", partition)] 1
  else r.add "nvs_cache_misses_total" [("partition", partition)] 1

/-- A write-back of `n` cache entries leaving `dirty` still dirty. -/
def recordFlush (r : Registry) (partition : String) (n dirty : Nat) : Registry :=
  (r.add "nvs_cache_flushes_total" [("partition", partition)] n).setTo
    "nvs_cache_dirty_entries" [("partition", partition)] dirty

/-- How many cache entries are dirty. -/
def setDirty (r : Registry) (partition : String) (dirty : Nat) : Registry :=
  r.setTo "nvs_cache_dirty_entries" [("partition", partition)] dirty

/-- One mount attempt of a partition, successful or not. -/
def recordMount (r : Registry) (partition : String) (ok : Bool) : Registry :=
  r.add "nvs_partition_mounts_total" [("partition", partition),
    ("status", if ok then "ok" else "error")] 1

/-- One partition erased after failing to mount. -/
def recordReformat (r : Registry) (partition : String) : Registry :=
  r.add "nvs_partition_reformats_total" [("partition", partition)] 1

end Registry

/-- A series value as written in reports: the general notation of the double nearest to it. -/
def showValue (v : Int) : String :=
  Decimal.ofFloat (Float.ofInt v)

end NorStore.Metrics
