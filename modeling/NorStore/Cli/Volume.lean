import NorStore.Cli.Run

/-!
# A model of a directory of files

The tool reaches files only through a `Disk`. This module gives one that is a value: a
directory tree held as a list of entries, each a path (its components) and either a file's
bytes or nothing for a directory. A run on it is a pure function from the tree before to the
report and the tree after, which is what lets its file handling be stated and checked.

*Paths.* A path is split at `/`; empty components and `.` are dropped and `..` takes back the
component before it. A path that starts with `/` is kept apart from the relative ones, under a
first component `/`, as is one that climbs above the top with `..`; both stand for
directories outside the tree, and those are taken to exist.

*Order.* The listing walks the tree in lexical order: the entries of a directory by name, each
directory right before its contents.
-/

namespace NorStore.Cli

/-- The components a path names. -/
def pathKey (path : String) : List String :=
  let steps := (path.splitOn "/").foldl (fun acc c =>
    if c.isEmpty || c == "." then acc
    else if c == ".." then
      match acc.getLast? with
      | none | some ".." | some "/" => acc ++ [c]
      | some _ => acc.dropLast
    else acc ++ [c]) []
  if path.startsWith "/" then "/" :: steps else steps

/-- Whether a path lies outside the tree. -/
def outside (key : List String) : Bool :=
  match key with
  | "/" :: _ | ".." :: _ => true
  | _ => false

/-- Whether one path comes before another in the walk: component by component, a directory
before what it holds. -/
def walksBefore : List String → List String → Bool
  | [], _ => true
  | _ :: _, [] => false
  | a :: as, b :: bs => if a == b then walksBefore as bs else decide (a < b)

/-- A directory tree: paths with a file's bytes, or `none` for a directory. -/
structure Volume where
  /-- The entries, at most one per path. -/
  entries : List (List String × Option ByteArray) := []
  deriving Inhabited

namespace Volume

/-- What is recorded at a path. -/
def find (v : Volume) (key : List String) : Option (Option ByteArray) :=
  v.entries.lookup key

/-- Whether a path is a directory: the top, one outside the tree, or one recorded as such. -/
def isDirectory (v : Volume) (key : List String) : Bool :=
  key.isEmpty || key == ["/"] || key.all (· == "..") || v.find key == some none

/-- What stands at a path. -/
def inspect (v : Volume) (path : String) : PathState :=
  let key := pathKey path
  let above := (List.range key.length).map key.take
  match above.find? (fun a => !v.isDirectory a) with
  | some a => if (v.find a).isSome then .blocked else .missing
  | none =>
    if v.isDirectory key then .directory
    else match v.find key with
      | some (some b) => .file b.size
      | _ => .missing

/-- The bytes of the file at a path; none for anything else. -/
def contents (v : Volume) (path : String) : ByteArray :=
  match v.find (pathKey path) with
  | some (some b) => b
  | _ => .empty

/-- Records an entry at a path, replacing what was there. -/
def record (v : Volume) (key : List String) (e : Option ByteArray) : Volume :=
  { entries := (key, e) :: v.entries.filter (·.1 != key) }

/-- Writes a file. -/
def put (v : Volume) (path : String) (b : ByteArray) : Volume :=
  v.record (pathKey path) (some b)

/-- Makes a directory and the directories above it that are missing. -/
def makeDirs (v : Volume) (path : String) : Volume :=
  let key := pathKey path
  ((List.range key.length).map fun n => key.take (n + 1)).foldl
    (fun v k => if (v.find k).isSome then v else v.record k none) v

/-- Reads a file as the tool would: its bytes, or why it cannot be read. -/
def fetch (v : Volume) (path : String) : Except String ByteArray :=
  match v.inspect path with
  | .file _ => .ok (v.contents path)
  | .directory => .error ("read " ++ path ++ ": is a directory")
  | .blocked => .error ("open " ++ path ++ ": not a directory")
  | .missing => .error ("open " ++ path ++ ": no such file or directory")

/-- Every path inside the tree in walk order, with the size of each file. -/
def listing (v : Volume) : List (String × Option Nat) :=
  let inside := v.entries.filter fun (k, _) => !outside k
  (inside.mergeSort fun a b => walksBefore a.1 b.1).map fun (k, e) =>
    ("/".intercalate k, e.map ByteArray.size)

/-- The tree as a disk: a run on it is a state transformer of the tree. -/
def disk : Disk (StateM Volume) where
  inspect path := (·.inspect path) <$> getThe Volume
  read path := (·.contents path) <$> getThe Volume
  write path b := modify (·.put path b)

end Volume

end NorStore.Cli
