import NorStore.Decimal.Notation
import NorStore.Decimal.Whole
import NorStore.Health.Site
import NorStore.Identity.Record
import NorStore.Text.Words
import NorStore.Time.Calendar

/-!
# Commands of the command-line tool

A command is a list of words: its name (in any case) and its arguments. Commands work on an
open storage manager and write their report to the console. A partition argument is
`factory` (or `fact`) or `user` in any case; a command that takes an optional partition
works on both partitions, or on the user partition for commands that change values, when it
is left out. A wrong number of arguments is a *usage* failure naming the command's form.

* `dump`, `get`, `set`, `del`, `hist` list, read, write, delete and read back old versions
  of keys; `fget key` reads both partitions and `fget` alone dumps them, and `set` with a key
  alone deletes it.
* `free` and `stat` report space and the store cursors, with a line for the cache.
* `clear` and `format` empty a partition.
* `id` shows the device identity, and `id serial revision` provisions it.
* `health` grades the partitions and the cache; `sync` writes the cache back.
-/

namespace NorStore.Cli

open Storage

/-- The text of `help`. -/
def helpText : String :=
  "Commands:\n" ++
  "  dump [partition]                 list every key and value\n" ++
  "  get <key> [partition]            read a key (both partitions by default)\n" ++
  "  set <key> <value> [partition]    write a string value (user by default)\n" ++
  "  del <key> [partition]            delete a key (user by default)\n" ++
  "  hist <key> <n> [partition]       read the n-th older value of a key\n" ++
  "  free [partition]                 bytes left for new values\n" ++
  "  stat [partition]                 cursors, geometry and space usage\n" ++
  "  clear <partition>                erase every entry of a partition\n" ++
  "  format <partition>               erase and remount a partition\n" ++
  "  id [serial hw-revision]          show or provision the device identity\n" ++
  "  health                           grade partition usage and the cache\n" ++
  "  sync                             write cached values to flash\n" ++
  "  help                             show this help\n" ++
  "Partitions: factory (fact), user\n"

/-- Writes text to the console. -/
def say (s : String) : SiteM Unit :=
  SiteM.out s.toUTF8

/-- Writes bytes to the console. -/
def sayBytes (b : ByteArray) : SiteM Unit :=
  SiteM.out b

/-- Text left-justified in a field of `width` characters. -/
def padRight (width : Nat) (s : String) : String :=
  s ++ String.ofList (List.replicate (width - s.length) ' ')

/-- Fails with the usage of a command. -/
def usage (form : String) : SiteM α :=
  throw (.usage form)

/-- The partitions named by the optional argument at `i`, or `dflt` without one. -/
def partitionsArg (args : List ByteArray) (i : Nat) (dflt : List Partition) :
    SiteM (List Partition) :=
  match args[i]? with
  | none => pure dflt
  | some a =>
    match Partition.parse a with
    | .ok p => pure [p]
    | .error f => throw f

/-- The first of a list of partitions; lists here are never empty. -/
def firstOf (ps : List Partition) : Partition :=
  ps.headD .user

/-- A command name as it is matched: letters in lower case. -/
def commandName (w : ByteArray) : String :=
  String.ofList ((Utf8.ofBytes w).map fun
    | .char c => Blank.lowerChar c
    | .stray _ => '�')

/-- The command `dump [partition]`. -/
def dump (args : List ByteArray) : SiteM Unit := do
  if args.length > 1 then usage "dump [partition]"
  for p in ← partitionsArg args 0 Partition.all do
    say ("Dump " ++ p.name ++ ":\n")
    SiteM.dump p.index

/-- Reads a key from partitions, reporting a missing key as such. -/
def getIn (key : ByteArray) (parts : List Partition) : SiteM Unit := do
  for p in parts do
    let label := padRight 9 ("[" ++ p.name.toUpper ++ "]")
    let found ← tryCatch (some <$> SiteM.getPlain p.index key) fun f =>
      if f.is .notFound then pure none else throw f
    match found with
    | none => sayBytes ((label ++ " Key: ").toUTF8 ++ key ++ " not found\n".toUTF8)
    | some v =>
      sayBytes ((label ++ " Key: ").toUTF8 ++ key ++ (", Value: " ++ SiteM.formatValue v ++ "\n").toUTF8)

/-- The command `get <key> [partition]`. -/
def get (args : List ByteArray) : SiteM Unit := do
  match args with
  | [key] | [key, _] => getIn key (← partitionsArg args 1 Partition.all)
  | _ => usage "get <key> [partition]"

/-- The command `del <key> [partition]`. -/
def del (args : List ByteArray) : SiteM Unit := do
  match args with
  | [key] | [key, _] => SiteM.delete (firstOf (← partitionsArg args 1 [.user])).index key
  | _ => usage "del <key> [partition]"

/-- The command `set <key> <value> [partition]`; `set <key>` deletes. -/
def set (args : List ByteArray) : SiteM Unit := do
  match args with
  | [_] => del args
  | [key, value] | [key, value, _] =>
    let p := firstOf (← partitionsArg args 2 [.user])
    let n ← SiteM.writePlain p.index key value
    if n == 0 then sayBytes (key ++ " unchanged\n".toUTF8)
    else sayBytes (("wrote " ++ toString n ++ " bytes to ").toUTF8 ++ key ++ "\n".toUTF8)
  | _ => usage "set <key> <value> [partition]"

/-- The command `hist <key> <n> [partition]`: the value of the `n`-th older version, after the partition's
cache is written back. -/
def history (args : List ByteArray) : SiteM Unit := do
  match args with
  | key :: count :: rest =>
    if rest.length > 1 then usage "hist <key> <n> [partition]"
    let n ← match (String.fromUTF8? count).bind (Decimal.readSigned 64) with
      | some n => if n < 0 then usage "history index must be a non-negative integer" else pure n
      | none => usage "history index must be a non-negative integer"
    let p := firstOf (← partitionsArg args 2 [.user])
    SiteM.flush p.index
    let q ← SiteM.resolve p.index
    let size := ((← SiteM.manager).store q).config.maxValueSize.toNat
    let (_, bytes) ← SiteM.onStore q (StoreM.readVersion key size n)
    sayBytes ("Key: ".toUTF8 ++ key ++
      (", Version: " ++ toString n ++ ", Value: " ++ SiteM.formatValue bytes ++ "\n").toUTF8)
  | _ => usage "hist <key> <n> [partition]"

/-- The command `free [partition]`. -/
def free (args : List ByteArray) : SiteM Unit := do
  for p in ← partitionsArg args 0 Partition.all do
    let q ← SiteM.resolve p.index
    let n ← SiteM.onStore q StoreM.freeSpace
    say (padRight 8 (p.name ++ ":") ++ " " ++ toString n ++ " bytes free\n")

/-- The command `stat [partition]`, then the cache's figures when there is a cache. -/
def stat (args : List ByteArray) : SiteM Unit := do
  for p in ← partitionsArg args 0 Partition.all do
    let q ← SiteM.resolve p.index
    let st ← SiteM.onStore q StoreM.stat
    let u := st.usage
    say (p.name ++ " partition:\n" ++
      "  Sectors:      " ++ toString st.config.sectorCount.toNat ++ " x " ++
        toString st.config.sectorSize.toNat ++ " bytes (write block " ++
        toString st.config.writeBlock.toNat ++ ", ATE " ++ toString st.entrySize.toNat ++ ")\n" ++
      "  Active:       sector " ++ toString st.activeSector.toNat ++ ", ATE " ++
        st.ateCursor.render ++ ", data " ++ st.dataCursor.render ++ "\n" ++
      "  Live entries: " ++ toString u.live ++ "\n" ++
      "  Free:         " ++ toString u.free ++ " bytes (" ++ toString u.reclaimable ++
        " reclaimable, " ++ toString (u.free - u.reclaimable) ++ " available)\n")
  let m ← SiteM.manager
  if let some c := m.cache then
    say ("Cache: " ++ toString c.size ++ "/" ++ toString m.options.cacheEntries ++ " entries, " ++
      toString c.dirtyCount ++ " dirty, " ++ toString c.hits ++ " hits, " ++ toString c.misses ++
      " misses (" ++ Decimal.ofFloatFixed (c.hitRate * 100) 1 ++ "%)\n")

/-- The commands `clear <partition>` and `format <partition>`. -/
def emptyPartition (form : String) (act : Int → SiteM Unit) (args : List ByteArray) :
    SiteM Unit := do
  match args with
  | [name] =>
    match Partition.parse name with
    | .ok p => act p.index
    | .error f => throw f
  | _ => usage form

/-- The text of a provisioning time: the time in UTC, or the zero time when it is unknown. -/
def provisionedText (seconds : Option Int) : String :=
  match seconds with
  | some s => (Civil.ofSeconds s).render
  | none => Civil.render ⟨1, 1, 1, 0, 0, 0⟩

/-- The command `id` shows the identity record; `id serial revision` provisions it first. -/
def identity (fresh : Identity.Fresh) (args : List ByteArray) : SiteM Unit := do
  let view := SiteM.view Partition.factory.index
  let r ← match args with
    | [] => Identity.load Uuid.codec view
    | [serial, hardware] => Identity.provision Uuid.codec view serial hardware fresh
    | _ => usage "id [serial hw-revision]"
  say ("UUID:        " ++ r.uuid.render ++ "\n")
  sayBytes ("Serial:      ".toUTF8 ++ r.serial ++ "\n".toUTF8)
  sayBytes ("Hardware:    ".toUTF8 ++ r.hardware ++ "\n".toUTF8)
  say ("Provisioned: " ++ provisionedText r.provisionedAt ++ "\n")

/-- The command `health`: the overall grade, then one line per check. -/
def health : SiteM Unit := do
  let rep ← Health.siteReport
  say ("Status: " ++ rep.status.name ++ "\n")
  for c in rep.checks do
    say ("  " ++ padRight 8 c.name ++ " " ++ padRight 9 c.status.name ++ " " ++ c.message ++ "\n")

/-- Runs one command line. -/
def execute (fresh : Identity.Fresh) : List ByteArray → SiteM Unit
  | [] => pure ()
  | word :: args =>
    match commandName word with
    | "help" | "?" => say helpText
    | "dump" => dump args
    | "fget" =>
      match args with
      | [key] => getIn key Partition.all
      | _ => dump []
    | "get" => get args
    | "set" | "fset" => set args
    | "del" | "delete" => del args
    | "hist" | "history" => history args
    | "free" => free args
    | "stat" | "stats" => stat args
    | "clear" => emptyPartition "clear <partition>" SiteM.clear args
    | "format" => emptyPartition "format <partition>" SiteM.format args
    | "id" => identity fresh args
    | "health" => health
    | "sync" | "flush" => SiteM.flushAll
    | _ => throw (.unknownCommand word)

end NorStore.Cli
