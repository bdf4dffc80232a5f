import Std.Time.DateTime
import NorStore.Cli.Flags

/-!
# The command-line tool

`main` reads the flags, the rest of the arguments as the command and, for the shell, its
whole standard input; it runs the tool over the real file system, writes the console output
to standard output and the log lines to standard error, and exits with 1 after printing the
failure, if the run failed.

Files are reached by opening them: a path that cannot be opened because it does not exist is
missing, one that cannot be opened otherwise lies under a file, and one that opens but cannot
be read is a directory.
-/

namespace NorStore.Cli

/-- The real file system as a disk. -/
def fileDisk : Disk IO where
  inspect path := do
    match ← (IO.FS.Handle.mk path .read).toBaseIO with
    | .error (.noFileOrDirectory _ _ _) => pure .missing
    | .error _ => pure .blocked
    | .ok h =>
      match ← h.readBinToEnd.toBaseIO with
      | .ok b => pure (.file b.size)
      | .error _ => pure .directory
  read path := IO.FS.readBinFile path
  write path b := IO.FS.writeBinFile path b

/-- The present time in Unix seconds. -/
def nowSeconds : IO Int := do
  pure (← Std.Time.Timestamp.now).toSecondsSinceUnixEpoch.val

/-- A new identifier and the present time. -/
def freshIdentity : IO Identity.Fresh := do
  let r ← IO.getRandomBytes 16
  pure { uuid := Uuid.version4 (Vector.ofFn fun i => r[i.val]?.getD 0), now := ← nowSeconds }

/-- The time of a log line. -/
def stamp (seconds : Int) : String :=
  let c := Civil.ofSeconds seconds
  Civil.padded 4 c.year.toNat ++ "-" ++ Civil.padded 2 c.month ++ "-" ++ Civil.padded 2 c.day ++
    "T" ++ Civil.padded 2 c.hour ++ ":" ++ Civil.padded 2 c.minute ++ ":" ++
    Civil.padded 2 c.second ++ "Z"

end NorStore.Cli

open NorStore NorStore.Cli in
/-- Runs the tool with the process's arguments. -/
def main (args : List String) : IO UInt32 := do
  let input ← (← IO.getStdin).readBinToEnd
  match Invocation.ofArguments args input (← freshIdentity) with
  | .error why =>
    IO.eprintln why
    pure 2
  | .ok inv =>
    let report ← run fileDisk inv
    let out ← IO.getStdout
    out.write report.stdout
    out.flush
    let time := stamp (← nowSeconds)
    for r in report.journal do
      IO.eprintln (r.render time)
    match report.error with
    | some f =>
      IO.eprintln ("❌ " ++ f.message)
      pure 1
    | none => pure 0
