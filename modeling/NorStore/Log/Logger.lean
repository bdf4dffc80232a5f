import NorStore.Log.Record
import NorStore.Text.Blank

/-!
# Loggers

A logger either discards everything (`Logger.silent`) or writes records at or above a
threshold, adding its own fields in front of each record's (`Logger.writer`). A child made by
`child` copies the threshold and appends fields; changing a logger's threshold later does not
reach children already made. A silent logger reports the threshold `info` and ignores every
change.

Records go to a `Journal`, the lines written so far in order, shared by a logger and all its
children.
-/

namespace NorStore.Log

/-- Reads a severity name in any case with white space around it: `debug`, `warn` or
`warning`, `error`; anything else is `info`. -/
def Level.parse (s : String) : Level :=
  match Blank.fold s with
  | "debug" => .debug
  | "warn" | "warning" => .warn
  | "error" => .error
  | _ => .info

/-- The level named by the first of several settings that is not empty, or `info`. -/
def Level.ofSettings (values : List String) : Level :=
  match values.find? (!·.isEmpty) with
  | some v => Level.parse v
  | none => .info

/-- Where records go and which pass. -/
inductive Logger where
  /-- Discards every record. -/
  | silent
  /-- Writes records at or above `threshold`, with `fields` in front of their own. -/
  | writer (threshold : Level) (fields : List Field)
  deriving Inhabited

/-- The records written so far, oldest first. -/
abbrev Journal := Array Record

namespace Logger

/-- A writing logger with no fields of its own. -/
def atLevel (l : Level) : Logger :=
  .writer l []

/-- The child with more fields. -/
def child (lg : Logger) (fs : List Field) : Logger :=
  match lg with
  | .silent => .silent
  | .writer t own => .writer t (own ++ fs)

/-- The threshold; `info` for a silent logger. -/
def level : Logger → Level
  | .silent => .info
  | .writer t _ => t

/-- The same logger with a new threshold. -/
def setLevel (lg : Logger) (l : Level) : Logger :=
  match lg with
  | .silent => .silent
  | .writer _ own => .writer l own

/-- The record a logger writes for a message at severity `l`, if any. -/
def record? (lg : Logger) (l : Level) (msg : String) (fs : List Field) : Option Record :=
  match lg with
  | .silent => none
  | .writer t own => if l.passes t then some ⟨l, msg, own ++ fs⟩ else none

/-- The journal after logging a message. -/
def emit (lg : Logger) (l : Level) (msg : String) (fs : List Field) (j : Journal) : Journal :=
  match lg.record? l msg fs with
  | some r => j.push r
  | none => j

end Logger

/-- How long timed operations take: nothing in this library waits, so always zero. -/
def elapsed : String := "0s"

/-- The field naming an error, `null` for none. -/
def errorField (msg : Option String) : Field :=
  ("error", match msg with | some m => .text m | none => .null)

/-- How a timed operation ended: logged at `info`, at `debug`, or as failed (at `error`, with
its error). -/
inductive Ending where
  | info
  | debug
  | failed (error : Option String)

/-- An operation being timed: its message and fields. -/
structure Timing where
  /-- What the operation is. -/
  message : String
  /-- Its fields. -/
  fields : List Field

/-- The journal after a timed operation ends: its fields, then its latency, then for a failure
its error. -/
def Timing.finish (t : Timing) (lg : Logger) (e : Ending) (j : Journal) : Journal :=
  let timed := t.fields ++ [("latency", .text elapsed)]
  match e with
  | .info => lg.emit .info t.message timed j
  | .debug => lg.emit .debug t.message timed j
  | .failed err => lg.emit .error t.message (timed ++ [errorField err]) j

end NorStore.Log
