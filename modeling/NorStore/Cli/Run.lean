import NorStore.Cli.Command
import NorStore.Profile.Check

/-!
# One run of the command-line tool

A run reads the profile file (or takes the defaults), lets the command line name another
image file and log level, opens the image (creating an erased one when there is none; an
existing one must be exactly the device's size), opens the storage manager over it, runs one
command or the interactive shell, and closes: the background writer's last flush, then the
manager's own, each failure reported together with the command's. A run that ended well logs
that the image was synced.

The image file is the flash part: after the run it holds whatever the part holds, also when
the manager failed to open, since mounting may already have erased it.

Files are reached through a `Disk` in any monad, so that the same run works on a real file
system and on a model of one.

The shell prints a banner and then a prompt before each line it reads; it trims each line,
skips empty ones, stops at `exit` or `quit`, and reports a failed command on the console
without stopping. Lines end at a line feed (a carriage return before it is dropped); a line
of 64 KiB or more ends the input.
-/

namespace NorStore.Cli

open Storage

/-- The banner of the shell. -/
def banner : String :=
  "Type 'help' for available commands, 'exit' to quit\n"

/-- The prompt of the shell. -/
def prompt : String :=
  "nvs> "

/-- The longest line the shell reads, exclusive. -/
def lineLimit : Nat :=
  64 * 1024

/-- The lines of the shell's input, up to the first that is too long. -/
def inputLines (input : ByteArray) : List ByteArray :=
  let pieces := (input.toList.splitOn 10)
  let pieces := if input.toList.getLast? == some 10 then pieces.dropLast else pieces
  let pieces := if input.isEmpty then [] else pieces
  let lines := pieces.map fun l => if l.getLast? == some 13 then l.dropLast else l
  let kept := (pieces.zip lines).takeWhile fun (raw, _) => raw.length < lineLimit
  kept.map fun (_, l) => ⟨l.toArray⟩

/-- The interactive shell over the lines of `input`. -/
def shell (fresh : Identity.Fresh) (input : ByteArray) : SiteM Unit := do
  say banner
  for line in inputLines input do
    say prompt
    let t := Words.trim line
    if t.isEmpty then continue
    if t == "exit".toUTF8 || t == "quit".toUTF8 then return
    tryCatch (execute fresh (Words.fields t)) fun f => say ("❌ " ++ f.message ++ "\n")
  say prompt

/-- What stands at a path. -/
inductive PathState where
  /-- Nothing, or a directory on the way is missing. -/
  | missing
  /-- A file stands where a directory on the way should. -/
  | blocked
  | directory
  /-- A file of this many bytes. -/
  | file (size : Nat)
  deriving Repr, DecidableEq, Inhabited

/-- The file operations a run needs, in a monad `m`. -/
structure Disk (m : Type → Type) where
  /-- What stands at a path. -/
  inspect : String → m PathState
  /-- The contents of a file. -/
  read : String → m ByteArray
  /-- Replaces the contents of a file, creating it. -/
  write : String → ByteArray → m Unit

/-- The directory a path lies in. -/
def parentOf (path : String) : String :=
  match (path.splitOn "/").dropLast with
  | [] => "."
  | [""] => "/"
  | parts => "/".intercalate parts

/-- What a run is given. -/
structure Invocation where
  /-- The profile file; empty for the defaults. -/
  config : String := ""
  /-- An image file that replaces the profile's; empty for none. -/
  image : String := ""
  /-- A log level that replaces the profile's; empty for none. -/
  level : String := ""
  /-- The command's words; none for the shell. -/
  args : List ByteArray := []
  /-- What the shell reads. -/
  input : ByteArray := .empty
  /-- What a new identity is made of. -/
  fresh : Identity.Fresh

/-- What a run leaves, besides the files. -/
structure Report where
  /-- What it wrote to the console. -/
  stdout : ByteArray := .empty
  /-- What it logged. -/
  journal : Log.Journal := #[]
  /-- Why it failed, if it did. -/
  error : Option Fault := none

/-- Several failures as one: none, the only one, or all of them joined. -/
def joinFaults (fs : List (Option Fault)) : Option Fault :=
  match fs.filterMap id with
  | [] => none
  | [f] => some f
  | gs => some (.joined gs)

/-- Runs an operation, answering its failure instead of failing. -/
def capture (act : SiteM Unit) : SiteM (Option Fault) :=
  tryCatch (do act; pure none) fun f => pure (some f)

variable {m : Type → Type} [Monad m]

/-- Reads the profile file at a path, or gives the defaults for an empty path. -/
def loadProfile (d : Disk m) (path : String) : m (Except Fault Profile) := do
  if path.isEmpty then return .ok {}
  let unreadable (why : String) : Except Fault Profile := .error (.configUnreadable (.note why))
  match ← d.inspect path with
  | .missing => pure (unreadable ("open " ++ path ++ ": no such file or directory"))
  | .blocked => pure (unreadable ("open " ++ path ++ ": not a directory"))
  | .directory => pure (unreadable ("read " ++ path ++ ": is a directory"))
  | .file _ =>
    match Profile.parse (← d.read path) with
    | .ok p => pure (.ok p)
    | .error f => pure (.error (.configFile path f))

/-- The contents of the image at a path for a device of geometry `g`: an existing image of
the right size, or a new erased one. -/
def openImage (d : Disk m) (path : String) (g : Flash.Geometry) : m (Except Fault ByteArray) := do
  let refused (why : String) : Except Fault ByteArray :=
    .error (.note ("flash: open image " ++ path ++ ": open " ++ path ++ ": " ++ why))
  if path.isEmpty then return refused "no such file or directory"
  match ← d.inspect path with
  | .directory => pure (refused "is a directory")
  | .blocked => pure (refused "not a directory")
  | .file size =>
    if size != g.size then
      pure (.error (.note ("flash: image " ++ path ++ " is " ++ toString size ++
        " bytes, geometry says " ++ toString g.size)))
    else pure (.ok (← d.read path))
  | .missing =>
    match ← d.inspect (parentOf path) with
    | .directory =>
      let cells := ByteArray.mk (Array.replicate g.size g.eraseValue)
      d.write path cells
      pure (.ok cells)
    | .missing => pure (refused "no such file or directory")
    | _ => pure (refused "not a directory")

/-- The run of a command or the shell on an open manager, then the closing flushes. -/
def work (inv : Invocation) : SiteM (Option Fault) := do
  let failed ← capture (if inv.args.isEmpty then shell inv.fresh inv.input else execute inv.fresh inv.args)
  let lastFlush ← capture SiteM.flushAll
  let closing ← capture SiteM.close
  pure (joinFaults [failed, lastFlush, closing])

/-- A run on the device held in `cells`: the report and the device's contents after it. -/
def session (p : Profile) (inv : Invocation) (cells : ByteArray) : Report × ByteArray :=
  let g := p.geometry
  let logger := Log.Logger.atLevel (Log.Level.parse p.level)
  let chip : Flash.Chip := { geometry := g, cells, wear := Array.replicate g.blockCount 0 }
  let (rig, opened) := openSite p.options (some logger) { chip }
  match opened with
  | .error f => ({ journal := rig.journal, error := some f }, rig.chip.cells)
  | .ok site =>
    let (r, s) := (work inv).run.run site
    let error := match r with
      | .ok e => e
      | .error f => some f
    let journal := if error.isNone then
        logger.emit .debug "image synced" [("path", .text p.part.image)] s.rig.journal
      else s.rig.journal
    ({ stdout := s.console, journal, error }, s.rig.chip.cells)

/-- One run of the tool. -/
def run (d : Disk m) (inv : Invocation) : m Report := do
  match ← loadProfile d inv.config with
  | .error f => pure { error := some f }
  | .ok p =>
    let p := { p with part := { p.part with image := if inv.image.isEmpty then p.part.image else inv.image },
                      level := if inv.level.isEmpty then p.level else inv.level }
    let g := p.geometry
    match g.validate with
    | .error f => pure { error := some f }
    | .ok () =>
      match ← openImage d p.part.image g with
      | .error f => pure { error := some f }
      | .ok cells =>
        let (report, after) := session p inv cells
        d.write p.part.image after
        pure report

end NorStore.Cli
