import NorStore.Cli.Run

/-!
# Command-line flags

The tool takes three flags before its command: `-config FILE`, `-image FILE` and
`-log-level LEVEL`. A flag is written with one or two dashes, and its value either after `=`
or as the next argument. Flags end at the first argument that is not one (a lone `-`
included) or after `--`; what is left is the command. An unknown flag, a flag without its
value and a malformed one are refused with the reason.
-/

namespace NorStore.Cli

/-- The flags read so far. -/
structure Flags where
  config : String := ""
  image : String := ""
  level : String := ""
  deriving Repr, Inhabited

/-- Sets a known flag, or refuses an unknown one. -/
def Flags.set (fl : Flags) (name value : String) : Except String Flags :=
  match name with
  | "config" => .ok { fl with config := value }
  | "image" => .ok { fl with image := value }
  | "log-level" => .ok { fl with level := value }
  | "help" | "h" => .error "flag: help requested"
  | _ => .error ("flag provided but not defined: -" ++ name)

/-- Reads flags from the front of the arguments: the flags and the remaining arguments. -/
def parseFlags (args : List String) : Except String (Flags × List String) :=
  go args.length {} args
where
  /-- Reads flags, at most `fuel` of them. -/
  go : Nat → Flags → List String → Except String (Flags × List String)
    | 0, fl, rest => .ok (fl, rest)
    | fuel + 1, fl, [] => let _ := fuel; .ok (fl, [])
    | fuel + 1, fl, s :: rest =>
      if s.length < 2 || s.front != '-' then .ok (fl, s :: rest)
      else if s == "--" then .ok (fl, rest)
      else
        let name := (if (s.drop 1).toString.front == '-' then s.drop 2 else s.drop 1).toString
        if name.isEmpty || name.front == '-' || name.front == '=' then
          .error ("bad flag syntax: " ++ s)
        else
          let (name, value) := match name.splitOn "=" with
            | n :: v :: more => if n.isEmpty then (name, none) else (n, some ("=".intercalate (v :: more)))
            | _ => (name, none)
          match value, rest with
          | some v, _ => do go fuel (← fl.set name v) rest
          | none, v :: more =>
            match fl.set name v with
            | .ok fl => go fuel fl more
            | .error e => .error e
          | none, [] =>
            match fl.set name "" with
            | .error e => .error e
            | .ok _ => .error ("flag needs an argument: -" ++ name)

/-- An invocation from the tool's arguments. -/
def Invocation.ofArguments (args : List String) (input : ByteArray) (fresh : Identity.Fresh) :
    Except String Invocation := do
  let (fl, rest) ← parseFlags args
  pure { config := fl.config, image := fl.image, level := fl.level,
         args := rest.map String.toUTF8, input, fresh }

end NorStore.Cli
