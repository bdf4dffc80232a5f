/-!
# Tokens of YAML text

The reader of configuration files works in three layers, as YAML is specified: a scanner
turns characters into tokens, a parser turns tokens into events, and a composer builds the
node tree of the first document from the events. This module holds what the layers share:
positions, the failures each layer reports, and the tokens.

A failure is reported as `yaml: line N: problem`. The line is the line of the failure's
context when that is not the first line, otherwise the line of the problem itself; a
scanner counts lines from zero here while the other layers' lines are already one ahead,
so a scanner's line is shown one higher. Line zero is not shown at all.
-/

namespace NorStore.Yaml

/-- A position in the text: the character index, line and column, all from zero. -/
structure Mark where
  /-- Characters before the position. -/
  index : Nat := 0
  /-- Line breaks before the position. -/
  line : Nat := 0
  /-- Characters since the last line break. -/
  column : Nat := 0
  deriving Repr, DecidableEq, Inhabited

/-- The layer that failed. -/
inductive Stage where
  /-- The text is not acceptable characters. -/
  | reader
  /-- The characters do not form tokens. -/
  | scanner
  /-- The tokens do not form a document. -/
  | parser
  /-- The document cannot be built or decoded. -/
  | composer
  deriving Repr, DecidableEq, Inhabited

/-- Why YAML text could not be read. -/
structure Error where
  /-- The layer that failed. -/
  stage : Stage
  /-- What was being read. -/
  context : String := ""
  /-- Where that began. -/
  contextMark : Mark := {}
  /-- What went wrong. -/
  problem : String
  /-- Where it went wrong. -/
  problemMark : Mark := {}
  deriving Repr, Inhabited

/-- The text of a failure: `yaml: `, the line where it is not the first, and the problem. -/
def Error.text (e : Error) : String :=
  let bump (n : Nat) : Nat := if e.stage == .scanner then n + 1 else n
  let line :=
    if e.contextMark.line != 0 then bump e.contextMark.line
    else if e.problemMark.line != 0 then bump e.problemMark.line
    else 0
  let place := if line != 0 then "line " ++ toString line ++ ": " else ""
  "yaml: " ++ place ++ (if e.problem.isEmpty then "unknown problem parsing YAML content" else e.problem)

/-- A failure of the composer, which has no position. -/
def Error.plain (problem : String) : Error :=
  { stage := .composer, problem }

/-- How a scalar was written. -/
inductive ScalarStyle where
  | plain | singleQuoted | doubleQuoted | literal | folded
  deriving Repr, DecidableEq, Inhabited

/-- What a token is. -/
inductive TokenKind where
  | streamStart | streamEnd
  /-- The directive `%YAML major.minor`. -/
  | versionDirective (major minor : Nat)
  /-- The directive `%TAG handle prefix`. -/
  | tagDirective (handle pre : String)
  | documentStart | documentEnd
  | blockSequenceStart | blockMappingStart | blockEnd
  | flowSequenceStart | flowSequenceEnd | flowMappingStart | flowMappingEnd
  | blockEntry | flowEntry | key | value
  | reference (name : String)
  | anchor (name : String)
  /-- A tag: its handle (empty for a verbatim tag) and suffix. -/
  | tag (handle suffix : String)
  | scalar (text : String) (style : ScalarStyle)
  deriving Repr, DecidableEq, Inhabited

/-- A token and where it lies. -/
structure Token where
  kind : TokenKind
  start : Mark
  stop : Mark
  deriving Repr, Inhabited

namespace TokenKind

/-- Whether two tokens are of the same kind, whatever they carry. -/
def sameAs : TokenKind → TokenKind → Bool
  | streamStart, streamStart | streamEnd, streamEnd | documentStart, documentStart
  | documentEnd, documentEnd | blockSequenceStart, blockSequenceStart
  | blockMappingStart, blockMappingStart | blockEnd, blockEnd
  | flowSequenceStart, flowSequenceStart | flowSequenceEnd, flowSequenceEnd
  | flowMappingStart, flowMappingStart | flowMappingEnd, flowMappingEnd
  | blockEntry, blockEntry | flowEntry, flowEntry | key, key | value, value => true
  | versionDirective .., versionDirective .. | tagDirective .., tagDirective .. => true
  | reference _, reference _ | anchor _, anchor _ | tag .., tag .. | scalar .., scalar .. => true
  | _, _ => false

/-- Whether the token is a directive. -/
def isDirective : TokenKind → Bool
  | versionDirective .. | tagDirective .. => true
  | _ => false

end TokenKind

end NorStore.Yaml
